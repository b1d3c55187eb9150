import Ccybe.Lib.CSem
import Mathlib.Data.List.TakeWhile

/-!
# Strings in memory

Blocks of bytes and those functions of the C library that work on them. A string is what stands
in a block before its first zero byte.
-/

namespace CSem

abbrev Bytes := List UInt8
abbrev Block := List (Option UInt8)

/-- `malloc(size)`; `mem` says whether there is memory. -/
def malloc (size : Int) (mem : Bool) : Option Block :=
  if mem then some (List.replicate size.toNat none) else none

/-- `realloc(data, size)`. -/
def realloc (data : Block) (size : Int) (mem : Bool) : Option Block :=
  if mem then some (data.take size.toNat ++ List.replicate (size.toNat - data.length) none)
  else none

/-- The cells `xs` are written from position `i` on. -/
def blit (dst : Block) (i : Int) (xs : Block) : Eval Block :=
  if 0 ≤ i ∧ i.toNat + xs.length ≤ dst.length then
    .ok (dst.take i.toNat ++ xs ++ dst.drop (i.toNat + xs.length))
  else .error .bounds

/-- `memcpy(dst + i, src, n)`. -/
def memcpy (dst : Block) (i : Int) (src : Block) (n : ℕ) : Eval Block :=
  if n ≤ src.length then blit dst i (src.take n) else .error .bounds

/-- `strlen`. -/
def strlen : Block → Eval ℕ
  | [] => .error .bounds
  | none :: _ => .error .uninit
  | some c :: str => if c = 0 then .ok 0 else (strlen str).map (· + 1)

/-- The `n` bytes that `strncpy` writes: those of the string, then zeros. -/
def strncpyBytes : Block → ℕ → Eval Bytes
  | _, 0 => .ok []
  | [], _ + 1 => .error .bounds
  | none :: _, _ + 1 => .error .uninit
  | some c :: src, n + 1 =>
    if c = 0 then .ok (List.replicate (n + 1) 0) else (strncpyBytes src n).map (c :: ·)

/-- `strncpy(dst + i, src, n)`. -/
def strncpy (dst : Block) (i : Int) (src : Block) (n : ℕ) : Eval Block := do
  let bs ← strncpyBytes src n
  blit dst i (bs.map some)

/-- `snprintf(dst, size, …)` when `text` is what is printed; the result is the length of `text`. -/
def snprintf (dst : Block) (size : ℕ) (text : Bytes) : Eval (ℕ × Block) := do
  let dst ← if size = 0 then pure dst else blit dst 0 ((text.take (size - 1)).map some ++ [some 0])
  pure (text.length, dst)

/-- The first `n` bytes of a block, all of which have been written. -/
def readBytes : Block → ℕ → Eval Bytes
  | _, 0 => .ok []
  | [], _ + 1 => .error .bounds
  | none :: _, _ + 1 => .error .uninit
  | some c :: src, n + 1 => (readBytes src n).map (c :: ·)

/-- The string that starts at the front of a block. -/
def readString (cells : Block) : Eval Bytes := do
  let n ← strlen cells
  readBytes cells n

/-- The byte of a character. -/
def chr (c : Char) : UInt8 := c.toNat.toUInt8

/-- The bytes of a text. -/
def ascii (text : List Char) : Bytes := text.map chr

/-- `tolower`. -/
def toLower (c : UInt8) : UInt8 := if chr 'A' ≤ c ∧ c ≤ chr 'Z' then c + 32 else c

/-- Whether `strcasecmp` returns zero on two strings. -/
def sameIgnoringCase (a b : Bytes) : Bool := a.map toLower == b.map toLower

/-- The block of a text with a zero byte behind it. -/
def terminated (text : Bytes) : Block := text.map some ++ [some 0]

/-- The text before the first zero byte. -/
def cstr (bs : Bytes) : Bytes := bs.takeWhile (· ≠ 0)

/-- The text before the first zero byte, and zeros up to the same length. -/
def padded : Bytes → Bytes
  | [] => []
  | c :: bs => if c = 0 then List.replicate (bs.length + 1) 0 else c :: padded bs

/-- The block starts with the text, which has no zero byte in it, and a zero byte behind it. -/
def HasString (cells : Block) (text : Bytes) : Prop :=
  (0 : UInt8) ∉ text ∧ ∃ rest, cells = terminated text ++ rest

/-- A block after a text was written over its front, with a zero byte behind it. -/
def written (cells : Block) (text : Bytes) : Block := terminated text ++ cells.drop (text.length + 1)

@[simp] lemma length_terminated (text : Bytes) :
    (terminated text).length = text.length + 1 := by
  simp [terminated]

lemma cstr_eq_self {bs : Bytes} (h : (0 : UInt8) ∉ bs) : cstr bs = bs := by
  refine List.takeWhile_eq_self_iff.mpr fun c hc => ?_
  simpa using fun h0 : c = 0 => h (h0 ▸ hc)

@[simp] lemma cstr_cons_zero (bs : Bytes) : cstr (0 :: bs) = [] := by simp [cstr]

lemma cstr_cons {c : UInt8} (bs : Bytes) (hc : c ≠ 0) : cstr (c :: bs) = c :: cstr bs := by
  simp [cstr, hc]

/-! ### What the functions compute -/

lemma terminated_cons (c : UInt8) (bs : Bytes) :
    terminated (c :: bs) = some c :: terminated bs := rfl

/-- The length is counted up to the first zero byte, wherever that is. -/
lemma strlen_terminated (bs : Bytes) : strlen (terminated bs) = .ok (cstr bs).length := by
  induction bs with
  | nil => simp [terminated, strlen, cstr]
  | cons c bs ih =>
    by_cases hc : c = 0
    · simp [terminated_cons, strlen, hc]
    · rw [cstr_cons bs hc, terminated_cons, strlen, if_neg hc, ih]
      rfl

lemma strncpyBytes_terminated (bs : Bytes) :
    strncpyBytes (terminated bs) (cstr bs).length = .ok (cstr bs) := by
  induction bs with
  | nil => simp [strncpyBytes, cstr]
  | cons c bs ih =>
    by_cases hc : c = 0
    · subst hc
      simp [strncpyBytes]
    · rw [cstr_cons bs hc, terminated_cons, List.length_cons, strncpyBytes, if_neg hc, ih]
      rfl

/-- `strncpy` of a whole block stops copying at the first zero byte. -/
lemma strncpyBytes_padded (bs : Bytes) : strncpyBytes (terminated bs) bs.length = .ok (padded bs) := by
  induction bs with
  | nil => rfl
  | cons c bs ih =>
    by_cases hc : c = 0
    · simp [terminated_cons, strncpyBytes, padded, hc]
    · rw [terminated_cons, List.length_cons, strncpyBytes, if_neg hc, ih, padded, if_neg hc]
      rfl

@[simp] lemma length_padded (bs : Bytes) : (padded bs).length = bs.length := by
  induction bs with
  | nil => rfl
  | cons c bs ih =>
    rw [padded]
    split_ifs <;> simp [ih]

/-- Nothing is lost if and only if no zero byte has another byte behind it. -/
lemma padded_eq_iff (bs : Bytes) :
    padded bs = bs ↔ ∀ u v, bs = u ++ 0 :: v → ∀ c ∈ v, c = 0 := by
  induction bs with
  | nil => simp [padded]
  | cons c bs ih =>
    by_cases hc : c = 0
    · subst hc
      rw [padded, if_pos rfl, List.replicate_succ, List.cons_inj_right, eq_comm, List.eq_replicate_iff]
      constructor
      · rintro ⟨-, hall⟩ u v huv d hd
        cases u with
        | nil =>
          cases huv
          exact hall d hd
        | cons e u =>
          cases huv
          exact hall d (by simp [hd])
      · exact fun h => ⟨rfl, h [] bs rfl⟩
    · rw [padded, if_neg hc, List.cons_inj_right, ih]
      constructor
      · intro h u v huv
        cases u with
        | nil =>
          cases huv
          exact absurd rfl hc
        | cons e u =>
          cases huv
          exact h u v rfl
      · rintro h u v rfl
        exact h (c :: u) v rfl

lemma readBytes_map (text : Bytes) (rest : Block) :
    readBytes (text.map some ++ rest) text.length = .ok text := by
  induction text with
  | nil => simp [readBytes]
  | cons c text ih =>
    rw [List.map_cons, List.cons_append, List.length_cons, readBytes, ih]
    rfl

/-! ### Strings at the front of a block -/

lemma strlen_append {text : Bytes} (h : (0 : UInt8) ∉ text) (rest : Block) :
    strlen (terminated text ++ rest) = .ok text.length := by
  induction text with
  | nil => simp [terminated, strlen]
  | cons c text ih =>
    rw [List.mem_cons, not_or] at h
    rw [terminated_cons, List.cons_append, strlen, if_neg (Ne.symm h.1), ih h.2]
    rfl

lemma HasString.strlen_eq {cells : Block} {text : Bytes} (h : HasString cells text) :
    strlen cells = .ok text.length := by
  obtain ⟨hnul, rest, rfl⟩ := h
  exact strlen_append hnul rest

/-- Where `strlen` returns there is a string. -/
lemma hasString_of_strlen {cells : Block} {n : ℕ} (h : strlen cells = .ok n) :
    ∃ text, HasString cells text := by
  induction cells generalizing n with
  | nil => cases h
  | cons cell cells ih =>
    cases cell with
    | none => cases h
    | some c =>
      rw [strlen] at h
      by_cases hc : c = 0
      · exact ⟨[], List.not_mem_nil, cells, by rw [hc]; rfl⟩
      · rw [if_neg hc] at h
        obtain ⟨m, hlen, -⟩ := map_eq_ok.mp h
        obtain ⟨text, hnul, rest, hcells⟩ := ih hlen
        refine ⟨c :: text, ?_, rest, by rw [hcells]; rfl⟩
        rw [List.mem_cons, not_or]
        exact ⟨Ne.symm hc, hnul⟩

lemma HasString.length_lt {cells : Block} {text : Bytes} (h : HasString cells text) :
    text.length < cells.length := by
  obtain ⟨-, rest, rfl⟩ := h
  rw [List.length_append, length_terminated]
  omega

lemma HasString.readString_eq {cells : Block} {text : Bytes} (h : HasString cells text) :
    readString cells = .ok text := by
  rw [readString, h.strlen_eq, ok_bind]
  obtain ⟨-, rest, rfl⟩ := h
  rw [terminated, List.append_assoc, readBytes_map]

/-- The first bytes of a string, without the zero byte behind it. -/
lemma HasString.strncpyBytes_take {cells : Block} {u v : Bytes} (h : HasString cells (u ++ v)) :
    strncpyBytes cells u.length = .ok u := by
  obtain ⟨hnul, rest, rfl⟩ := h
  induction u with
  | nil => simp [strncpyBytes]
  | cons c u ih =>
    rw [List.cons_append, List.mem_cons, not_or] at hnul
    rw [List.cons_append, terminated_cons, List.cons_append, List.length_cons, strncpyBytes,
      if_neg (Ne.symm hnul.1), ih hnul.2]
    rfl

lemma HasString.strncpyBytes_eq {cells : Block} {text : Bytes} (h : HasString cells text) :
    strncpyBytes cells text.length = .ok text :=
  HasString.strncpyBytes_take (v := []) (by rwa [List.append_nil])

lemma HasString.drop {cells : Block} {u v : Bytes} (h : HasString cells (u ++ v)) :
    HasString (cells.drop u.length) v := by
  obtain ⟨hnul, rest, rfl⟩ := h
  rw [List.mem_append, not_or] at hnul
  refine ⟨hnul.2, rest, ?_⟩
  simp [terminated]

lemma hasString_terminated {text : Bytes} (h : (0 : UInt8) ∉ text) : HasString (terminated text) text :=
  ⟨h, [], by simp⟩

lemma zero_notMem_cstr (bs : Bytes) : (0 : UInt8) ∉ cstr bs := by
  intro h
  simpa using List.mem_takeWhile_imp h

/-- Behind a zero byte nothing belongs to the string. -/
lemma hasString_terminated_cstr (bs : Bytes) : HasString (terminated bs) (cstr bs) := by
  refine ⟨zero_notMem_cstr bs, ?_⟩
  induction bs with
  | nil => exact ⟨[], rfl⟩
  | cons c bs ih =>
    by_cases hc : c = 0
    · subst hc
      exact ⟨terminated bs, by rw [cstr_cons_zero]; rfl⟩
    · obtain ⟨rest, hrest⟩ := ih
      exact ⟨rest, by rw [cstr_cons bs hc, terminated_cons, terminated_cons, hrest]; rfl⟩

lemma HasString.unique {cells : Block} {text text' : Bytes} (h : HasString cells text)
    (h' : HasString cells text') : text = text' :=
  Except.ok.inj (h.readString_eq.symm.trans h'.readString_eq)

/-- A zero byte ends the string where it is written. -/
lemma HasString.set_zero {cells : Block} {text : Bytes} (h : HasString cells text) {n : ℕ}
    (hn : n < cells.length) : HasString (cells.set n (some 0)) (text.take n) := by
  obtain ⟨hnul, rest, rfl⟩ := h
  refine ⟨fun hmem => hnul (List.mem_of_mem_take hmem), ?_⟩
  rcases le_or_gt n text.length with hle | hgt
  · refine ⟨(terminated text ++ rest).drop (n + 1), ?_⟩
    rw [List.set_eq_take_append_cons_drop, if_pos hn, terminated, terminated, List.append_assoc,
      List.take_append_of_le_length (by simpa using hle), List.map_take]
    simp
  · refine ⟨rest.set (n - (text.length + 1)) (some 0), ?_⟩
    rw [List.take_of_length_le hgt.le,
      List.set_append_right _ _ (by rw [length_terminated]; omega),
      length_terminated]

/-- Writing over the end of a block: what was before it stays. -/
lemma blit_append (u v xs w : Block) (h : v.length = xs.length) :
    blit (u ++ v ++ w) u.length xs = .ok (u ++ xs ++ w) := by
  have hle : u.length + xs.length ≤ (u ++ v ++ w).length := by
    simp only [List.length_append, h]
    omega
  rw [blit, if_pos ⟨Int.natCast_nonneg _, hle⟩, Int.toNat_natCast]
  congr 2
  · rw [List.append_assoc, List.take_left]
  · rw [← h, ← List.length_append, List.drop_left]

/-! ### Writing over the front of a block -/

lemma length_written {cells : Block} {text : Bytes} (h : text.length < cells.length) :
    (written cells text).length = cells.length := by
  rw [written, List.length_append, length_terminated, List.length_drop]
  omega

lemma written_hasString (cells : Block) {text : Bytes} (h : (0 : UInt8) ∉ text) :
    HasString (written cells text) text :=
  ⟨h, _, rfl⟩

lemma blit_front {dst xs : Block} (h : xs.length ≤ dst.length) :
    blit dst 0 xs = .ok (xs ++ dst.drop xs.length) := by
  rw [blit, if_pos ⟨le_refl _, by simpa using h⟩]
  simp

/-- A text is written, and a zero byte behind it. -/
lemma blit_terminate {cells : Block} {text : Bytes} (h : text.length < cells.length) :
    (do let d ← blit cells 0 (text.map some)
        set d text.length (0 : UInt8)) = .ok (written cells text) := by
  have hdrop : cells.drop text.length = cells[text.length] :: cells.drop (text.length + 1) :=
    (List.getElem_cons_drop h).symm
  generalize cells[text.length] = cell at hdrop
  rw [blit_front (by simpa using h.le), List.length_map, ok_bind, hdrop, set_natCast 0 (by simp),
    List.set_append_right _ _ (by simp), List.length_map, Nat.sub_self, List.set_cons_zero, written,
    terminated, List.append_assoc]
  rfl

/-- There is no room for the text and the zero byte. -/
lemma blit_terminate_bounds {cells : Block} {text : Bytes} (h : cells.length ≤ text.length) :
    (do let d ← blit cells 0 (text.map some)
        set d text.length (0 : UInt8)) = .error .bounds := by
  rw [blit]
  split_ifs with hle
  · refine set_of_le 0 ?_
    simp only [List.length_map, List.length_append, List.length_take, List.length_drop] at hle ⊢
    omega
  · rfl

/-- What fits is printed as it is. -/
lemma snprintf_eq {dst : Block} {size : ℕ} {text : Bytes} (h : text.length < size)
    (hsize : size ≤ dst.length) : snprintf dst size text = .ok (text.length, written dst text) := by
  have htake : text.take (size - 1) = text := List.take_of_length_le (by omega)
  have hle : (text.map some ++ [some (0 : UInt8)]).length ≤ dst.length := by
    rw [List.length_append, List.length_map, List.length_singleton]
    omega
  rw [snprintf, htake, if_neg (by omega), blit_front hle]
  simp [written, terminated]

/-- The zero byte behind the text is written a second time. -/
lemma set_written {dst : Block} {text : Bytes} (h : text.length < dst.length) :
    set (written dst text) text.length 0 = .ok (written dst text) := by
  rw [set_natCast 0 (by rw [length_written h]; exact h), written, terminated, List.append_assoc,
    List.set_append_right _ _ (by simp)]
  simp

end CSem
