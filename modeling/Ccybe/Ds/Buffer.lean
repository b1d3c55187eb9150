import Ccybe.Lib.CString

/-!
# Strings with a length (`ds/buffer.c`)

`string_t` is a length and a block on the heap. `Holds s text` says that `s` is the text, with a
zero byte behind it.
-/

namespace Ccybe

open CSem

/-- `string_t`; `none` is the null pointer. -/
structure StringT where
  len : Int
  data : Option Block

namespace StringT

/-- The string that is returned where there is no memory. -/
def null : StringT := ⟨0, none⟩

/-- `new_string`. -/
def newString (str : Option Block) (mem : Bool) : Eval StringT :=
  match str with
  | none => pure null
  | some str => do
    let len ← strlen str
    let size ← add len 1
    match malloc size mem with
    | none => pure null
    | some data =>
      let data ← strncpy data 0 str len
      let data ← set data len 0
      pure ⟨len, some data⟩

/-- `new_n_string`. -/
def newNString (len : Int) (mem : Bool) : Eval StringT := do
  let size ← add len 1
  match malloc size mem with
  | none => pure null
  | some data =>
    let data ← set data len 0
    pure ⟨len, some data⟩

/-- `append_string`; `a` and `b` are the addresses of variables in all calls, and `b` is freed where
the result is true. -/
def appendString (a b : StringT) (mem : Bool) : Eval (Bool × StringT) :=
  match a.data, b.data with
  | some data, some src => do
    let len ← add a.len b.len
    let size ← add len 1
    match realloc data size mem with
    | none => pure (false, a)
    | some ptr =>
      let ptr ← strncpy ptr a.len src b.len.toNat
      let ptr ← set ptr len 0
      pure (true, ⟨len, some ptr⟩)
  | _, _ => pure (false, a)

/-- `append_string_cstr`; `a` is the address of a variable in all calls. -/
def appendStringCstr (a : StringT) (b : Option Block) (mem : Bool) : Eval (Bool × StringT) :=
  match a.data, b with
  | some data, some b => do
    let bLen ← strlen b
    let len ← add a.len bLen
    let size ← add len 1
    match realloc data size mem with
    | none => pure (false, a)
    | some ptr =>
      let ptr ← strncpy ptr a.len b bLen
      let ptr ← set ptr len 0
      pure (true, ⟨len, some ptr⟩)
  | _, _ => pure (false, a)

/-- `copy_string`; where there is no data, `memcpy` is called with a length of zero. -/
def copyString (str : StringT) (mem : Bool) : Eval StringT := do
  let newStr ← newNString str.len mem
  match newStr.data with
  | none => pure newStr
  | some data =>
    let data ← memcpy data 0 (str.data.getD []) str.len.toNat
    pure { newStr with data := some data }

/-- The bytes of a string that is not null. -/
def bytes (s : StringT) : Eval Bytes :=
  match s.data with
  | none => .error .null
  | some data => readBytes data s.len.toNat

/-! ### What the strings hold -/

/-- `s` holds `text`. -/
structure Holds (s : StringT) (text : Bytes) : Prop where
  len : s.len = text.length
  data : s.data = some (terminated text)

/-- `s` holds `text`, or there was no memory for it from the start and the text is empty. -/
def HoldsOrNull (s : StringT) (text : Bytes) : Prop := s.Holds text ∨ s = null ∧ text = []

/-- The string that holds `text`. -/
def of (text : Bytes) : StringT := ⟨text.length, some (terminated text)⟩

lemma holds_of (text : Bytes) : (of text).Holds text := ⟨rfl, rfl⟩

lemma Holds.eq_of {s : StringT} {text : Bytes} (h : s.Holds text) : s = of text := by
  obtain ⟨len, data⟩ := s
  obtain ⟨rfl, rfl⟩ : len = text.length ∧ data = some (terminated text) := ⟨h.len, h.data⟩
  rfl

lemma Holds.bytes_eq {s : StringT} {text : Bytes} (h : s.Holds text) : s.bytes = .ok text := by
  simp [bytes, h.len, h.data, terminated, readBytes_map]

/-- A text is written over the last cells of a block, then a zero byte. -/
lemma blit_set (u rest : Block) (text : Bytes) (h : rest.length = text.length + 1) :
    (do let d ← blit (u ++ rest) u.length (text.map some)
        set d ((u.length : Int) + text.length) (0 : UInt8)) =
      .ok (u ++ terminated text) := by
  obtain ⟨v, c, rfl⟩ : ∃ v c, rest = v ++ [c] :=
    ⟨rest.dropLast, rest.getLast (by rintro rfl; simp at h), (List.dropLast_concat_getLast _).symm⟩
  have hv : v.length = (text.map some).length := by simpa using h
  have hlen : (u ++ text.map some).length = u.length + text.length := by simp
  rw [← List.append_assoc, blit_append u v _ [c] hv, ok_bind, ← Nat.cast_add, ← hlen,
    set_natCast _ (by simp)]
  simp [terminated]

lemma newString_holds {bs : Bytes} {mem : Bool} {s : StringT}
    (h : newString (some (terminated bs)) mem = .ok s) : s = null ∨ s.Holds (cstr bs) := by
  simp only [newString, strlen_terminated, ok_bind] at h
  obtain ⟨size, hsize, h⟩ := bind_eq_ok.mp h
  obtain rfl := add_eq_ok hsize
  cases mem with
  | false =>
    cases h
    exact .inl rfl
  | true =>
    have hwrite := blit_set [] (List.replicate (((cstr bs).length : Int) + 1).toNat none) (cstr bs)
      (by rw [List.length_replicate]; omega)
    simp only [malloc, ok_bind, if_true, strncpy, strncpyBytes_terminated, List.length_nil,
      List.nil_append, Nat.cast_zero, zero_add] at h hwrite
    rw [← bind_assoc, hwrite] at h
    cases h
    exact .inr ⟨rfl, rfl⟩

/-- Behind a text that was moved to a larger block another one is written. -/
lemma realloc_write (text bs : Bytes) :
    ∃ ptr, realloc (terminated text) ((text.length : Int) + bs.length + 1) true = some ptr ∧
      (do let d ← blit ptr text.length (bs.map some)
          set d ((text.length : Int) + bs.length) (0 : UInt8)) = .ok (terminated (text ++ bs)) := by
  have hsize : ((text.length : Int) + bs.length + 1).toNat = text.length + bs.length + 1 := by omega
  have htake : (terminated text).take (text.length + bs.length + 1) = text.map some ++ [some 0] := by
    rw [List.take_of_length_le (by rw [length_terminated]; omega)]
    rfl
  have hwrite := blit_set (text.map some)
    (some 0 :: List.replicate (text.length + bs.length + 1 - (terminated text).length) none) bs
    (by simp)
  refine ⟨_, by rw [realloc, if_pos rfl], ?_⟩
  rw [hsize, htake, List.append_assoc]
  rw [List.length_map] at hwrite
  rw [List.cons_append, List.nil_append, hwrite]
  simp [terminated]

/-- Where there is memory the text of `b` is appended, else nothing changes. -/
lemma appendStringCstr_holds {a a' : StringT} {text bs : Bytes} {mem ok : Bool}
    (ha : a.Holds text) (h : a.appendStringCstr (some (terminated bs)) mem = .ok (ok, a')) :
    (ok = false ∧ a' = a) ∨ (ok = true ∧ a'.Holds (text ++ cstr bs)) := by
  simp only [appendStringCstr, ha.data, ha.len, strlen_terminated, ok_bind] at h
  obtain ⟨len, hlen, h⟩ := bind_eq_ok.mp h
  obtain rfl := add_eq_ok hlen
  obtain ⟨size, hsize, h⟩ := bind_eq_ok.mp h
  obtain rfl := add_eq_ok hsize
  cases mem with
  | false =>
    cases h
    exact .inl ⟨rfl, rfl⟩
  | true =>
    obtain ⟨ptr, hptr, hwrite⟩ := realloc_write text (cstr bs)
    simp only [hptr, strncpy, strncpyBytes_terminated, ok_bind] at h
    rw [← bind_assoc, hwrite] at h
    cases h
    exact .inr ⟨rfl, by simp, rfl⟩

/-! ### Where there is memory -/

lemma newString_eq {cells : Block} {text : Bytes} (h : HasString cells text)
    (hint : text.length + 1 ≤ 2147483647) :
    ∃ s, newString (some cells) true = .ok s ∧ s.Holds text := by
  have hsize : add (text.length : Int) 1 = .ok ((text.length : Int) + 1) :=
    add_ok (by omega) (by omega)
  have hwrite := blit_set [] (List.replicate ((text.length : Int) + 1).toNat none) text
    (by rw [List.length_replicate]; omega)
  simp only [List.length_nil, List.nil_append, Nat.cast_zero, zero_add] at hwrite
  refine ⟨⟨text.length, some (terminated text)⟩, ?_, rfl, rfl⟩
  simp only [newString, h.strlen_eq, ok_bind, hsize, malloc, if_true, strncpy, h.strncpyBytes_eq]
  rw [← bind_assoc, hwrite]
  rfl

lemma appendStringCstr_eq {a : StringT} {text : Bytes} (ha : a.Holds text) {cells : Block} {bs : Bytes}
    (h : HasString cells bs) (hint : text.length + bs.length + 1 ≤ 2147483647) :
    ∃ s, a.appendStringCstr (some cells) true = .ok (true, s) ∧ s.Holds (text ++ bs) := by
  have hlen : add (text.length : Int) bs.length = .ok ((text.length : Int) + bs.length) :=
    add_ok (by omega) (by omega)
  have hsize : add ((text.length : Int) + bs.length) 1 = .ok ((text.length : Int) + bs.length + 1) :=
    add_ok (by omega) (by omega)
  obtain ⟨ptr, hptr, hwrite⟩ := realloc_write text bs
  refine ⟨⟨(text.length : Int) + bs.length, some (terminated (text ++ bs))⟩, ?_, by simp, rfl⟩
  simp only [appendStringCstr, ha.data, ha.len, h.strlen_eq, ok_bind, hlen, hsize, hptr, strncpy,
    h.strncpyBytes_eq]
  rw [← bind_assoc, hwrite]
  rfl

/-- The lengths do not add up to an `int`. -/
lemma appendStringCstr_overflow {a : StringT} {text : Bytes} (ha : a.Holds text) {cells : Block}
    {bs : Bytes} (h : HasString cells bs) (hint : 2147483647 < text.length + bs.length + 1) (mem : Bool) :
    a.appendStringCstr (some cells) mem = .error .overflow := by
  simp only [appendStringCstr, ha.data, ha.len, h.strlen_eq, ok_bind]
  rcases le_or_gt (text.length + bs.length) 2147483647 with hle | hgt
  · have hadd : add (text.length : Int) bs.length = .ok ((text.length : Int) + bs.length) :=
      add_ok (by omega) (by omega)
    rw [hadd, ok_bind, add_overflow (by omega), error_bind]
  · rw [add_overflow (by omega), error_bind]

/-- `b` is appended as far as it has no zero byte, if the sum of the lengths is an `int`. -/
lemma appendString_eq {a b : StringT} {text bs : Bytes} (ha : a.Holds text) {cells : Block}
    (hdata : b.data = some cells) (hlen : b.len = bs.length)
    (h : strncpyBytes cells bs.length = .ok bs) :
    (text.length + bs.length + 1 ≤ 2147483647 ∧
      ∃ s, a.appendString b true = .ok (true, s) ∧ s.Holds (text ++ bs)) ∨
    (2147483647 < text.length + bs.length + 1 ∧ a.appendString b true = .error .overflow) := by
  rcases le_or_gt (text.length + bs.length + 1) 2147483647 with hle | hgt
  · have hadd : add (text.length : Int) bs.length = .ok ((text.length : Int) + bs.length) :=
      add_ok (by omega) (by omega)
    have hsize : add ((text.length : Int) + bs.length) 1 =
        .ok ((text.length : Int) + bs.length + 1) := add_ok (by omega) (by omega)
    obtain ⟨ptr, hptr, hwrite⟩ := realloc_write text bs
    refine .inl ⟨hle, ⟨(text.length : Int) + bs.length, some (terminated (text ++ bs))⟩, ?_, by simp, rfl⟩
    simp only [appendString, ha.data, ha.len, hdata, hlen, ok_bind, hadd, hsize, hptr, strncpy,
      Int.toNat_natCast, h]
    rw [← bind_assoc, hwrite]
    rfl
  · refine .inr ⟨hgt, ?_⟩
    simp only [appendString, ha.data, ha.len, hdata, hlen]
    rcases le_or_gt (text.length + bs.length) 2147483647 with hle' | hgt'
    · have hadd : add (text.length : Int) bs.length = .ok ((text.length : Int) + bs.length) :=
        add_ok (by omega) (by omega)
      rw [hadd, ok_bind, add_overflow (by omega), error_bind]
    · rw [add_overflow (by omega), error_bind]

lemma newNString_eq {n : ℕ} (hint : n + 1 ≤ 2147483647) :
    newNString n true = .ok ⟨n, some (List.replicate n none ++ [some 0])⟩ := by
  have hsize : add (n : Int) 1 = .ok ((n : Int) + 1) := add_ok (by omega) (by omega)
  have hset : set (List.replicate ((n : Int) + 1).toNat none) (n : Int) (0 : UInt8) =
      .ok (List.replicate n none ++ [some 0]) := by
    have hrep : ((n : Int) + 1).toNat = n + 1 := by omega
    rw [hrep, set_natCast _ (by simp), List.replicate_succ']
    simp
  simp only [newNString, hsize, ok_bind, malloc, if_true, hset]
  rfl

/-- The copy has the cells of the string, whatever they hold. -/
lemma copyString_eq {s : StringT} {n : ℕ} (hlen : s.len = n) (hcells : n ≤ (s.data.getD []).length)
    (hint : n + 1 ≤ 2147483647) :
    s.copyString true = .ok ⟨n, some ((s.data.getD []).take n ++ [some 0])⟩ := by
  have hcopy : memcpy (List.replicate n none ++ [some 0]) 0 (s.data.getD []) n =
      .ok ((s.data.getD []).take n ++ [some 0]) := by
    have hblit := blit_append [] (List.replicate n none) ((s.data.getD []).take n) [some 0]
      (by simpa using hcells)
    rw [memcpy, if_pos hcells]
    simpa using hblit
  simp only [copyString, hlen, newNString_eq hint, ok_bind, Int.toNat_natCast, hcopy]
  rfl

/-- The string begins with `text`; what is behind its length does not matter. -/
def Begins (s : StringT) (text : Bytes) : Prop :=
  s.len = text.length ∧ ∃ rest, s.data.getD [] = text.map some ++ rest

lemma Holds.begins {s : StringT} {text : Bytes} (h : s.Holds text) : s.Begins text :=
  ⟨h.len, [some 0], by rw [h.data]; rfl⟩

lemma Begins.copyString_eq {s : StringT} {text : Bytes} (h : s.Begins text)
    (hint : text.length + 1 ≤ 2147483647) : ∃ s', s.copyString true = .ok s' ∧ s'.Holds text := by
  obtain ⟨hlen, rest, hdata⟩ := h
  refine ⟨_, StringT.copyString_eq hlen (by simp [hdata]) hint, rfl, ?_⟩
  simp [hdata, terminated]

/-- What was appended to, when there was no memory from the start, stays null. -/
lemma appendStringCstr_null (b : Option Block) (mem : Bool) :
    null.appendStringCstr b mem = .ok (false, null) := by
  cases b <;> rfl

lemma copyString_data {s s' : StringT} (h : s.copyString true = .ok s') : s'.data ≠ none := by
  obtain ⟨copy, hcopy, h⟩ := bind_eq_ok.mp h
  obtain ⟨size, -, hcopy⟩ := bind_eq_ok.mp hcopy
  obtain ⟨data, -, hcopy⟩ := bind_eq_ok.mp hcopy
  cases hcopy
  obtain ⟨data', -, h⟩ := bind_eq_ok.mp h
  cases h
  exact Option.some_ne_none data'

/-- The copy of a string holds the same text. -/
lemma copyString_holds {s s' : StringT} {text : Bytes} {mem : Bool} (hs : s.HoldsOrNull text)
    (h : s.copyString mem = .ok s') (hdata : s'.data ≠ none) : s'.Holds text := by
  have hlen : s.len = text.length := by
    rcases hs with hs | ⟨rfl, rfl⟩
    · exact hs.len
    · rfl
  obtain ⟨rest, hsrc⟩ : ∃ rest, s.data.getD [] = text.map some ++ rest := by
    rcases hs with hs | ⟨rfl, rfl⟩
    · exact ⟨[some 0], by rw [hs.data]; rfl⟩
    · exact ⟨[], rfl⟩
  rcases le_or_gt (text.length + 1) 2147483647 with hle | hgt
  · cases mem with
    | false =>
      have hsize : add (text.length : Int) 1 = .ok ((text.length : Int) + 1) :=
        add_ok (by omega) (by omega)
      simp only [copyString, newNString, hlen, hsize, malloc, ok_bind, Bool.false_eq_true, if_false,
        pure_eq_ok] at h
      cases h
      exact absurd rfl hdata
    | true =>
      rw [copyString_eq hlen (by simp [hsrc]) hle, hsrc] at h
      cases h
      exact ⟨rfl, by simp [terminated]⟩
  · rw [copyString, newNString, hlen, add_overflow (by omega)] at h
    cases h

/-! ### With and without memory -/

lemma newString_if {cells : Block} {text : Bytes} (h : HasString cells text)
    (hint : text.length + 1 ≤ 2147483647) (mem : Bool) :
    newString (some cells) mem = .ok (if mem then of text else null) := by
  cases mem with
  | true =>
    obtain ⟨s, hok, hs⟩ := newString_eq h hint
    rw [hok, hs.eq_of, if_pos rfl]
  | false =>
    have hsize : add (text.length : Int) 1 = .ok ((text.length : Int) + 1) :=
      add_ok (by omega) (by omega)
    rw [newString, h.strlen_eq, ok_bind, hsize]
    rfl

lemma appendStringCstr_if (text : Bytes) {cells : Block} {bs : Bytes} (h : HasString cells bs)
    (hint : text.length + bs.length + 1 ≤ 2147483647) (mem : Bool) :
    (of text).appendStringCstr (some cells) mem =
      .ok (mem, if mem then of (text ++ bs) else of text) := by
  cases mem with
  | true =>
    obtain ⟨s, hok, hs⟩ := appendStringCstr_eq (holds_of text) h hint
    rw [hok, hs.eq_of, if_pos rfl]
  | false =>
    have hlen : add (text.length : Int) bs.length = .ok ((text.length : Int) + bs.length) :=
      add_ok (by omega) (by omega)
    have hsize : add ((text.length : Int) + bs.length) 1 = .ok ((text.length : Int) + bs.length + 1) :=
      add_ok (by omega) (by omega)
    simp only [appendStringCstr, of, h.strlen_eq, ok_bind, hlen, hsize]
    rfl

lemma appendString_if (text : Bytes) {bs : Bytes} (hbs : (0 : UInt8) ∉ bs)
    (hint : text.length + bs.length + 1 ≤ 2147483647) (mem : Bool) :
    (of text).appendString (of bs) mem = .ok (mem, if mem then of (text ++ bs) else of text) := by
  cases mem with
  | true =>
    have hb := holds_of bs
    rcases appendString_eq (holds_of text) hb.data hb.len (hasString_terminated hbs).strncpyBytes_eq with
      ⟨-, s, hok, hs⟩ | ⟨hgt, -⟩
    · rw [hok, hs.eq_of, if_pos rfl]
    · omega
  | false =>
    have hlen : add (text.length : Int) bs.length = .ok ((text.length : Int) + bs.length) :=
      add_ok (by omega) (by omega)
    have hsize : add ((text.length : Int) + bs.length) 1 = .ok ((text.length : Int) + bs.length + 1) :=
      add_ok (by omega) (by omega)
    simp only [appendString, of, ok_bind, hlen, hsize]
    rfl

lemma Begins.copyString_if {s : StringT} {text : Bytes} (h : s.Begins text)
    (hint : text.length + 1 ≤ 2147483647) (mem : Bool) :
    s.copyString mem = .ok (if mem then of text else null) := by
  cases mem with
  | true =>
    obtain ⟨s', hok, hs'⟩ := h.copyString_eq hint
    rw [hok, hs'.eq_of, if_pos rfl]
  | false =>
    have hsize : add (text.length : Int) 1 = .ok ((text.length : Int) + 1) :=
      add_ok (by omega) (by omega)
    rw [copyString, newNString, h.1, hsize]
    rfl

lemma HoldsOrNull.begins {s : StringT} {text : Bytes} (h : s.HoldsOrNull text) : s.Begins text := by
  rcases h with h | ⟨rfl, rfl⟩
  · exact h.begins
  · exact ⟨rfl, [], rfl⟩

/-- A string of that length, which is null where there is no memory; no block has a negative length. -/
lemma newNString_cases {len : Int} (hlow : -2147483648 ≤ len) (hint : len + 1 ≤ 2147483647) (mem : Bool) :
    (∃ (l : ℕ) (s : StringT), (if mem then len = l else l = 0) ∧ newNString len mem = .ok s ∧ s.len = l ∧
      l ≤ (s.data.getD []).length ∧ l + 1 ≤ 2147483647) ∨
    (mem = true ∧ len < 0 ∧ newNString len mem = .error .bounds) := by
  have hsize : add len 1 = .ok (len + 1) := add_ok (by omega) hint
  cases mem with
  | false =>
    refine .inl ⟨0, null, by simp, ?_, rfl, Nat.zero_le _, by decide⟩
    rw [newNString, hsize]
    rfl
  | true =>
    rcases le_or_gt 0 len with hpos | hneg
    · lift len to ℕ using hpos
      exact .inl ⟨len, _, rfl, newNString_eq (by omega), rfl, by simp, by omega⟩
    · have hset : set (List.replicate (len + 1).toNat none) len (0 : UInt8) = .error .bounds :=
        if_neg (by omega)
      refine .inr ⟨rfl, hneg, ?_⟩
      simp only [newNString, hsize, ok_bind, malloc, if_true, hset, error_bind]

lemma holdsOrNull_if (text : Bytes) (mem : Bool) :
    ∃ bs, (if mem then of text else null).HoldsOrNull bs ∧ bs.length ≤ text.length := by
  cases mem with
  | true => exact ⟨text, .inl (holds_of text), le_refl _⟩
  | false => exact ⟨[], .inr ⟨rfl, rfl⟩, Nat.zero_le _⟩

/-- Whether or not there is memory, what is there afterwards is not longer than both texts. -/
lemma HoldsOrNull.appendStringCstr {s : StringT} {text : Bytes} (hs : s.HoldsOrNull text) {cells : Block}
    {bs : Bytes} (h : HasString cells bs) (hint : text.length + bs.length + 1 ≤ 2147483647) (mem : Bool) :
    ∃ ok s' text', s.appendStringCstr (some cells) mem = .ok (ok, s') ∧ s'.HoldsOrNull text' ∧
      text'.length ≤ text.length + bs.length := by
  rcases hs with hs | ⟨rfl, rfl⟩
  · rw [hs.eq_of, appendStringCstr_if text h hint mem]
    cases mem with
    | true => exact ⟨_, _, text ++ bs, rfl, .inl (holds_of _), by rw [List.length_append]⟩
    | false => exact ⟨_, _, text, rfl, .inl (holds_of _), by omega⟩
  · exact ⟨_, _, [], appendStringCstr_null _ mem, .inr ⟨rfl, rfl⟩, Nat.zero_le _⟩

end StringT

end Ccybe
