import Ccybe.Url.Passes

/-!
# `decode_url` stays inside its arrays and takes the whole text

Each pass takes one character or the three of an escape, which are read once the pass knows that they
are there, and writes one character. What is written is therefore never longer than what was taken.
-/

namespace Ccybe

open CSem Logged

namespace DecodeEvent

/-- The positions that a pass takes from the input. -/
def taken : DecodeEvent → List Int
  | .copied i => [i]
  | .escape i => [i, i + 1, i + 2]
  | .read _ | .store _ => []

def isEscape : DecodeEvent → Bool
  | .escape _ => true
  | .copied _ | .read _ | .store _ => false

end DecodeEvent

/-! ### The rest of a run -/

/-- The events `es` of a run over `url`, which begins at the position `i`; `out` is written, and the
next character goes to `k`. -/
structure TakesRest (i k : ℕ) (url out : Bytes) (es : List DecodeEvent) (r : Int) (buf : Block) :
    Prop where
  reads : ∀ j, .read j ∈ es → (i : Int) ≤ j ∧ j < i + url.length
  stores : ∀ j, .store j ∈ es → (k : Int) ≤ j ∧ j ≤ k + url.length
  text : r = 0 → ∃ t rest, buf = terminated (out ++ t) ++ rest ∧ (0 : UInt8) ∉ t ∧
    t.length + 2 * es.countP DecodeEvent.isEscape = url.length
  taken : r = 0 → es.flatMap DecodeEvent.taken = (List.range' i url.length).map Nat.cast

/-- A pass that takes `w` characters and writes `x`. -/
lemma TakesRest.pass {i k w : ℕ} {url url' out : Bytes} {pre es : List DecodeEvent} {r : Int}
    {buf : Block} {x : UInt8} (h : TakesRest (i + w) (k + 1) url' (out ++ [x]) es r buf)
    (hlen : url.length = w + url'.length) (hx : x ≠ 0)
    (hreads : ∀ j, .read j ∈ pre → (i : Int) ≤ j ∧ j < i + w)
    (hstores : ∀ j : Int, .store j ∈ pre → j = k)
    (htaken : pre.flatMap DecodeEvent.taken = (List.range' i w).map Nat.cast)
    (hescapes : 1 + 2 * pre.countP DecodeEvent.isEscape = w) :
    TakesRest i k url out (pre ++ es) r buf where
  reads := fun j hj => by
    rcases List.mem_append.mp hj with hj | hj
    · have := hreads j hj
      omega
    · have := h.reads j hj
      omega
  stores := fun j hj => by
    rcases List.mem_append.mp hj with hj | hj
    · have := hstores j hj
      omega
    · have := h.stores j hj
      omega
  text := fun hr => by
    obtain ⟨t, rest, hbuf, hnul, ht⟩ := h.text hr
    refine ⟨x :: t, rest, by simpa using hbuf, ?_, ?_⟩
    · rw [List.mem_cons, not_or]
      exact ⟨hx.symm, hnul⟩
    · rw [List.length_cons, List.countP_append]
      omega
  taken := fun hr => by
    rw [List.flatMap_append, htaken, h.taken hr, hlen, ← List.range'_append_1, List.map_append]

/-- The loop comes to its end, or refuses. -/
lemma loggedHere_takes {url : Bytes} (hnul : (0 : UInt8) ∉ url) (more : Block) (done out : Bytes)
    (passes : ℕ) (room : Block) (hn : (done ++ url).length ≤ 2147483647)
    (hout : out.length ≤ done.length) (hp : url.length ≤ passes) (hroom : url.length < room.length) :
    ∃ es r buf, (loggedHere done url more passes out room).Does (r, buf) es ∧
      TakesRest done.length out.length url out es r buf := by
  obtain ⟨cell, room, rfl⟩ := List.exists_cons_of_length_pos (Nat.zero_lt_of_lt hroom)
  induction url using pass_induction generalizing done out passes cell room with
  | nil =>
    rw [loggedHere_nil]
    refine ⟨_, _, _, (does_pure _).after _, ?_, ?_, fun _ => ⟨[], room, by simp, by simp, rfl⟩,
      fun _ => rfl⟩
    · simp
    · simp
  | copy c url hc ih =>
    simp only [List.length_cons] at hp hroom
    rw [List.mem_cons, not_or] at hnul
    obtain ⟨passes, rfl⟩ := Nat.exists_eq_add_one_of_ne_zero (Nat.ne_zero_of_lt hp)
    obtain ⟨cell', room, rfl⟩ := List.exists_cons_of_length_pos (show 0 < room.length by omega)
    obtain ⟨es, r, buf, hdoes, htakes⟩ := ih hnul.2 (done ++ [c]) (out ++ [c]) passes
      (by simpa using hn) (by simpa using hout) (by omega) cell' room (by simpa using hroom)
    rw [loggedHere_copy hc hn hout]
    refine ⟨_, r, buf, hdoes.after _, ?_⟩
    rw [List.length_append, List.length_append, List.length_singleton] at htakes
    refine htakes.pass (by rw [List.length_cons, add_comm]) (Ne.symm hnul.1) ?_ ?_ ?_ rfl
    all_goals simp [DecodeEvent.taken]
  | escape a b d x url hx ih =>
    simp only [List.length_cons] at hp hroom
    simp only [List.mem_cons, not_or] at hnul
    obtain ⟨passes, rfl⟩ := Nat.exists_eq_add_one_of_ne_zero (Nat.ne_zero_of_lt hp)
    obtain ⟨cell', room, rfl⟩ := List.exists_cons_of_length_pos (show 0 < room.length by omega)
    obtain ⟨es, r, buf, hdoes, htakes⟩ := ih (by simpa using hnul.2.2.2)
      (done ++ [chr '%', a, b]) (out ++ [x]) passes (by simpa using hn)
      (by simp only [List.length_append, List.length_cons]; omega)
      (by simp only [List.length_cons]; omega) cell' room
      (by simp only [List.length_cons] at hroom ⊢; omega)
    rw [loggedHere_escape hn hout, hx]
    refine ⟨_, r, buf, (hdoes.after _).after _, ?_⟩
    rw [List.length_append, List.length_append] at htakes
    rw [← List.append_assoc]
    refine htakes.pass (w := 3) ?_ (escaped_ne_zero hx) ?_ ?_ ?_ rfl
    · simp only [List.length_cons]
      omega
    · simp
    · simp
    · simp [DecodeEvent.taken, List.range'_succ, add_assoc]
  | refused a b d url hx =>
    simp only [List.length_cons] at hp
    obtain ⟨passes, rfl⟩ := Nat.exists_eq_add_one_of_ne_zero (Nat.ne_zero_of_lt hp)
    rw [loggedHere_escape hn hout, hx]
    have hone : (-1 : Int) ≠ 0 := by decide
    refine ⟨_, _, _, (does_pure _).after _, ?_, ?_, fun h => absurd h hone, fun h => absurd h hone⟩
    · simp
      omega
    · simp

/-! ### The function -/

/-- `decode_url` stays inside arrays of `n` and of `n + 1` cells, where `n` is the length of `url`; and
where it returns zero, its text has no zero byte and is shorter by two for each escape, and each
position was taken once. -/
structure TakesWhole (url : Bytes) (es : List DecodeEvent) (r : Int) (buf : Block) : Prop where
  reads : ∀ i, .read i ∈ es → 0 ≤ i ∧ i < url.length
  stores : ∀ k, .store k ∈ es → 0 ≤ k ∧ k ≤ url.length
  text : r = 0 → ∃ text, HasString buf text ∧
    text.length + 2 * es.countP DecodeEvent.isEscape = url.length
  taken : r = 0 → es.flatMap DecodeEvent.taken = (List.range url.length).map Nat.cast

lemma TakesRest.whole {url : Bytes} {es : List DecodeEvent} {r : Int} {buf : Block}
    (h : TakesRest 0 0 url [] es r buf) : TakesWhole url es r buf where
  reads := fun i hi => by simpa using h.reads i hi
  stores := fun k hk => by simpa using h.stores k hk
  text := fun hr => by
    obtain ⟨t, rest, hbuf, hnul, ht⟩ := h.text hr
    exact ⟨t, ⟨hnul, rest, hbuf⟩, ht⟩
  taken := fun hr => by
    rw [List.range_eq_range']
    exact h.taken hr

/-- The text of a URL in an array with room for it is decoded in its bounds and as a whole. -/
theorem decodes_whole {url : Bytes} (hn : url.length < 2147483648) {cells decUrl : Block}
    (hcells : HasString cells url) (hroom : url.length < decUrl.length) :
    ∃ es r buf, (decodeUrlLogged cells decUrl).Does (r, buf) es ∧
      decodeUrl cells decUrl = .ok (r, buf) ∧ TakesWhole url es r buf := by
  have hlen := hcells.strlen_eq
  obtain ⟨hnul, rest, rfl⟩ := hcells
  obtain ⟨es, r, buf, hdoes, htakes⟩ :=
    loggedHere_takes hnul (some 0 :: rest) [] [] url.length decUrl (by rw [List.nil_append]; omega)
      (le_refl _) (le_refl _) hroom
  have hrun : decodeUrlLogged (terminated url ++ rest) decUrl =
      loggedHere [] url (some 0 :: rest) url.length [] decUrl := by
    rw [decodeUrlLogged, silent_bind hlen, toInt_eq (by omega) (by omega), loggedHere, terminated]
    simp
  rw [← hrun] at hdoes
  refine ⟨es, r, buf, hdoes, ?_, htakes.whole⟩
  rw [← value_decodeUrlLogged, hdoes.value_eq]

/-- `a%20b`, which has one escape, and not at its end. -/
theorem decodes_whole_space : ∃ es r buf,
    (decodeUrlLogged (terminated (ascii "a%20b".toList)) (List.replicate 6 none)).Does (r, buf) es ∧
      decodeUrl (terminated (ascii "a%20b".toList)) (List.replicate 6 none) = .ok (r, buf) ∧
      TakesWhole (ascii "a%20b".toList) es r buf :=
  decodes_whole (by decide) (hasString_terminated (by decide)) (by decide)

end Ccybe
