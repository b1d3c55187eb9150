import Ccybe.Url.Passes

/-!
# What `decode_url` accepts

The loop of `decode_url` does what the grammar of escapes says, except at the end: the look-ahead
asks for one character more than an escape has, so that a `%` among the last three characters is
copied.
-/

namespace Ccybe

open CSem Logged

/-! ### The loop and the grammar -/

/-- The loop: as `decode`, but the last three characters are copied where it meets them. -/
def decodeMost : Bytes → Option Bytes
  | c :: a :: b :: d :: url =>
    if c = chr '%' then (escaped a b).bind fun x => (decodeMost (d :: url)).map (x :: ·)
    else (decodeMost (a :: b :: d :: url)).map (c :: ·)
  | url => some url

def lastThree (url : Bytes) : Bytes := url.drop (url.length - 3)

/-- The loop stops only at a `%` that begins no escape and has three characters behind it. -/
lemma decodeMost_none {url : Bytes} (h : decodeMost url = none) :
    ∃ u a b v, url = u ++ chr '%' :: a :: b :: v ∧ v ≠ [] ∧ escaped a b = none := by
  induction url using decodeMost.induct with
  | case1 a b d url ih =>
    cases hx : escaped a b with
    | none => exact ⟨[], a, b, d :: url, rfl, List.cons_ne_nil _ _, hx⟩
    | some x =>
      obtain ⟨u, a', b', v, huv, hv⟩ := ih (by simpa [decodeMost, hx] using h)
      exact ⟨chr '%' :: a :: b :: u, a', b', v, by rw [huv]; rfl, hv⟩
  | case2 c a b d url hc ih =>
    obtain ⟨u, a', b', v, huv, hv⟩ := ih (by simpa [decodeMost, hc] using h)
    exact ⟨c :: u, a', b', v, by rw [huv]; rfl, hv⟩
  | case3 url hurl => simp [decodeMost] at h

lemma length_of_short {url : Bytes}
    (h : ∀ c a b d rest, url = c :: a :: b :: d :: rest → False) : url.length ≤ 3 := by
  match url with
  | [] | [_] | [_, _] | [_, _, _] => simp
  | c :: a :: b :: d :: url => exact (h c a b d url rfl).elim

/-- Otherwise it decodes what is before the first `%` that it copies. -/
lemma decodeMost_some {url t : Bytes} (h : decodeMost url = some t) :
    ∃ u v d, url = u ++ v ∧ t = d ++ v ∧ decode u = some d ∧ v.length ≤ 3 ∧
      (v = [] ∧ chr '%' ∉ lastThree url ∨ ∃ w, v = chr '%' :: w) := by
  induction url using decodeMost.induct generalizing t with
  | case1 a b d url ih =>
    simp only [decodeMost, if_true, Option.bind_eq_some_iff, Option.map_eq_some_iff] at h
    obtain ⟨x, hx, t, ht, rfl⟩ := h
    obtain ⟨u, v, e, huv, rfl, hu, hv, hcopied⟩ := ih ht
    refine ⟨chr '%' :: a :: b :: u, v, x :: e, by rw [huv]; rfl, rfl, by rw [decode_escape hx, hu]; rfl,
      hv, ?_⟩
    rcases hcopied with ⟨hnil, hlast⟩ | hcopied
    · refine .inl ⟨hnil, ?_⟩
      obtain ⟨ha, hb⟩ := escaped_ne hx
      match url with
      | [] => simp_all [lastThree, eq_comm]
      | [e] => simp_all [lastThree, eq_comm]
      | e :: f :: url => simpa [lastThree] using hlast
    · exact .inr hcopied
  | case2 c a b d url hc ih =>
    simp only [decodeMost, hc, if_false, Option.map_eq_some_iff] at h
    obtain ⟨t, ht, rfl⟩ := h
    obtain ⟨u, v, e, huv, rfl, hu, hv, hcopied⟩ := ih ht
    refine ⟨c :: u, v, c :: e, by rw [huv]; rfl, rfl, by rw [decode_cons hc, hu]; rfl, hv, ?_⟩
    rcases hcopied with ⟨hnil, hlast⟩ | hcopied
    · exact .inl ⟨hnil, by simpa [lastThree] using hlast⟩
    · exact .inr hcopied
  | case3 url hurl =>
    have hlen := length_of_short hurl
    have ht : t = url := by simpa [decodeMost, eq_comm] using h
    subst ht
    by_cases hpct : chr '%' ∈ t
    · obtain ⟨u, w, rfl, hu⟩ := List.eq_append_cons_of_mem hpct
      refine ⟨u, chr '%' :: w, u, rfl, rfl, decode_of_notMem hu, ?_, .inr ⟨w, rfl⟩⟩
      rw [List.length_append] at hlen
      omega
    · refine ⟨t, [], t, by simp, by simp, decode_of_notMem hpct, by simp, .inl ⟨rfl, ?_⟩⟩
      exact fun hmem => hpct (List.mem_of_mem_drop hmem)

/-- A `%` that begins no escape and has three characters behind it is met before the end. -/
lemma decodeMost_eq_none {u v : Bytes} {a b : UInt8} (hv : v ≠ []) (h : escaped a b = none) :
    decodeMost (u ++ chr '%' :: a :: b :: v) = none := by
  by_contra hne
  obtain ⟨t, ht⟩ := Option.ne_none_iff_exists'.mp hne
  obtain ⟨u', v', d, hsplit, -, hu', hv', -⟩ := decodeMost_some ht
  have hlong : 4 ≤ (chr '%' :: a :: b :: v).length := by
    have := List.length_pos_iff.mpr hv
    simp only [List.length_cons]
    omega
  rcases List.append_eq_append_iff.mp hsplit with ⟨w, rfl, hw⟩ | ⟨w, rfl, rfl⟩
  · -- the `%` is in the part that is decoded
    have hescaped := (decode_isSome _).mp (Option.isSome_of_mem hu')
    match w with
    | [] =>
      rw [List.nil_append] at hw
      rw [← hw] at hv'
      omega
    | e :: w =>
      rw [List.cons_append] at hw
      obtain ⟨rfl, hw⟩ := List.cons_eq_cons.mp hw
      have hcompletes := hescaped u w rfl
      match w with
      | [] | [_] => exact hcompletes
      | a' :: b' :: w =>
        cases hw
        simp [Completes, h] at hcompletes
  · rw [List.length_append] at hv'
    omega

/-! ### What the loop does -/

/-- The state of the loop between two passes: `done` is behind it and `url` before it, `out` is
written. -/
def decodeHere (done url : Bytes) (more : Block) (passes : ℕ) (out : Bytes) (room : Block) :
    Eval (Int × Block) :=
  decodeFrom ((done ++ url).map some ++ more) (done ++ url).length passes done.length out.length
    (out.map some ++ room)

section Passes

variable {done url : Bytes} {more : Block} {out : Bytes}

lemma value_loggedHere (passes : ℕ) (room : Block) :
    (loggedHere done url more passes out room).value = decodeHere done url more passes out room :=
  value_decodeLogged _ _ _ _ _ _

lemma decodeHere_nil (passes : ℕ) (cell : Option UInt8) (room : Block) :
    decodeHere done [] more passes out (cell :: room) = .ok (0, terminated out ++ room) := by
  rw [← value_loggedHere, loggedHere_nil, value_after, value_pure]

lemma decodeHere_copy {c : UInt8} (hc : c ≠ chr '%' ∨ url.length ≤ 2)
    (hn : (done ++ c :: url).length ≤ 2147483647) (hout : out.length ≤ done.length) (passes : ℕ)
    (cell : Option UInt8) (room : Block) :
    decodeHere done (c :: url) more (passes + 1) out (cell :: room) =
      decodeHere (done ++ [c]) url more passes (out ++ [c]) room := by
  rw [← value_loggedHere, loggedHere_copy hc hn hout, value_after, value_loggedHere]

lemma decodeHere_escape {a b d : UInt8} (hn : (done ++ chr '%' :: a :: b :: d :: url).length ≤ 2147483647)
    (hout : out.length ≤ done.length) (passes : ℕ) (cell : Option UInt8) (room : Block) :
    decodeHere done (chr '%' :: a :: b :: d :: url) more (passes + 1) out (cell :: room) =
      match escaped a b with
      | none => .ok (-1, out.map some ++ cell :: room)
      | some x => decodeHere (done ++ [chr '%', a, b]) (d :: url) more passes (out ++ [x]) room := by
  rw [← value_loggedHere, loggedHere_escape hn hout, value_after]
  cases escaped a b with
  | none => rw [value_pure]
  | some x => rw [value_after, value_loggedHere]

/-- A pass that copies is one of `decodeMost`. -/
lemma decodeMost_copy {c : UInt8} (hc : c ≠ chr '%' ∨ url.length ≤ 2) :
    decodeMost (c :: url) = (decodeMost url).map (c :: ·) := by
  match url with
  | [] | [_] | [_, _] => simp [decodeMost]
  | a :: b :: d :: url =>
    have hpct : c ≠ chr '%' := hc.resolve_right (by simp)
    rw [decodeMost, if_neg hpct]

/-- The loop computes `decodeMost`. -/
lemma decodeHere_eq (url done out : Bytes) (passes : ℕ) (room : Block)
    (hn : (done ++ url).length ≤ 2147483647) (hout : out.length ≤ done.length)
    (hp : url.length ≤ passes) (hroom : url.length < room.length) :
    (∀ t, decodeMost url = some t →
      ∃ rest, decodeHere done url more passes out room = .ok (0, terminated (out ++ t) ++ rest)) ∧
    (decodeMost url = none → ∃ buf, decodeHere done url more passes out room = .ok (-1, buf)) := by
  obtain ⟨cell, room, rfl⟩ := List.exists_cons_of_length_pos (Nat.zero_lt_of_lt hroom)
  induction url using pass_induction generalizing done out passes cell room with
  | nil =>
    rw [decodeHere_nil]
    simp [decodeMost]
  | copy c url hc ih =>
    simp only [List.length_cons] at hp hroom
    obtain ⟨passes, rfl⟩ := Nat.exists_eq_add_one_of_ne_zero (Nat.ne_zero_of_lt hp)
    obtain ⟨cell', room, rfl⟩ := List.exists_cons_of_length_pos (show 0 < room.length by omega)
    obtain ⟨hsome, hnone⟩ := ih (done ++ [c]) (out ++ [c]) passes (by simpa using hn)
      (by simpa using hout) (by omega) cell' room (by simpa using hroom)
    rw [decodeHere_copy hc hn hout, decodeMost_copy hc]
    constructor
    · intro t ht
      obtain ⟨t', ht', rfl⟩ := Option.map_eq_some_iff.mp ht
      simpa using hsome t' ht'
    · exact fun h => hnone (Option.map_eq_none_iff.mp h)
  | escape a b d x url hx ih =>
    simp only [List.length_cons] at hp hroom
    obtain ⟨passes, rfl⟩ := Nat.exists_eq_add_one_of_ne_zero (Nat.ne_zero_of_lt hp)
    obtain ⟨cell', room, rfl⟩ := List.exists_cons_of_length_pos (show 0 < room.length by omega)
    obtain ⟨hsome, hnone⟩ := ih (done ++ [chr '%', a, b]) (out ++ [x]) passes (by simpa using hn)
      (by simp only [List.length_append, List.length_cons]; omega)
      (by simp only [List.length_cons]; omega) cell' room
      (by simp only [List.length_cons] at hroom ⊢; omega)
    have hmost : decodeMost (chr '%' :: a :: b :: d :: url) = (decodeMost (d :: url)).map (x :: ·) := by
      rw [decodeMost, if_pos rfl, hx, Option.bind_some]
    rw [decodeHere_escape hn hout, hx, hmost]
    constructor
    · intro t ht
      obtain ⟨t', ht', rfl⟩ := Option.map_eq_some_iff.mp ht
      simpa using hsome t' ht'
    · exact fun h => hnone (Option.map_eq_none_iff.mp h)
  | refused a b d url hx =>
    simp only [List.length_cons] at hp
    obtain ⟨passes, rfl⟩ := Nat.exists_eq_add_one_of_ne_zero (Nat.ne_zero_of_lt hp)
    rw [decodeHere_escape hn hout]
    simp [decodeMost, hx]

end Passes

/-! ### The function -/

/-- The characters that `decode_url` looks at, which are all of them unless there are more than
an `int` can count. -/
def shown (url : Bytes) : Bytes := url.take (toInt url.length).toNat

lemma shown_eq {url : Bytes} (h : url.length ≤ 2147483647) : shown url = url := by
  rw [shown, toInt_eq (by omega) (by omega), Int.toNat_natCast, List.take_length]

lemma length_shown_le (url : Bytes) : ((shown url).length : Int) ≤ 2147483647 := by
  have := toInt_le url.length
  rw [shown, List.length_take]
  omega

lemma decodeFrom_of_nonpos {n : Int} (hn : n ≤ 0) (cells : Block) (passes : ℕ) (len : Int)
    (decUrl : Block) : decodeFrom cells n passes 0 len decUrl = decodeFrom cells 0 0 0 len decUrl := by
  have hlt : ¬ (0 < n) := not_lt.mpr hn
  cases passes <;> simp [decodeFrom, hlt]

/-- `decode_url` is the loop over these characters. -/
lemma decodeUrl_eq {cells : Block} {url : Bytes} (h : HasString cells url) (decUrl : Block) :
    ∃ more, decodeUrl cells decUrl = decodeHere [] (shown url) more url.length [] decUrl := by
  have hlen := h.strlen_eq
  obtain ⟨-, rest, rfl⟩ := h
  refine ⟨(url.drop (toInt url.length).toNat).map some ++ [some 0] ++ rest, ?_⟩
  have hcells : terminated url ++ rest = (shown url).map some ++
      ((url.drop (toInt url.length).toNat).map some ++ [some 0] ++ rest) := by
    rw [terminated, shown, ← List.append_assoc, ← List.append_assoc, ← List.map_append,
      List.take_append_drop]
  rw [decodeUrl, hlen, ok_bind, decodeHere, List.nil_append, ← hcells]
  rcases le_or_gt 0 (toInt url.length) with hpos | hneg
  · have hle := toInt_natCast_le url.length
    have hshown : ((shown url).length : Int) = toInt url.length := by
      rw [shown, List.length_take]
      omega
    rw [hshown]
    rfl
  · have hnil : shown url = [] := by
      rw [shown, Int.toNat_of_nonpos hneg.le, List.take_zero]
    rw [hnil, decodeFrom_of_nonpos hneg.le]
    exact (decodeFrom_of_nonpos (le_refl _) _ _ _ _).symm

/-- `decode_url` decodes what it looks at, or refuses. -/
lemma decodeUrl_spec {cells decUrl : Block} {url : Bytes} (h : HasString cells url)
    (hroom : url.length < decUrl.length) :
    (∀ t, decodeMost (shown url) = some t →
      ∃ rest, decodeUrl cells decUrl = .ok (0, terminated t ++ rest)) ∧
    (decodeMost (shown url) = none → ∃ buf, decodeUrl cells decUrl = .ok (-1, buf)) := by
  obtain ⟨more, heq⟩ := decodeUrl_eq h decUrl
  have hle : (shown url).length ≤ url.length := List.length_take_le' _ _
  have hint := length_shown_le url
  rw [heq]
  exact decodeHere_eq (shown url) [] [] url.length decUrl (by rw [List.nil_append]; omega)
    (le_refl _) hle (by omega)

/-! ### Where the function is right -/

/-- What `decode_url` should do with `url`. -/
def DecodesRight (url : Bytes) : Prop :=
  ∀ cells decUrl, HasString cells url → url.length < decUrl.length →
    ∃ r buf, decodeUrl cells decUrl = .ok (r, buf) ∧
      (r = 0 ↔ WellEscaped url) ∧ (r = 0 ∨ r = -1) ∧
      (r = 0 → ∃ text, decode url = some text ∧ HasString buf text)

/-- A `%` begins no escape of the table, and not among the last three of the characters that are
looked at. -/
def StopsEarly (url : Bytes) : Prop :=
  ∃ u a b v, shown url = u ++ chr '%' :: a :: b :: v ∧ v ≠ [] ∧ escaped a b = none

lemma decodeMost_of_notMem {url t : Bytes} (hlast : chr '%' ∉ lastThree url)
    (h : decodeMost url = some t) : decode url = some t := by
  obtain ⟨u, v, d, rfl, rfl, hu, hv, ⟨rfl, -⟩ | ⟨w, rfl⟩⟩ := decodeMost_some h
  · simpa using hu
  · refine absurd ?_ hlast
    rw [lastThree, List.drop_append, List.mem_append]
    right
    rw [show (u ++ chr '%' :: w).length - 3 - u.length = 0 by
      rw [List.length_append]
      omega]
    exact List.mem_cons_self

lemma zero_notMem_decodeMost {url t : Bytes} (hnul : (0 : UInt8) ∉ url)
    (h : decodeMost url = some t) : (0 : UInt8) ∉ t := by
  obtain ⟨u, v, d, rfl, rfl, hu, -, -⟩ := decodeMost_some h
  rw [List.mem_append, not_or] at hnul ⊢
  exact ⟨zero_notMem_decode hnul.1 hu, hnul.2⟩

lemma zero_notMem_shown {url : Bytes} (hnul : (0 : UInt8) ∉ url) : (0 : UInt8) ∉ shown url :=
  fun h => hnul (List.mem_of_mem_take h)

/-- What is not looked at is nothing, or very long. -/
lemma url_eq_shown (url : Bytes) :
    ∃ rest, url = shown url ++ rest ∧ (2147483647 < url.length → 2147483647 < rest.length) := by
  refine ⟨url.drop (toInt url.length).toNat, (List.take_append_drop _ url).symm, fun h => ?_⟩
  have := toInt_of_gt h
  rw [List.length_drop]
  omega

/-- Where the loop goes to its end, what it leaves unread or copies is not in the grammar. -/
lemma right_of_decodeMost {url t : Bytes} (ht : decodeMost (shown url) = some t)
    (h : decode url = some t) : url.length ≤ 2147483647 ∧ chr '%' ∉ lastThree url := by
  obtain ⟨rest, hurl, hlong⟩ := url_eq_shown url
  obtain ⟨u, v, d, hsplit, rfl, hu, hv, hcopied⟩ := decodeMost_some ht
  have hrest : decode (v ++ rest) = some v := by
    rw [hurl, hsplit, List.append_assoc, decode_append hu, Option.map_eq_some_iff] at h
    obtain ⟨e, he, heq⟩ := h
    rw [he, List.append_cancel_left heq]
  have hle := length_decode hrest
  rw [List.length_append] at hle
  have hint : url.length ≤ 2147483647 := by
    by_contra hgt
    have := hlong (by omega)
    omega
  have hnil : rest = [] := by
    rw [shown_eq hint] at hurl
    exact List.append_right_eq_self.mp hurl.symm
  rw [hnil, List.append_nil] at hrest
  refine ⟨hint, ?_⟩
  rcases hcopied with ⟨-, hlast⟩ | ⟨w, rfl⟩
  · rwa [shown_eq hint] at hlast
  · have := length_decode_pct hrest
    rw [List.length_cons] at this
    omega

/-- `decode_url` is right if and only if it stops at a `%` that begins no escape, or looks at all
characters and finds no `%` among the last three. -/
theorem decodes_right_iff {url : Bytes} (hnul : (0 : UInt8) ∉ url) :
    DecodesRight url ↔
      StopsEarly url ∨ url.length ≤ 2147483647 ∧ chr '%' ∉ lastThree url := by
  constructor
  · intro hright
    have hcells : HasString (terminated url) url := ⟨hnul, [], by simp⟩
    have hroom : url.length < (List.replicate (url.length + 1) none : Block).length := by simp
    obtain ⟨r, buf, hdecode, -, -, htext⟩ := hright _ _ hcells hroom
    obtain ⟨hsome, -⟩ := decodeUrl_spec hcells hroom
    cases ht : decodeMost (shown url) with
    | none => exact .inl (decodeMost_none ht)
    | some t =>
      obtain ⟨rest, heq⟩ := hsome t ht
      rw [heq] at hdecode
      cases hdecode
      obtain ⟨text, hdec, hbuf⟩ := htext rfl
      have hbuf' : HasString (terminated t ++ rest) t :=
        ⟨zero_notMem_decodeMost (zero_notMem_shown hnul) ht, rest, rfl⟩
      rw [hbuf.unique hbuf'] at hdec
      exact .inr (right_of_decodeMost ht hdec)
  · rintro h cells decUrl hcells hroom
    obtain ⟨hsome, hnone⟩ := decodeUrl_spec hcells hroom
    cases ht : decodeMost (shown url) with
    | none =>
      obtain ⟨buf, heq⟩ := hnone ht
      obtain ⟨u, a, b, v, hsplit, -, hbad⟩ := decodeMost_none ht
      obtain ⟨rest, hurl, -⟩ := url_eq_shown url
      refine ⟨-1, buf, heq, ⟨by simp, fun hescaped => ?_⟩, .inr rfl, by simp⟩
      have hcompletes := hescaped u (a :: b :: (v ++ rest)) (by rw [hurl, hsplit]; simp)
      simp [Completes, hbad] at hcompletes
    | some t =>
      obtain ⟨rest, heq⟩ := hsome t ht
      rcases h with ⟨u, a, b, v, hsplit, hv, hbad⟩ | ⟨hint, hlast⟩
      · rw [hsplit, decodeMost_eq_none hv hbad] at ht
        cases ht
      · rw [shown_eq hint] at ht
        have hdec := decodeMost_of_notMem hlast ht
        refine ⟨0, _, heq, ⟨fun _ => (decode_isSome url).mp (by rw [hdec]; rfl), fun _ => rfl⟩,
          .inl rfl, fun _ => ⟨t, hdec, zero_notMem_decode hnul hdec, rest, rfl⟩⟩

/-- A text with two escapes that are not at its end. -/
theorem decodes_right_iff_path : DecodesRight (ascii ['a', '%', '2', '0', 'b', '%', '2', 'F', 'c', 'd', 'e']) ↔
    StopsEarly (ascii ['a', '%', '2', '0', 'b', '%', '2', 'F', 'c', 'd', 'e']) ∨
      (ascii ['a', '%', '2', '0', 'b', '%', '2', 'F', 'c', 'd', 'e']).length ≤ 2147483647 ∧
        chr '%' ∉ lastThree (ascii ['a', '%', '2', '0', 'b', '%', '2', 'F', 'c', 'd', 'e']) :=
  decodes_right_iff (by decide)

/-- The escape at the end of `a%20` is copied. -/
theorem last_escape_copied :
    decodeUrl (terminated (ascii ['a', '%', '2', '0'])) (List.replicate 5 none) =
        .ok (0, terminated (ascii ['a', '%', '2', '0'])) ∧
      ¬ DecodesRight (ascii ['a', '%', '2', '0']) := by
  have hrun : decodeUrl (terminated (ascii ['a', '%', '2', '0'])) (List.replicate 5 none) =
      .ok (0, terminated (ascii ['a', '%', '2', '0'])) := by decide
  have hnul : (0 : UInt8) ∉ ascii ['a', '%', '2', '0'] := by decide
  refine ⟨hrun, fun hright => ?_⟩
  obtain ⟨r, buf, hdecode, -, -, htext⟩ := hright (terminated (ascii ['a', '%', '2', '0']))
    (List.replicate 5 none) ⟨hnul, [], by simp⟩ (by decide)
  rw [hrun] at hdecode
  cases hdecode
  obtain ⟨text, hdec, hbuf⟩ := htext rfl
  have hbuf' : HasString (terminated (ascii ['a', '%', '2', '0'])) (ascii ['a', '%', '2', '0']) :=
    ⟨hnul, [], by simp⟩
  rw [hbuf.unique hbuf'] at hdec
  revert hdec
  decide

end Ccybe
