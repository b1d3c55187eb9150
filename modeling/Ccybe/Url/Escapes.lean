import Ccybe.Url.Decoder

/-!
# Escapes

`decode` is what the table of the decoder makes of a text in which each `%` begins an escape.
-/

namespace Ccybe

open CSem

/-- The character that `%ab` stands for, if the table has it. -/
def escaped (a b : UInt8) : Option UInt8 :=
  let x := if a = chr '2' then get2Char b else if a = chr '3' then get3Char b else 0
  if x = 0 then none else some x

/-- What a text decodes to, `none` if a `%` in it begins no escape. -/
def decode : Bytes → Option Bytes
  | c :: a :: b :: url =>
    if c = chr '%' then (escaped a b).bind fun x => (decode url).map (x :: ·)
    else (decode (a :: b :: url)).map (c :: ·)
  | url => if chr '%' ∈ url then none else some url

/-- The text behind a `%` completes an escape. -/
def Completes : Bytes → Prop
  | a :: b :: _ => (escaped a b).isSome
  | _ => False

/-- Each `%` begins an escape of the table. -/
def WellEscaped (url : Bytes) : Prop := ∀ u v, url = u ++ chr '%' :: v → Completes v

lemma escaped_ne {a b x : UInt8} (h : escaped a b = some x) : a ≠ chr '%' ∧ b ≠ chr '%' := by
  constructor
  · rintro rfl
    simp [escaped, chr] at h
  · rintro rfl
    have h₂ : get2Char (chr '%') = 0 := by decide
    have h₃ : get3Char (chr '%') = 0 := by decide
    simp [escaped, h₂, h₃] at h

lemma decode_nil : decode [] = some [] := rfl

lemma decode_singleton (c : UInt8) : decode [c] = if chr '%' ∈ [c] then none else some [c] := rfl

lemma decode_pair (c a : UInt8) :
    decode [c, a] = if chr '%' ∈ [c, a] then none else some [c, a] := rfl

lemma decode_cons_cons (c a b : UInt8) (url : Bytes) :
    decode (c :: a :: b :: url) =
      if c = chr '%' then (escaped a b).bind fun x => (decode url).map (x :: ·)
      else (decode (a :: b :: url)).map (c :: ·) := rfl

lemma decode_cons {c : UInt8} (hc : c ≠ chr '%') (url : Bytes) :
    decode (c :: url) = (decode url).map (c :: ·) := by
  match url with
  | [] => simp [decode_nil, decode_singleton, hc.symm]
  | [a] => by_cases ha : chr '%' = a <;> simp [decode_singleton, decode_pair, hc.symm, ha]
  | a :: b :: url => rw [decode_cons_cons, if_neg hc]

lemma decode_escape {a b x : UInt8} (h : escaped a b = some x) (url : Bytes) :
    decode (chr '%' :: a :: b :: url) = (decode url).map (x :: ·) := by
  rw [decode_cons_cons, if_pos rfl, h, Option.bind_some]

/-- A `%` that begins no escape. -/
lemma decode_pct {url : Bytes} (h : ¬ Completes url) : decode (chr '%' :: url) = none := by
  match url with
  | [] => exact if_pos (List.mem_cons_self)
  | [a] => exact if_pos (List.mem_cons_self)
  | a :: b :: url =>
    have hnone : escaped a b = none := Option.not_isSome_iff_eq_none.mp h
    rw [decode_cons_cons, if_pos rfl, hnone, Option.bind_none]

lemma decode_of_notMem {url : Bytes} (h : chr '%' ∉ url) : decode url = some url := by
  induction url with
  | nil => exact decode_nil
  | cons c url ih =>
    rw [List.mem_cons, not_or] at h
    rw [decode_cons (Ne.symm h.1), ih h.2]
    rfl

/-- An induction along the escapes. -/
lemma escape_induction {P : Bytes → Prop} (nil : P [])
    (char : ∀ c url, c ≠ chr '%' → P url → P (c :: url))
    (escape : ∀ a b x url, escaped a b = some x → P url → P (chr '%' :: a :: b :: url))
    (pct : ∀ url, ¬ Completes url → P (chr '%' :: url)) (url : Bytes) : P url := by
  induction hn : url.length using Nat.strong_induction_on generalizing url with
  | _ n ih =>
    subst hn
    match url with
    | [] => exact nil
    | c :: url =>
      by_cases hc : c = chr '%'
      · subst hc
        match url with
        | [] => exact pct [] (fun h => h)
        | [a] => exact pct [a] (fun h => h)
        | a :: b :: url =>
          cases hx : escaped a b with
          | none => exact pct _ (by simp [Completes, hx])
          | some x =>
            refine escape a b x url hx (ih url.length ?_ url rfl)
            simp only [List.length_cons]
            omega
      · exact char c url hc (ih url.length (by simp) url rfl)

/-- A text is decodable if and only if it is well escaped. -/
lemma decode_isSome (url : Bytes) : (decode url).isSome ↔ WellEscaped url := by
  induction url using escape_induction with
  | nil => simp [decode_nil, WellEscaped]
  | char c url hc ih =>
    rw [decode_cons hc, Option.isSome_map, ih]
    constructor
    · intro h u v huv
      cases u with
      | nil =>
        cases huv
        exact absurd rfl hc
      | cons e u =>
        cases huv
        exact h u v rfl
    · rintro h u v rfl
      exact h (c :: u) v rfl
  | escape a b x url hx ih =>
    rw [decode_escape hx, Option.isSome_map, ih]
    obtain ⟨ha, hb⟩ := escaped_ne hx
    constructor
    · intro h u v huv
      match u with
      | [] =>
        cases huv
        simp [Completes, hx]
      | [e] =>
        cases huv
        exact absurd rfl ha
      | [e, f] =>
        cases huv
        exact absurd rfl hb
      | e :: f :: g :: u =>
        cases huv
        exact h u v rfl
    · rintro h u v rfl
      exact h (chr '%' :: a :: b :: u) v rfl
  | pct url hurl =>
    rw [decode_pct hurl]
    exact iff_of_false (by simp) fun h => hurl (h [] url rfl)

lemma decode_append {u d : Bytes} (hu : decode u = some d) (w : Bytes) :
    decode (u ++ w) = (decode w).map (d ++ ·) := by
  induction u using escape_induction generalizing d with
  | nil =>
    rw [decode_nil] at hu
    cases hu
    simp
  | char c url hc ih =>
    rw [decode_cons hc, Option.map_eq_some_iff] at hu
    obtain ⟨d, hd, rfl⟩ := hu
    rw [List.cons_append, decode_cons hc, ih hd, Option.map_map]
    rfl
  | escape a b x url hx ih =>
    rw [decode_escape hx, Option.map_eq_some_iff] at hu
    obtain ⟨d, hd, rfl⟩ := hu
    simp only [List.cons_append]
    rw [decode_escape hx, ih hd, Option.map_map]
    rfl
  | pct url hurl =>
    rw [decode_pct hurl] at hu
    cases hu

/-- An escape has three characters. -/
lemma length_decode {url d : Bytes} (h : decode url = some d) : url.length ≤ 3 * d.length := by
  induction url using escape_induction generalizing d with
  | nil => simp
  | char c url hc ih =>
    rw [decode_cons hc, Option.map_eq_some_iff] at h
    obtain ⟨d, hd, rfl⟩ := h
    have := ih hd
    simp only [List.length_cons]
    omega
  | escape a b x url hx ih =>
    rw [decode_escape hx, Option.map_eq_some_iff] at h
    obtain ⟨d, hd, rfl⟩ := h
    have := ih hd
    simp only [List.length_cons]
    omega
  | pct url hurl =>
    rw [decode_pct hurl] at h
    cases h

lemma length_decode_le {url d : Bytes} (h : decode url = some d) : d.length ≤ url.length := by
  induction url using escape_induction generalizing d with
  | nil =>
    rw [decode_nil] at h
    cases h
    exact le_refl _
  | char c url hc ih =>
    rw [decode_cons hc, Option.map_eq_some_iff] at h
    obtain ⟨d, hd, rfl⟩ := h
    exact Nat.succ_le_succ (ih hd)
  | escape a b x url hx ih =>
    rw [decode_escape hx, Option.map_eq_some_iff] at h
    obtain ⟨d, hd, rfl⟩ := h
    have := ih hd
    simp only [List.length_cons]
    omega
  | pct url hurl =>
    rw [decode_pct hurl] at h
    cases h

/-- A text that begins with an escape becomes shorter. -/
lemma length_decode_pct {url d : Bytes} (h : decode (chr '%' :: url) = some d) :
    d.length < url.length := by
  by_cases hurl : Completes url
  · match url, hurl with
    | a :: b :: url, hurl =>
      obtain ⟨x, hx⟩ := Option.isSome_iff_exists.mp hurl
      rw [decode_escape hx, Option.map_eq_some_iff] at h
      obtain ⟨d, hd, rfl⟩ := h
      have := length_decode_le hd
      simp only [List.length_cons]
      omega
  · rw [decode_pct hurl] at h
    cases h

lemma escaped_ne_zero {a b x : UInt8} (h : escaped a b = some x) : x ≠ 0 := by
  rintro rfl
  simp only [escaped] at h
  split_ifs at h with h₀ <;> simp_all

/-- A character that no escape stands for does not come from decoding. -/
lemma notMem_decode {c : UInt8} (hc : ∀ a b, escaped a b ≠ some c) {url d : Bytes} (hurl : c ∉ url)
    (h : decode url = some d) : c ∉ d := by
  induction url using escape_induction generalizing d with
  | nil =>
    rw [decode_nil] at h
    cases h
    exact List.not_mem_nil
  | char e url he ih =>
    rw [decode_cons he, Option.map_eq_some_iff] at h
    obtain ⟨d, hd, rfl⟩ := h
    rw [List.mem_cons, not_or] at hurl ⊢
    exact ⟨hurl.1, ih hurl.2 hd⟩
  | escape a b x url hx ih =>
    rw [decode_escape hx, Option.map_eq_some_iff] at h
    obtain ⟨d, hd, rfl⟩ := h
    simp only [List.mem_cons, not_or] at hurl ⊢
    refine ⟨?_, ih hurl.2.2.2 hd⟩
    rintro rfl
    exact hc a b hx
  | pct url hbad =>
    rw [decode_pct hbad] at h
    cases h

lemma zero_notMem_decode {url d : Bytes} (hnul : (0 : UInt8) ∉ url) (h : decode url = some d) :
    (0 : UInt8) ∉ d :=
  notMem_decode (fun _ _ hx => escaped_ne_zero hx rfl) hnul h

end Ccybe
