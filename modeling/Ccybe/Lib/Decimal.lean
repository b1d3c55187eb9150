import Ccybe.Lib.CString

/-!
# Decimal numerals

What `%d` prints, and the number that a text of digits stands for.
-/

namespace CSem

/-- The digits of a number. -/
def decimal (n : ℕ) : Bytes := ascii (Nat.toDigits 10 n)

/-- What `%d` prints. -/
def formatInt (x : Int) : Bytes :=
  if x < 0 then chr '-' :: decimal x.natAbs else decimal x.natAbs

/-- The value of a digit. -/
def digitValue (c : UInt8) : Option ℕ :=
  if chr '0' ≤ c ∧ c ≤ chr '9' then some (c.toNat - (chr '0').toNat) else none

/-- The number that a text of digits stands for. -/
def numeral (text : Bytes) : Option ℕ :=
  if text = [] then none
  else text.foldlM (fun v c => (digitValue c).map (10 * v + ·)) 0

lemma formatInt_natCast (n : ℕ) : formatInt n = decimal n := by
  rw [formatInt, if_neg (by omega), Int.natAbs_natCast]

lemma decimal_ne_nil (n : ℕ) : decimal n ≠ [] := by
  simp [decimal, ascii, Nat.toDigits_ne_nil]

/-- The numbers below `10 ^ k` are those of at most `k` digits. -/
lemma length_decimal_le_iff {n k : ℕ} (hk : 0 < k) : (decimal n).length ≤ k ↔ n < 10 ^ k := by
  rw [decimal, ascii, List.length_map]
  exact Nat.length_toDigits_le_iff (by decide) hk

lemma length_decimal_le {n k : ℕ} (hk : 0 < k) (h : n < 10 ^ k) : (decimal n).length ≤ k :=
  (length_decimal_le_iff hk).mpr h

lemma digitValue_chr {c : Char} (h : c.isDigit) :
    digitValue (chr c) = some (c.toNat - '0'.toNat) := by
  have hle : 48 ≤ c.toNat ∧ c.toNat ≤ 57 := by
    simpa [Char.isDigit, UInt32.le_iff_toNat_le] using h
  have htoNat : (chr c).toNat = c.toNat := by
    simp only [chr, Nat.toUInt8, UInt8.toNat_ofNat']
    omega
  have hlow : chr '0' ≤ chr c := by
    rw [UInt8.le_iff_toNat_le, htoNat]
    exact hle.1
  have hhigh : chr c ≤ chr '9' := by
    rw [UInt8.le_iff_toNat_le, htoNat]
    exact hle.2
  rw [digitValue, if_pos ⟨hlow, hhigh⟩, htoNat]
  rfl

/-- A numeral stands for the number whose digits it has. -/
lemma numeral_decimal (n : ℕ) : numeral (decimal n) = some n := by
  have hfold : ∀ (l : List Char) (v : ℕ), (∀ c ∈ l, c.isDigit) →
      (ascii l).foldlM (fun v c => (digitValue c).map (10 * v + ·)) v =
        some (Nat.ofDigitChars 10 l v) := by
    intro l
    induction l with
    | nil => exact fun v _ => by simp [ascii, Nat.ofDigitChars_nil]
    | cons c l ih =>
      intro v hl
      rw [List.forall_mem_cons] at hl
      rw [ascii, List.map_cons, List.foldlM_cons, digitValue_chr hl.1, Nat.ofDigitChars_cons]
      exact ih _ hl.2
  have hdigits : ∀ c ∈ Nat.toDigits 10 n, c.isDigit := fun c hc =>
    Nat.isDigit_of_mem_toDigits (by decide) (by decide) hc
  rw [numeral, if_neg (decimal_ne_nil n), decimal, hfold _ _ hdigits, Nat.ofDigitChars_ten_toDigits]

/-- The bytes of a numeral are digits. -/
lemma mem_decimal {n : ℕ} {c : UInt8} (h : c ∈ decimal n) : chr '0' ≤ c ∧ c ≤ chr '9' := by
  obtain ⟨d, hd, rfl⟩ := List.mem_map.mp h
  have hsome := digitValue_chr (Nat.isDigit_of_mem_toDigits (by decide) (by decide) hd)
  rw [digitValue] at hsome
  split_ifs at hsome with hle
  exact hle

lemma decimal_nul (n : ℕ) : (0 : UInt8) ∉ decimal n := fun h =>
  absurd (mem_decimal h).1 (by decide)

lemma isSome_digitValue {c : UInt8} : (digitValue c).isSome ↔ chr '0' ≤ c ∧ c ≤ chr '9' := by
  rw [digitValue]
  split_ifs with h
  · simp [h]
  · simp [h]

/-- A numeral has digits only. -/
lemma numeral_digits {text : Bytes} {n : ℕ} (h : numeral text = some n) :
    text ≠ [] ∧ ∀ c ∈ text, (digitValue c).isSome := by
  rw [numeral] at h
  split_ifs at h with hnil
  refine ⟨hnil, ?_⟩
  generalize 0 = v at h
  clear hnil
  induction text generalizing v with
  | nil => exact fun c hc => by cases hc
  | cons c text ih =>
    rw [List.foldlM_cons] at h
    cases hc : digitValue c with
    | none => simp [hc] at h
    | some d =>
      rw [hc] at h
      rw [List.forall_mem_cons]
      exact ⟨by rw [hc]; rfl, ih _ h⟩

end CSem
