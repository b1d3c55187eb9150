import Mathlib.Tactic.Common
import Mathlib.Algebra.Order.Ring.Int

/-!
# Undefined behaviour of C

Expressions of type `int` and accesses to allocated memory are evaluated in `Eval`, which stops
at the first operation that C leaves undefined. A function that returns `.ok` on all of its
inputs therefore never overflows, never leaves an array and never reads what was not written.

A block of memory is the list of its cells, `none` for a cell that was not written yet.
-/

namespace CSem

/-- The reasons for which an operation is undefined; `passes` is that of a loop which is not
over after the passes allowed to it. -/
inductive Undefined where
  | overflow
  | divZero
  | bounds
  | uninit
  | null
  | freed
  | passes
  deriving DecidableEq, Repr

abbrev Eval (α : Type*) := Except Undefined α

section Bind

universe u
variable {α β : Type u}

-- Not by a bare `rfl`: as a definitional rule it makes the kernel evaluate the bounds of `int`.
@[simp] lemma ok_bind (a : α) (f : α → Eval β) : ((Except.ok a : Eval α) >>= f) = f a := (rfl)

@[simp] lemma error_bind (e : Undefined) (f : α → Eval β) :
    ((Except.error e : Eval α) >>= f) = .error e := rfl

@[simp] lemma pure_eq_ok (a : α) : (pure a : Eval α) = .ok a := rfl

lemma bind_eq_ok {x : Eval α} {f : α → Eval β} {b : β} :
    (x >>= f) = .ok b ↔ ∃ a, x = .ok a ∧ f a = .ok b := by
  cases x with
  | error e => simp
  | ok a => simp

lemma map_eq_ok {x : Eval α} {f : α → β} {b : β} : x.map f = .ok b ↔ ∃ a, x = .ok a ∧ f a = b := by
  cases x with
  | error e => simp [Except.map]
  | ok a => simp [Except.map]

end Bind

/-! ### Integers -/

/-- The value of an `int` expression, 32 bits wide. -/
def int (x : Int) : Eval Int :=
  if -2147483648 ≤ x ∧ x ≤ 2147483647 then .ok x else .error .overflow

/-- The conversion to `int`, which keeps the low 32 bits of a value that does not fit. -/
def toInt (x : Int) : Int := x.bmod 4294967296

/-- The value of a `long long` expression, 64 bits wide. -/
def longLong (x : Int) : Eval Int :=
  if -9223372036854775808 ≤ x ∧ x ≤ 9223372036854775807 then .ok x else .error .overflow

def add (a b : Int) : Eval Int := int (a + b)

def sub (a b : Int) : Eval Int := int (a - b)

/-- `a % b`, truncated towards zero. -/
def rem (a b : Int) : Eval Int := if b = 0 then .error .divZero else int (a.tmod b)

lemma int_ok {x : Int} (h₁ : -2147483648 ≤ x) (h₂ : x ≤ 2147483647) : int x = .ok x :=
  if_pos ⟨h₁, h₂⟩

lemma toInt_le (x : Int) : toInt x ≤ 2147483647 := by
  have := Int.bmod_lt (x := x) (m := 4294967296) (by decide)
  simp only [toInt]
  omega

lemma le_toInt (x : Int) : -2147483648 ≤ toInt x := by
  have := Int.le_bmod (x := x) (m := 4294967296) (by decide)
  simp only [toInt]
  omega

lemma toInt_eq {x : Int} (h₁ : -2147483648 ≤ x) (h₂ : x ≤ 2147483647) : toInt x = x :=
  Int.bmod_eq_of_le (by simpa using h₁) (by omega)

lemma toInt_natCast_le (n : ℕ) : toInt n ≤ n := by
  rw [toInt, Int.bmod_eq_emod]
  split_ifs <;> omega

/-- What does not fit becomes smaller by a multiple of `2 ^ 32`. -/
lemma toInt_of_gt {n : ℕ} (h : 2147483647 < n) : toInt n + 4294967296 ≤ n := by
  rw [toInt, Int.bmod_eq_emod]
  split_ifs <;> omega

lemma longLong_ok {x : Int} (h₁ : -9223372036854775808 ≤ x) (h₂ : x ≤ 9223372036854775807) :
    longLong x = .ok x :=
  if_pos ⟨h₁, h₂⟩

lemma add_ok {a b : Int} (h₁ : -2147483648 ≤ a + b) (h₂ : a + b ≤ 2147483647) :
    add a b = .ok (a + b) :=
  int_ok h₁ h₂

lemma add_overflow {a b : Int} (h : 2147483647 < a + b) : add a b = .error .overflow :=
  if_neg fun hle => by omega

lemma add_eq_ok {a b c : Int} (h : add a b = .ok c) : c = a + b := by
  rw [add, int] at h
  split_ifs at h
  cases h
  rfl

lemma sub_ok {a b : Int} (h₁ : -2147483648 ≤ a - b) (h₂ : a - b ≤ 2147483647) :
    sub a b = .ok (a - b) :=
  int_ok h₁ h₂

/-- On nonnegative operands the remainder is that of the natural numbers. -/
lemma rem_natCast {a b : ℕ} (hb : 0 < b) (hb' : b ≤ 2147483648) :
    rem a b = .ok ((a % b : ℕ) : Int) := by
  have hlt : a % b < b := Nat.mod_lt _ hb
  have hb0 : (b : Int) ≠ 0 := by omega
  rw [rem, if_neg hb0, ← Int.ofNat_tmod]
  exact int_ok (by omega) (by omega)

/-! ### Memory -/

variable {α : Type*}

/-- Read cell `i` of a block. -/
def get (cells : List (Option α)) (i : Int) : Eval α :=
  if i < 0 then .error .bounds
  else match cells[i.toNat]? with
    | none => .error .bounds
    | some none => .error .uninit
    | some (some v) => .ok v

/-- Write cell `i` of a block. -/
def set (cells : List (Option α)) (i : Int) (v : α) : Eval (List (Option α)) :=
  if 0 ≤ i ∧ i.toNat < cells.length then .ok (cells.set i.toNat (some v)) else .error .bounds

lemma get_natCast {cells : List (Option α)} {i : ℕ} {v : α} (h : cells[i]? = some (some v)) :
    get cells i = .ok v := by
  simp [get, h]

lemma set_natCast {cells : List (Option α)} {i : ℕ} (v : α) (h : i < cells.length) :
    set cells i v = .ok (cells.set i (some v)) := by
  simp [set, h]

lemma set_of_le {cells : List (Option α)} {i : ℕ} (v : α) (h : cells.length ≤ i) :
    set cells i v = .error .bounds := by
  rw [set, if_neg]
  rintro ⟨-, hlt⟩
  rw [Int.toNat_natCast] at hlt
  omega

lemma get_of_le {cells : List (Option α)} {i : ℕ} (h : cells.length ≤ i) :
    get cells i = .error .bounds := by
  simp [get, h]

/-- An element behind which one was added is an old one or the new one. -/
lemma concat_cases {l : List α} {a b : α} {i : ℕ} (h : (l ++ [a])[i]? = some b) :
    l[i]? = some b ∨ i = l.length ∧ b = a := by
  rcases lt_trichotomy i l.length with hlt | rfl | hgt
  · rw [List.getElem?_append_left hlt] at h
    exact .inl h
  · rw [List.getElem?_concat_length, Option.some.injEq] at h
    exact .inr ⟨rfl, h.symm⟩
  · rw [List.getElem?_eq_none (by rw [List.length_append, List.length_singleton]; omega)] at h
    cases h

/-! ### Loops -/

/-- A loop on a part of its state: `f` puts the part into its place. -/
lemma foldlM_hom {σ τ ε : Type} {f : σ → τ} {g : σ → ε → Eval σ} {g' : τ → ε → Eval τ} (l : List ε)
    (h : ∀ s, ∀ e ∈ l, g' (f s) e = (g s e).map f) (s : σ) :
    l.foldlM g' (f s) = (l.foldlM g s).map f := by
  induction l generalizing s with
  | nil => rfl
  | cons e l ih =>
    rw [List.foldlM_cons, List.foldlM_cons, h s e List.mem_cons_self]
    cases hg : g s e with
    | error u => rfl
    | ok t => exact ih (fun s e he => h s e (List.mem_cons_of_mem _ he)) t

end CSem
