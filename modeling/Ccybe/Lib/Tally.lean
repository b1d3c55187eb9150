import Mathlib.Algebra.BigOperators.Group.Finset.Basic
import Mathlib.Algebra.Order.BigOperators.Group.Finset
import Mathlib.Algebra.Order.BigOperators.Group.Multiset
import Mathlib.Data.Fintype.Basic
import Mathlib.Tactic.Abel

/-!
# Sums over the members of a group

A group is a finite family of members, each in a state of its own, and a function says what a
member in a given state contributes. The lemmas say how the total moves when one member
changes its state.
-/

namespace Tally

variable {ι β M : Type*} [Fintype ι] [AddCommMonoid M]

/-- What all members contribute together. -/
def total (f : β → M) (s : ι → β) : M := ∑ i, f (s i)

/-- Members in states that contribute the same give the same total. -/
lemma total_congr {f : β → M} {s t : ι → β} (h : ∀ i, f (s i) = f (t i)) :
    total f s = total f t :=
  Finset.sum_congr rfl fun i _ => h i

lemma total_eq_zero {f : β → M} {s : ι → β} (h : ∀ i, f (s i) = 0) : total f s = 0 :=
  Finset.sum_eq_zero fun i _ => h i

/-- What is in the total is in the contribution of a member. -/
lemma mem_total {γ : Type*} {f : β → Multiset γ} {s : ι → β} {x : γ} :
    x ∈ total f s ↔ ∃ i, x ∈ f (s i) := by
  simp [total, Multiset.mem_sum]

/-- No member contributes more than `k`. -/
lemma total_le {f : β → ℕ} {s : ι → β} {k : ℕ} (h : ∀ i, f (s i) ≤ k) :
    total f s ≤ Fintype.card ι * k :=
  Finset.sum_le_card_nsmul Finset.univ (fun i => f (s i)) k fun i _ => h i

variable [DecidableEq ι]

/-- The total without the contribution of `i` is left alone by a change of `i`. -/
lemma total_update (f : β → M) (s : ι → β) (i : ι) (b : β) :
    total f (Function.update s i b) + f (s i) = total f s + f b := by
  have hrest : ∑ j ∈ Finset.univ.erase i, f (Function.update s i b j)
      = ∑ j ∈ Finset.univ.erase i, f (s j) :=
    Finset.sum_congr rfl fun j hj => by
      rw [Function.update_of_ne (Finset.ne_of_mem_erase hj)]
  rw [total, total, ← Finset.add_sum_erase _ _ (Finset.mem_univ i),
    ← Finset.add_sum_erase (a := i) _ (fun j => f (s j)) (Finset.mem_univ i), hrest,
    Function.update_self]
  abel

/-- A member that contributes nothing before its change adds what it contributes after it. -/
lemma total_update_of_zero {f : β → M} {s : ι → β} {i : ι} (b : β) (h : f (s i) = 0) :
    total f (Function.update s i b) = total f s + f b := by
  have := total_update f s i b
  rwa [h, add_zero] at this

/-- A member that contributes nothing after its change takes its contribution away. -/
lemma total_update_to_zero {f : β → M} {s : ι → β} {i : ι} {b : β} (h : f b = 0) :
    total f (Function.update s i b) + f (s i) = total f s := by
  have := total_update f s i b
  rwa [h, add_zero] at this

end Tally
