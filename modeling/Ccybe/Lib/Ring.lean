import Mathlib.Data.List.Basic
import Mathlib.Data.List.Induction
import Mathlib.Data.Nat.ModEq
import Mathlib.Tactic.Common

/-!
# Circular windows

`Holds cells start xs` says that the items `xs` stand in the block `cells` one after the other
from index `start` on, the index wrapping around at the end of the block. The lemmas say how
the window moves when an item is written behind it, when its first item is left out, and when
it is copied to the front of a larger block.
-/

namespace Ring

variable {α : Type*}

/-- The items `xs` occupy the cells `start`, `start + 1`, … modulo the size of the block. -/
def Holds (cells : List (Option α)) (start : ℕ) (xs : List α) : Prop :=
  ∀ i (h : i < xs.length), cells[(start + i) % cells.length]? = some (some xs[i])

/-- The `n` items of the window from `start` on, as far as they are initialised. -/
def window (cells : List (Option α)) (start n : ℕ) : List α :=
  (List.range n).filterMap fun i => cells[(start + i) % cells.length]?.join

@[simp] lemma holds_nil (cells : List (Option α)) (start : ℕ) : Holds cells start [] := by
  intro i h
  simp at h

lemma Holds.head {cells : List (Option α)} {start : ℕ} {x : α} {xs : List α}
    (h : Holds cells start (x :: xs)) : cells[start % cells.length]? = some (some x) :=
  h 0 (by simp)

/-- Two different offsets below the size of the block do not meet. -/
lemma add_mod_injOn {c start i j : ℕ} (hi : i < c) (hj : j < c)
    (h : (start + i) % c = (start + j) % c) : i = j := by
  have h' : i ≡ j [MOD c] := Nat.ModEq.add_left_cancel' start h
  rwa [Nat.ModEq, Nat.mod_eq_of_lt hi, Nat.mod_eq_of_lt hj] at h'

/-- Writing right behind the window appends to it. -/
lemma Holds.push {cells : List (Option α)} {start : ℕ} {xs : List α} (x : α)
    (h : Holds cells start xs) (hroom : xs.length < cells.length) :
    Holds (cells.set ((start + xs.length) % cells.length) (some x)) start (xs ++ [x]) := by
  intro i hi
  rw [List.length_set]
  by_cases hlast : i = xs.length
  · subst hlast
    rw [List.getElem?_set_self (Nat.mod_lt _ (by omega))]
    simp
  · have hi' : i < xs.length := by simp at hi; omega
    have hne : (start + xs.length) % cells.length ≠ (start + i) % cells.length := fun heq =>
      hlast (add_mod_injOn (by omega) hroom heq.symm)
    rw [List.getElem?_set_ne hne, h i hi', List.getElem_append_left hi']

/-- Moving the start past the first item drops it. -/
lemma Holds.pop {cells : List (Option α)} {start : ℕ} {x : α} {xs : List α}
    (h : Holds cells start (x :: xs)) : Holds cells ((start + 1) % cells.length) xs := by
  intro i hi
  have hnext := h (i + 1) (by simpa using hi)
  rw [Nat.mod_add_mod, show start + 1 + i = start + (i + 1) by omega]
  simpa using hnext

/-- A block that starts with `xs` holds `xs` from index 0 on. -/
lemma holds_zero_of_prefix {cells : List (Option α)} {xs : List α}
    (h : ∀ i (hi : i < xs.length), cells[i]? = some (some xs[i])) : Holds cells 0 xs := by
  intro i hi
  have hlt : i < cells.length := by
    by_contra hge
    have hcell := h i hi
    rw [List.getElem?_eq_none (not_lt.mp hge)] at hcell
    cases hcell
  rw [Nat.zero_add, Nat.mod_eq_of_lt hlt]
  exact h i hi

/-- The window that holds `xs` reads back as `xs`. -/
lemma Holds.window_eq {cells : List (Option α)} {start : ℕ} {xs : List α}
    (h : Holds cells start xs) : window cells start xs.length = xs := by
  induction xs using List.reverseRecOn generalizing cells with
  | nil => rfl
  | append_singleton xs x ih =>
    have hinit : Holds cells start xs := fun i hi => by
      rw [h i (by simp; omega), List.getElem_append_left hi]
    have hlast := h xs.length (by simp)
    have hx : window cells start (xs ++ [x]).length = window cells start xs.length ++ [x] := by
      simp [window, List.range_succ, hlast]
    rw [hx, ih hinit]

end Ring
