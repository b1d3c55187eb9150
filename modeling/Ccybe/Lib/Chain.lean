import Mathlib.Data.List.Basic
import Mathlib.Data.List.Nodup
import Mathlib.Tactic.Common

/-!
# Doubly linked chains

`Linked m xs` says that the cells stored in `m` form a doubly linked chain through the keys of
`xs`, in this order, with the values of `xs`. The chain is described by its splits: a cell
points back to the last key before it and on to the first key behind it. Appending a cell and
taking a cell out change at most two links, which is all that the rules at the end ask for.
-/

namespace Chain

variable {κ β : Type*}

structure Cell (κ β : Type*) where
  val : β
  prev : Option κ
  next : Option κ

def headKey (xs : List (κ × β)) : Option κ := xs.head?.map Prod.fst

def lastKey (xs : List (κ × β)) : Option κ := xs.getLast?.map Prod.fst

/-- The cells in `m` are a chain through `xs`. -/
def Linked (m : κ → Option (Cell κ β)) (xs : List (κ × β)) : Prop :=
  ∀ u a b v, xs = u ++ (a, b) :: v → m a = some ⟨b, lastKey u, headKey v⟩

@[simp] lemma headKey_nil : headKey ([] : List (κ × β)) = none := rfl

@[simp] lemma headKey_cons (x : κ × β) (xs : List (κ × β)) : headKey (x :: xs) = some x.1 := rfl

@[simp] lemma lastKey_nil : lastKey ([] : List (κ × β)) = none := rfl

@[simp] lemma lastKey_concat (xs : List (κ × β)) (x : κ × β) :
    lastKey (xs ++ [x]) = some x.1 := by
  simp [lastKey]

lemma lastKey_append_cons (xs : List (κ × β)) (x : κ × β) (ys : List (κ × β)) :
    lastKey (xs ++ x :: ys) = lastKey (x :: ys) := by
  simp [lastKey, List.getLast?_append, List.getLast?_cons]

lemma headKey_mem {xs : List (κ × β)} {k : κ} (h : headKey xs = some k) :
    k ∈ xs.map Prod.fst := by
  cases xs with
  | nil => cases h
  | cons x xs =>
    cases h
    exact List.mem_cons_self

lemma lastKey_mem {xs : List (κ × β)} {k : κ} (h : lastKey xs = some k) :
    k ∈ xs.map Prod.fst := by
  obtain ⟨x, hx, rfl⟩ := Option.map_eq_some_iff.mp h
  exact List.mem_map_of_mem (List.mem_of_getLast? hx)

lemma linked_nil (m : κ → Option (Cell κ β)) : Linked m [] := by
  intro u a b v h
  simp at h

/-! ### Rules -/

/-- A new cell behind the last one: the last cell gets a successor. -/
lemma Linked.append {m m' : κ → Option (Cell κ β)} {xs : List (κ × β)} (h : Linked m xs)
    (hnd : (xs.map Prod.fst).Nodup) {a : κ} {b : β} (ha : a ∉ xs.map Prod.fst)
    (hnew : m' a = some ⟨b, lastKey xs, none⟩)
    (hlast : ∀ t c, lastKey xs = some t → m t = some c → m' t = some { c with next := some a })
    (hrest : ∀ k, k ≠ a → lastKey xs ≠ some k → m' k = m k) :
    Linked m' (xs ++ [(a, b)]) := by
  intro u k d v hsplit
  rcases List.eq_nil_or_concat v with rfl | ⟨v, w, rfl⟩
  · -- the split at the new cell
    obtain ⟨rfl, hk⟩ := List.append_inj' hsplit rfl
    cases hk
    exact hnew
  · rw [List.concat_eq_append] at hsplit ⊢
    rw [← List.cons_append, ← List.append_assoc] at hsplit
    obtain ⟨rfl, hw⟩ := List.append_inj' hsplit rfl
    cases hw
    have hk := h u k d v rfl
    cases v with
    | nil => exact hlast k _ (lastKey_concat u (k, d)) hk
    | cons y ys =>
      have hne : lastKey (u ++ (k, d) :: y :: ys) ≠ some k := by
        rw [lastKey_append_cons, ← List.singleton_append, lastKey_append_cons]
        intro hlk
        rw [List.map_append, List.map_cons] at hnd
        exact (List.nodup_cons.mp hnd.of_append_right).1 (lastKey_mem hlk)
      have hka : k ≠ a := fun hka => ha (by rw [← hka]; simp)
      rw [hrest k hka hne, hk]
      rfl

/-- A cell taken out: its neighbours are linked to each other. -/
lemma Linked.remove {m m' : κ → Option (Cell κ β)} {u v : List (κ × β)} {a : κ} {b : β}
    (h : Linked m (u ++ (a, b) :: v)) (hnd : ((u ++ (a, b) :: v).map Prod.fst).Nodup)
    (hprev : ∀ p c, lastKey u = some p → m p = some c → m' p = some { c with next := headKey v })
    (hnext : ∀ q c, headKey v = some q → m q = some c → m' q = some { c with prev := lastKey u })
    (hrest : ∀ k, k ≠ a → lastKey u ≠ some k → headKey v ≠ some k → m' k = m k) :
    Linked m' (u ++ v) := by
  rw [List.map_append, List.map_cons, List.nodup_append] at hnd
  obtain ⟨hndu, hndv, hdisj⟩ := hnd
  intro w k d y hsplit
  rcases List.append_eq_append_iff.mp hsplit with ⟨v₀, rfl, rfl⟩ | ⟨u₂, rfl, hv⟩
  · -- the split is behind the removed cell
    have hk := h (u ++ (a, b) :: v₀) k d y (by simp)
    have hkv : k ∈ (v₀ ++ (k, d) :: y).map Prod.fst := by simp
    have hka : k ≠ a := fun hka => (List.nodup_cons.mp hndv).1 (hka ▸ hkv)
    have hku : lastKey u ≠ some k := fun hlk =>
      hdisj k (lastKey_mem hlk) k (List.mem_cons_of_mem _ hkv) rfl
    cases v₀ with
    | nil =>
      rw [hnext k _ rfl hk, List.append_nil]
    | cons z zs =>
      have hkz : headKey (z :: zs ++ (k, d) :: y) ≠ some k := by
        rintro hz
        cases hz
        rw [List.nodup_cons, List.cons_append, List.map_cons, List.nodup_cons] at hndv
        exact hndv.2.1 (by simp)
      rw [hrest k hka hku hkz, hk, lastKey_append_cons, lastKey_append_cons,
        ← List.singleton_append, lastKey_append_cons]
  · -- the split is before the removed cell or right behind it
    cases u₂ with
    | nil =>
      rw [List.nil_append] at hv
      subst hv
      rw [List.append_nil] at h hndu hdisj hprev hnext hrest
      have hk := h (w ++ [(a, b)]) k d y (by simp)
      rw [hnext k _ rfl hk]
    | cons z zs =>
      rw [List.cons_append] at hv
      cases hv
      have hk := h w k d (zs ++ (a, b) :: v) (by simp)
      have hku : k ∈ (w ++ (k, d) :: zs).map Prod.fst := by simp
      have hka : k ≠ a := fun hka => hdisj k hku a List.mem_cons_self hka
      have hkv : headKey v ≠ some k := fun hhk =>
        hdisj k hku k (List.mem_cons_of_mem _ (headKey_mem hhk)) rfl
      cases zs with
      | nil =>
        rw [hprev k _ (lastKey_concat w (k, d)) hk]
        rfl
      | cons z zs =>
        have hlk : lastKey (w ++ (k, d) :: z :: zs) ≠ some k := by
          rw [lastKey_append_cons, ← List.singleton_append, lastKey_append_cons]
          intro hlk
          rw [List.map_append, List.map_cons] at hndu
          exact (List.nodup_cons.mp hndu.of_append_right).1 (lastKey_mem hlk)
        rw [hrest k hka hlk hkv, hk]
        rfl

end Chain
