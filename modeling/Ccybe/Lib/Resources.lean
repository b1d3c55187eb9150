import Ccybe.Lib.Trace
import Mathlib.Data.Finset.Basic

/-!
# Resources that need each other

A program acquires and releases resources, and a resource may need others for as long as it is held.
`Leads needs uses held` says that the uses, one after the other and from nothing on, are proper and
that `held` is what is held after them.
-/

namespace Resources

/-- What a program does with a resource. -/
inductive Use (ρ : Type*) where
  | acquire (r : ρ)
  | release (r : ρ)
  deriving DecidableEq

variable {ρ : Type*} [DecidableEq ρ]

/-- What is held after a use. A resource is acquired if it is not held and all that it needs is, and
released if it is held and nothing that is held needs it. -/
def use (needs : ρ → List ρ) (held : Finset ρ) : Use ρ → Option (Finset ρ)
  | .acquire r => if r ∉ held ∧ ∀ s ∈ needs r, s ∈ held then some (insert r held) else none
  | .release r => if r ∈ held ∧ ∀ s ∈ held, r ∉ needs s then some (held.erase r) else none

def Leads (needs : ρ → List ρ) (uses : List (Use ρ)) (held : Finset ρ) : Prop :=
  Trace.run (use needs) ∅ uses = some held

variable {needs : ρ → List ρ} {uses : List (Use ρ)} {held : Finset ρ}

lemma leads_nil (needs : ρ → List ρ) : Leads needs [] ∅ := rfl

lemma Leads.concat (h : Leads needs uses held) {u : Use ρ} {held' : Finset ρ}
    (hu : use needs held u = some held') : Leads needs (uses ++ [u]) held' := by
  rw [Leads, Trace.run_append, h, Option.bind_some]
  exact Trace.run_cons_eq_some.mpr ⟨held', hu, rfl⟩

lemma Leads.acquire (h : Leads needs uses held) {r : ρ} (hr : r ∉ held)
    (hneeds : ∀ s ∈ needs r, s ∈ held) : Leads needs (uses ++ [.acquire r]) (insert r held) :=
  h.concat (if_pos ⟨hr, hneeds⟩)

lemma Leads.release (h : Leads needs uses held) {r : ρ} (hr : r ∈ held)
    (hneeds : ∀ s ∈ held, r ∉ needs s) : Leads needs (uses ++ [.release r]) (held.erase r) :=
  h.concat (if_pos ⟨hr, hneeds⟩)

/-! ### Order of release -/

/-- Resources in an order in which they can be released, if they are all that is held. -/
def Releasable (needs : ρ → List ρ) (rs : List ρ) : Prop :=
  rs.Nodup ∧ (∀ r ∈ rs, r ∉ needs r) ∧ rs.Pairwise fun r s => r ∉ needs s

omit [DecidableEq ρ] in
lemma Releasable.tail {r : ρ} {rs : List ρ} (h : Releasable needs (r :: rs)) : Releasable needs rs :=
  ⟨(List.nodup_cons.mp h.1).2, (List.forall_mem_cons.mp h.2.1).2, (List.pairwise_cons.mp h.2.2).2⟩

/-- The first of them is released. -/
lemma Leads.release_head {r : ρ} {rs : List ρ} (h : Leads needs uses (r :: rs).toFinset)
    (hrs : Releasable needs (r :: rs)) : Leads needs (uses ++ [.release r]) rs.toFinset := by
  have hnew := (List.nodup_cons.mp hrs.1).1
  have herase : (r :: rs).toFinset.erase r = rs.toFinset := by
    rw [List.toFinset_cons]
    exact Finset.erase_insert fun hmem => hnew (List.mem_toFinset.mp hmem)
  rw [← herase]
  refine h.release (List.mem_toFinset.mpr List.mem_cons_self) fun s hs => ?_
  rcases List.mem_cons.mp (List.mem_toFinset.mp hs) with rfl | hs
  · exact hrs.2.1 s List.mem_cons_self
  · exact (List.pairwise_cons.mp hrs.2.2).1 s hs

/-! ### Balance -/

lemma use_balance {held held' : Finset ρ} {u : Use ρ} (h : use needs held u = some held') (r : ρ) :
    ([u].count (.acquire r)) + (if r ∈ held then 1 else 0) =
      [u].count (.release r) + if r ∈ held' then 1 else 0 := by
  cases u with
  | acquire q =>
    simp only [use] at h
    split_ifs at h with hq
    cases h
    rcases eq_or_ne q r with rfl | hne
    · simp [hq.1]
    · simp [hne, hne.symm]
  | release q =>
    simp only [use] at h
    split_ifs at h with hq
    cases h
    rcases eq_or_ne q r with rfl | hne
    · simp [hq.1]
    · simp [hne, hne.symm]

lemma run_balance {held held' : Finset ρ} {uses : List (Use ρ)}
    (h : Trace.run (use needs) held uses = some held') (r : ρ) :
    uses.count (.acquire r) + (if r ∈ held then 1 else 0) =
      uses.count (.release r) + if r ∈ held' then 1 else 0 := by
  induction uses generalizing held with
  | nil =>
    cases h
    rfl
  | cons u us ih =>
    obtain ⟨held₁, hu, hrest⟩ := Trace.run_cons_eq_some.mp h
    have hfirst := use_balance hu r
    have hothers := ih hrest
    rw [← List.singleton_append, List.count_append, List.count_append]
    omega

/-- A resource was acquired as often as it was released, and once more if it is held. -/
lemma Leads.balance (h : Leads needs uses held) (r : ρ) :
    uses.count (.acquire r) = uses.count (.release r) + if r ∈ held then 1 else 0 := by
  simpa using run_balance h r

end Resources
