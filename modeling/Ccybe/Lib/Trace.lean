import Mathlib.Tactic.Common

/-!
# Runs of partial labelled steps

A system is a function `step : σ → ε → Option σ`: what the label `e` makes of the state `s`,
and `none` where `s` does not admit `e`. All that is nondeterministic sits in the labels, so a
run is determined by its labels and can be computed.

What holds along runs is derived from single steps by the rules at the end of this file.
-/

namespace Trace

variable {σ τ ε δ : Type*}

/-- The state after the labels `es`, taken in this order from `s`. -/
def run (step : σ → ε → Option σ) (s : σ) : List ε → Option σ
  | [] => some s
  | e :: es => (step s e).bind fun t => run step t es

/-- Some labels lead from `s` to `t`. -/
def Reaches (step : σ → ε → Option σ) (s t : σ) : Prop := ∃ es, run step s es = some t

/-- Each label of `es` is taken in a state that satisfies `C` together with it. -/
def Along (step : σ → ε → Option σ) (C : σ → ε → Prop) (s : σ) : List ε → Prop
  | [] => True
  | e :: es => C s e ∧ ∀ t, step s e = some t → Along step C t es

/-- What an observer sees along a run, who sees `f s e t` of a step from `s` to `t`. -/
def observed (step : σ → ε → Option σ) (f : σ → ε → σ → List δ) (s : σ) : List ε → List δ
  | [] => []
  | e :: es =>
    match step s e with
    | none => []
    | some t => f s e t ++ observed step f t es

variable {step : σ → ε → Option σ} {step' : τ → δ → Option τ}

@[simp] lemma run_nil (s : σ) : run step s [] = some s := rfl

lemma run_cons (s : σ) (e : ε) (es : List ε) :
    run step s (e :: es) = (step s e).bind fun t => run step t es := rfl

lemma run_cons_eq_some {s t : σ} {e : ε} {es : List ε} :
    run step s (e :: es) = some t ↔ ∃ u, step s e = some u ∧ run step u es = some t :=
  Option.bind_eq_some_iff

lemma run_append (s : σ) (es es' : List ε) :
    run step s (es ++ es') = (run step s es).bind fun t => run step t es' := by
  induction es generalizing s with
  | nil => rfl
  | cons e es ih =>
    rw [List.cons_append, run_cons, run_cons]
    cases step s e with
    | none => rfl
    | some t => exact ih t

lemma observed_cons {f : σ → ε → σ → List δ} {s t : σ} {e : ε} (h : step s e = some t) (es : List ε) :
    observed step f s (e :: es) = f s e t ++ observed step f t es := by
  rw [observed, h]

@[simp] lemma Reaches.refl (s : σ) : Reaches step s s := ⟨[], rfl⟩

lemma Reaches.trans {s t u : σ} (h : Reaches step s t) (h' : Reaches step t u) :
    Reaches step s u := by
  obtain ⟨es, h⟩ := h
  obtain ⟨es', h'⟩ := h'
  exact ⟨es ++ es', by rw [run_append, h]; exact h'⟩

lemma Reaches.of_step {s t : σ} {e : ε} (h : step s e = some t) : Reaches step s t :=
  ⟨[e], by rw [run_cons, h]; rfl⟩

instance decidableAlong {C : σ → ε → Prop} [∀ s e, Decidable (C s e)] :
    ∀ (es : List ε) (s : σ), Decidable (Along step C s es)
  | [], _ => isTrue trivial
  | e :: es, s =>
    match h : step s e with
    | none => decidable_of_iff (C s e) (by simp [Along, h])
    | some t =>
      haveI := decidableAlong (C := C) es t
      decidable_of_iff (C s e ∧ Along step C t es) (by simp [Along, h])

/-- A condition along a run holds along its beginnings. -/
lemma Along.of_prefix {C : σ → ε → Prop} {s : σ} {es es' : List ε} (h : Along step C s es)
    (hpre : es' <+: es) : Along step C s es' := by
  induction es' generalizing s es with
  | nil => trivial
  | cons e es' ih =>
    obtain ⟨rest, rfl⟩ := hpre
    obtain ⟨hC, hrest⟩ := h
    exact ⟨hC, fun t ht => ih (hrest t ht) (List.prefix_append es' rest)⟩

/-- Conditions that agree in all states that are reached agree along runs. -/
lemma Along.congr {P : σ → Prop} {C C' : σ → ε → Prop}
    (hstep : ∀ s e t, P s → step s e = some t → P t) (hC : ∀ s e, P s → (C s e ↔ C' s e)) {s : σ}
    (hs : P s) (es : List ε) : Along step C s es ↔ Along step C' s es := by
  induction es generalizing s with
  | nil => exact Iff.rfl
  | cons e es ih => exact and_congr (hC s e hs) (forall₂_congr fun t ht => ih (hstep s e t hs ht))

/-! ### Rules -/

/-- What every step preserves under the side condition `C` holds at the end of each run that
meets `C` throughout. -/
lemma run_invariant_along {P : σ → Prop} {C : σ → ε → Prop}
    (hstep : ∀ s e t, P s → C s e → step s e = some t → P t)
    {s t : σ} {es : List ε} (hC : Along step C s es) (h : run step s es = some t) (hs : P s) :
    P t := by
  induction es generalizing s with
  | nil =>
    cases h
    exact hs
  | cons e es ih =>
    obtain ⟨u, hu, hrun⟩ := run_cons_eq_some.mp h
    exact ih (hC.2 u hu) hrun (hstep s e u hs hC.1 hu)

/-- Where no step starts from a state without `Q`, and `C` says of each step whether it keeps `Q`,
the run has `Q` at its end if and only if all of its steps meet `C`. -/
lemma defined_iff_along {P Q : σ → Prop} {C : σ → ε → Prop}
    (hP : ∀ s e t, P s → step s e = some t → P t)
    (hC : ∀ s e t, P s → step s e = some t → (Q t ↔ C s e))
    (hQ : ∀ s e t, P s → step s e = some t → Q s)
    {s t : σ} {es : List ε} (h : run step s es = some t) (hs : P s) (hsQ : Q s) :
    Q t ↔ Along step C s es := by
  induction es generalizing s with
  | nil =>
    cases h
    exact iff_of_true hsQ trivial
  | cons e es ih =>
    obtain ⟨u, hu, hrun⟩ := run_cons_eq_some.mp h
    by_cases hCs : C s e
    · rw [ih hrun (hP s e u hs hu) ((hC s e u hs hu).mpr hCs)]
      refine ⟨fun hes => ⟨hCs, fun v hv => ?_⟩, fun hes => hes.2 u hu⟩
      rw [hu] at hv
      cases hv
      exact hes
    · have hnot : ¬ Q u := fun hQu => hCs ((hC s e u hs hu).mp hQu)
      refine iff_of_false ?_ fun hes => hCs hes.1
      cases es with
      | nil =>
        cases hrun
        exact hnot
      | cons e' es =>
        obtain ⟨v, hv, -⟩ := run_cons_eq_some.mp hrun
        exact absurd (hQ u e' v (hP s e u hs hu) hv) hnot

/-- What every step preserves holds of all that is reached. -/
lemma Reaches.invariant {P : σ → Prop} (hstep : ∀ s e t, P s → step s e = some t → P t)
    {s t : σ} (h : Reaches step s t) (hs : P s) : P t := by
  obtain ⟨es, h⟩ := h
  have hC : Along step (fun _ _ => True) s es := by
    clear h
    induction es generalizing s with
    | nil => trivial
    | cons e es ih => exact ⟨trivial, fun u hu => ih (hstep s e u hs hu)⟩
  exact run_invariant_along (fun s e t hs _ h => hstep s e t hs h) hC h hs

/-- A projection that turns steps into runs turns runs into runs. -/
lemma Reaches.simulation {f : σ → τ}
    (hstep : ∀ s e t, step s e = some t → Reaches step' (f s) (f t))
    {s t : σ} (h : Reaches step s t) : Reaches step' (f s) (f t) :=
  h.invariant (P := fun u => Reaches step' (f s) (f u))
    (fun u e v hu huv => hu.trans (hstep u e v huv)) (.refl _)

/-- A relation between what was seen and the state that each step keeps. -/
lemma observed_invariant {f : σ → ε → σ → List δ} {P : List δ → σ → Prop}
    (hstep : ∀ seen s e t, P seen s → step s e = some t → P (seen ++ f s e t) t)
    {s t : σ} {es : List ε} (h : run step s es = some t) {seen : List δ} (hs : P seen s) :
    P (seen ++ observed step f s es) t := by
  induction es generalizing s seen with
  | nil =>
    cases h
    exact (List.append_nil seen).symm ▸ hs
  | cons e es ih =>
    obtain ⟨u, hu, hrun⟩ := run_cons_eq_some.mp h
    rw [observed_cons hu, ← List.append_assoc]
    exact ih hrun (hstep seen s e u hs hu)

/-- Nothing is seen along a run if and only if nothing is seen of any step. -/
lemma observed_eq_nil_iff {g : σ → ε → List δ} {s t : σ} {es : List ε} (h : run step s es = some t) :
    observed step (fun s e _ => g s e) s es = [] ↔ Along step (fun s e => g s e = []) s es := by
  induction es generalizing s with
  | nil => exact iff_of_true rfl trivial
  | cons e es ih =>
    obtain ⟨u, hu, hrun⟩ := run_cons_eq_some.mp h
    rw [observed_cons hu, List.append_eq_nil_iff, ih hrun]
    refine and_congr_right fun _ => ⟨fun hes v hv => ?_, fun hes => hes u hu⟩
    rw [hu] at hv
    cases hv
    exact hes

/-- Steps that are matched by runs of another system, with what each of them is seen to do, give
runs that are matched. -/
lemma observed_simulation {γ : Type*} {R : σ → τ → Prop} {f : σ → ε → σ → List δ}
    {g : σ → ε → σ → List γ} {out : τ → List γ}
    (hstep : ∀ s e t u, R s u → step s e = some t →
      ∃ v, run step' u (f s e t) = some v ∧ out v = out u ++ g s e t ∧ R t v)
    {s t : σ} {es : List ε} (h : run step s es = some t) {u : τ} (hs : R s u) :
    ∃ v, run step' u (observed step f s es) = some v ∧ out v = out u ++ observed step g s es ∧
      R t v := by
  induction es generalizing s u with
  | nil =>
    cases h
    exact ⟨u, rfl, (List.append_nil _).symm, hs⟩
  | cons e es ih =>
    obtain ⟨s', hs', hrun⟩ := run_cons_eq_some.mp h
    obtain ⟨u', hu', hout, hR⟩ := hstep s e s' u hs hs'
    obtain ⟨v, hv, hout', hR'⟩ := ih hrun hR
    refine ⟨v, ?_, ?_, hR'⟩
    · rw [observed_cons hs', run_append, hu']
      exact hv
    · rw [observed_cons hs', hout', hout, List.append_assoc]

/-! ### Ranks

A rank that no step raises, and that the labels with `p` lower, bounds how many of these labels a
run has. -/

section Rank

variable {P : σ → Prop} {rank : σ → ℕ} {p : ε → Bool}
  (hstep : ∀ s e t, P s → step s e = some t → P t ∧ rank t + (if p e then 1 else 0) ≤ rank s)
include hstep

lemma countP_add_rank_le {s t : σ} {es : List ε} (h : run step s es = some t) (hs : P s) :
    P t ∧ es.countP p + rank t ≤ rank s := by
  induction es generalizing s with
  | nil =>
    cases h
    exact ⟨hs, by simp⟩
  | cons e es ih =>
    obtain ⟨u, hu, hrun⟩ := run_cons_eq_some.mp h
    obtain ⟨hPu, hlower⟩ := hstep s e u hs hu
    obtain ⟨hPt, hle⟩ := ih hrun hPu
    refine ⟨hPt, ?_⟩
    rw [List.countP_cons]
    omega

/-- Labels with `p` are taken until there is none left that can be taken. -/
lemma exists_exhausted {s : σ} (hs : P s) :
    ∃ es t, run step s es = some t ∧ (∀ e ∈ es, p e = true) ∧ ∀ e, p e = true → step t e = none := by
  induction hrank : rank s using Nat.strongRecOn generalizing s with
  | ind k ih =>
    by_cases hstuck : ∀ e, p e = true → step s e = none
    · exact ⟨[], s, rfl, by simp, hstuck⟩
    · push Not at hstuck
      obtain ⟨e, he, hne⟩ := hstuck
      obtain ⟨u, hu⟩ := Option.ne_none_iff_exists'.mp hne
      obtain ⟨hPu, hlower⟩ := hstep s e u hs hu
      rw [if_pos he] at hlower
      obtain ⟨es, t, hrun, hes, hend⟩ := ih (rank u) (by omega) hPu rfl
      refine ⟨e :: es, t, run_cons_eq_some.mpr ⟨u, hu, hrun⟩, ?_, hend⟩
      exact List.forall_mem_cons.mpr ⟨he, hes⟩

end Rank

end Trace
