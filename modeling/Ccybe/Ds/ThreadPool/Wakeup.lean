import Ccybe.Ds.ThreadPool.ExactlyOnce
import Mathlib.Data.Finset.Card

/-!
# No wake-up is lost

A thread goes to sleep on the empty queue only, and each accepted task wakes one thread if any
sleeps. So before shutdown there are always as many threads awake as there are tasks, or all
of them; after it nobody sleeps.
-/

namespace Ccybe

variable {n : ℕ} {F A : Type}

namespace Pool

/-- The threads that are not blocked in `pthread_cond_wait`. -/
def awake (p : Pool n F A) : Finset (Fin n) :=
  Finset.univ.filter fun i => (p.thread i).isWaiting = false

@[simp] lemma mem_awake {p : Pool n F A} {i : Fin n} :
    i ∈ p.awake ↔ (p.thread i).isWaiting = false := by
  simp [awake]

/-- The counting invariant. -/
structure Awake (p : Pool n F A) : Prop where
  before : p.shutdown = false → min p.q.items.length n ≤ p.awake.card
  after : p.shutdown = true → ∀ i, (p.thread i).isWaiting = false

lemma awake_eq_univ {p : Pool n F A} (h : ∀ i, (p.thread i).isWaiting = false) :
    p.awake.card = n := by
  rw [awake, Finset.filter_true_of_mem fun i _ => h i, Finset.card_univ, Fintype.card_fin]

/-- Changing one thread to a state in which it does not sleep wakes nobody else up or down. -/
lemma awake_subset_setThread {p : Pool n F A} {i : Fin n} {w : Worker F A}
    (hw : w.isWaiting = false) : p.awake ⊆ (p.setThread i w).awake := by
  intro j hj
  rw [mem_awake] at hj ⊢
  by_cases hji : j = i
  · subst hji
    simpa [setThread] using hw
  · simpa [setThread, hji] using hj

lemma notWaiting_setThread {p : Pool n F A} {i : Fin n} {w : Worker F A}
    (hw : w.isWaiting = false) (h : ∀ j, (p.thread j).isWaiting = false) (j : Fin n) :
    ((p.setThread i w).thread j).isWaiting = false := by
  have := awake_subset_setThread hw (mem_awake.mpr (h j)) (i := i)
  exact mem_awake.mp this

/-- A signal wakes one more thread, unless all are awake already. -/
lemma card_signal {p : Pool n F A} {ws : List (Fin n)} (h : p.signals ws = true) {t : Pool n F A}
    (ht : t.thread = p.signal ws) : min (p.awake.card + 1) n ≤ t.awake.card := by
  have hsub : p.awake ⊆ t.awake := by
    intro i hi
    rw [mem_awake] at hi ⊢
    rw [ht, signal]
    split_ifs
    · rfl
    · exact hi
  rw [signals, Bool.and_eq_true, Bool.or_eq_true, decide_eq_true_eq] at h
  rcases h.2 with hws | hall
  · obtain ⟨i, hi⟩ := List.exists_mem_of_ne_nil ws (by simpa using hws)
    have hasleep : (p.thread i).isWaiting = true := List.all_eq_true.mp h.1 i hi
    have hnew : i ∈ t.awake := by
      rw [mem_awake, ht, signal, if_pos hi]
      rfl
    have hold : i ∉ p.awake := by simp [hasleep]
    have hlt := Finset.card_lt_card (Finset.ssubset_iff_subset_ne.mpr
      ⟨hsub, fun heq => hold (heq ▸ hnew)⟩)
    omega
  · have hle := Finset.card_le_card hsub
    rw [awake_eq_univ hall] at hle
    omega

lemma awake_create (queueSize : Int) : (create n F A queueSize).Awake where
  before := by simp [create]
  after := fun hs => by cases hs

lemma Awake.rule {p p' : Pool n F A} (h : p.Awake) (hstep : Rule p p') : p'.Awake := by
  cases hstep with
  | refuse => exact ⟨h.before, h.after⟩
  | accept node q ws hcall hq hs hws =>
    refine ⟨fun _ => ?_, fun hs' => ?_⟩
    · have hcard := card_signal hws (t := { p with
        q := q, thread := p.signal ws, calls := p.calls + 1, accepted := p.accepted ++ [node] }) rfl
      have hbefore := h.before hs
      rw [hq, List.length_append, List.length_singleton]
      omega
    · rw [hs] at hs'
      cases hs'
  | sleep i hi hq hs =>
    refine ⟨fun _ => ?_, fun hs' => ?_⟩
    · simp [setThread, hq]
    · rw [setThread, hs] at hs'
      cases hs'
  | exit i hi hq hs =>
    refine ⟨fun hs' => ?_, fun _ => notWaiting_setThread rfl (h.after hs)⟩
    rw [setThread, hs] at hs'
    cases hs'
  | take i hi task q hq =>
    have hcard := Finset.card_le_card
      (awake_subset_setThread (p := p) (i := i) (w := .running task) rfl)
    refine ⟨fun hs => ?_, fun hs => notWaiting_setThread rfl (h.after hs)⟩
    have hbefore := h.before hs
    rw [hq, List.length_cons] at hbefore
    exact le_trans (by simp only; omega) hcard
  | wake i hi =>
    have hcard := Finset.card_le_card (awake_subset_setThread (p := p) (i := i) (w := .woken) rfl)
    exact ⟨fun hs => (h.before hs).trans hcard, fun hs => notWaiting_setThread rfl (h.after hs)⟩
  | finish i task hi =>
    have hcard := Finset.card_le_card (awake_subset_setThread (p := p) (i := i) (w := .ready) rfl)
    exact ⟨fun hs => (h.before hs).trans hcard, fun hs => notWaiting_setThread rfl (h.after hs)⟩
  | destroy =>
    refine ⟨fun hs => ?_, fun _ i => ?_⟩
    · cases hs
    · simp only [destroy, broadcast]
      split_ifs with hi
      · rfl
      · exact Bool.eq_false_iff.mpr hi

lemma Reachable.awake {p : Pool n F A} (h : p.Reachable) : p.Awake :=
  h.invariant awake_create fun _ _ => Awake.rule

lemma Rule.shutdown {p p' : Pool n F A} (h : Rule p p') (hs : p.shutdown = true) :
    p'.shutdown = true := by
  cases h with
  | accept node q ws hcall hq hs' hws =>
    rw [hs] at hs'
    cases hs'
  | destroy => rfl
  | _ => exact hs

/-- After shutdown no thread sleeps, now or later. -/
lemma Awake.never_sleeps {p p' : Pool n F A} (h : p.Awake) (hs : p.shutdown = true)
    (hrun : Trace.Reaches step p p') (i : Fin n) : p'.thread i ≠ .waiting := by
  have hafter : p'.Awake ∧ p'.shutdown = true :=
    hrun.invariant (P := fun p => p.Awake ∧ p.shutdown = true) (fun _ _ _ hp hstep =>
      ⟨hp.1.rule (.of_step hstep), (Rule.of_step hstep).shutdown hp.2⟩) ⟨h, hs⟩
  intro hi
  have := hafter.1.after hafter.2 i
  rw [hi] at this
  cases this

/-- No wake-up is lost and shutdown does not get stuck. -/
theorem no_lost_wakeup {p : Pool n F A} (h : p.Reachable) :
    (p.shutdown = false → min p.q.raw.contents.length n ≤ p.awake.card) ∧
    (p.shutdown = true → ∀ p', Trace.Reaches step p p' → ∀ i, p'.thread i ≠ .waiting) ∧
    ((p.q.raw.contents ≠ [] ∨ p.shutdown = true) → ∀ i, p.thread i ≠ .exited →
      ∃ j, p.thread j ≠ .exited ∧ p.thread j ≠ .waiting) := by
  refine ⟨h.awake.before, fun hs p' hrun => h.awake.never_sleeps hs hrun, ?_⟩
  intro hwork i hi
  cases hs : p.shutdown with
  | true => exact ⟨i, hi, h.awake.never_sleeps hs (.refl p) i⟩
  | false =>
    have hq : p.q.items ≠ [] := hwork.resolve_right (by simp [hs])
    have hlen := List.length_pos_of_ne_nil hq
    have hn := i.pos
    have hcard := h.awake.before hs
    obtain ⟨j, hj⟩ : p.awake.Nonempty := Finset.card_pos.mp (by omega)
    refine ⟨j, fun hout => hq (h.inv.exited j hout).2, fun hwait => ?_⟩
    rw [mem_awake, hwait] at hj
    cases hj

/-- One of two threads sleeps and a pushed task wakes it. -/
theorem no_lost_wakeup_two : ∃ p : Pool 2 Unit ℕ, p.thread 0 = .woken ∧
    (p.shutdown = false → min p.q.raw.contents.length 2 ≤ p.awake.card) ∧
    (p.shutdown = true → ∀ p', Trace.Reaches step p p' → ∀ i, p'.thread i ≠ .waiting) ∧
    ((p.q.raw.contents ≠ [] ∨ p.shutdown = true) → ∀ i, p.thread i ≠ .exited →
      ∃ j, p.thread j ≠ .exited ∧ p.thread j ≠ .waiting) := by
  have hrun : ((Trace.run step (create 2 Unit ℕ 1)
      [.enter 0, .push (some ()) (some 7) true [0]]).map fun p => p.thread 0) = some .woken := by
    decide
  obtain ⟨p, hp, hwoken⟩ := Option.map_eq_some_iff.mp hrun
  exact ⟨p, hwoken, no_lost_wakeup ⟨1, _, hp⟩⟩

end Pool

/-! ### Threads that leave -/

/-- The steps of a thread that are left outside of its tasks, once the queue is empty and nobody
sleeps. -/
def Worker.left : Worker F A → ℕ
  | .exited => 0
  | .running _ => 2
  | _ => 1

@[simp] lemma Worker.left_exited : (Worker.exited : Worker F A).left = 0 := rfl
@[simp] lemma Worker.left_ready : (Worker.ready : Worker F A).left = 1 := rfl
@[simp] lemma Worker.left_running (task : TaskNode F A) : (Worker.running task).left = 2 := rfl

namespace Pool

lemma Enters.left {p : Pool n F A} {i : Fin n} (h : p.Enters i) : (p.thread i).left = 1 := by
  rcases h with h | h <;> rw [h] <;> rfl

/-- A thread that is out stays out. -/
lemma Rule.exited {p p' : Pool n F A} (h : Rule p p') {i : Fin n} (hi : p.thread i = .exited) :
    p'.thread i = .exited := by
  have hset : ∀ j w, p.thread j ≠ .exited → (p.setThread j w).thread i = .exited := by
    intro j w hj
    have hne : i ≠ j := by
      rintro rfl
      exact hj hi
    simpa [setThread, hne] using hi
  have henters : ∀ j, p.Enters j → p.thread j ≠ .exited := by
    rintro j (hj | hj) <;> simp [hj]
  cases h with
  | refuse => exact hi
  | accept node q ws hcall hq hs hws =>
    have hnot : i ∉ ws := by
      intro hmem
      have hwaiting := signals_waiting hws hmem
      rw [hi] at hwaiting
      cases hwaiting
    simp [signal, hnot, hi]
  | sleep j hj hq hs => exact hset j _ (henters j hj)
  | exit j hj hq hs => exact hset j _ (henters j hj)
  | take j hj task q hq => exact hset j _ (henters j hj)
  | wake j hj => exact hset j _ (by simp [hj])
  | finish j task hj => exact hset j _ (by simp [hj])
  | destroy => simp [Pool.destroy, broadcast, hi, Worker.isWaiting]

/-- In the critical section after shutdown a thread leaves, or takes a task from the queue. -/
lemma critical_of_shutdown {p : Pool n F A} (hs : p.shutdown = true) (i : Fin n) :
    (p.q.items = [] ∧ p.critical i = p.setThread i .exited) ∨
      ∃ task q, p.q.items = task :: q.items ∧ p.critical i =
        { p.setThread i (.running task) with q := q, popped := p.popped ++ [task] } := by
  rcases p.critical_cases i with ⟨-, hs', -⟩ | ⟨hq, -, he⟩ | htake
  · rw [hs] at hs'
    cases hs'
  · exact .inl ⟨hq, he⟩
  · exact .inr htake

end Pool

end Ccybe
