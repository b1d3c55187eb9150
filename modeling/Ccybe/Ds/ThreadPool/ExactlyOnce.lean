import Ccybe.Ds.ThreadPool.Basic
import Ccybe.Lib.Tally

/-!
# Accepted tasks are executed once, in order

The invariant ties the history of `push_task` to the ring and to the threads: what was popped
followed by what is in the ring is what was accepted, and what was popped is what was executed
together with what the threads are executing.
-/

namespace Ccybe

open Tally

variable {n : ℕ} {F A : Type}

/-- The task that a thread is executing. -/
def Worker.task : Worker F A → Multiset (TaskNode F A)
  | .running task => {task}
  | _ => 0

@[simp] lemma Worker.task_ready : (Worker.ready : Worker F A).task = 0 := rfl
@[simp] lemma Worker.task_waiting : (Worker.waiting : Worker F A).task = 0 := rfl
@[simp] lemma Worker.task_woken : (Worker.woken : Worker F A).task = 0 := rfl
@[simp] lemma Worker.task_exited : (Worker.exited : Worker F A).task = 0 := rfl

@[simp] lemma Worker.task_running (t : TaskNode F A) : (Worker.running t).task = {t} := rfl

lemma Worker.task_of_isWaiting {w : Worker F A} (h : w.isWaiting = true) : w.task = 0 := by
  cases w <;> simp_all [Worker.isWaiting]

namespace Pool

lemma Enters.task {p : Pool n F A} {i : Fin n} (h : p.Enters i) : (p.thread i).task = 0 := by
  rcases h with h | h <;> simp [h]

lemma signals_waiting {p : Pool n F A} {ws : List (Fin n)} (h : p.signals ws = true) {i : Fin n}
    (hi : i ∈ ws) : (p.thread i).isWaiting = true := by
  rw [signals, Bool.and_eq_true, List.all_eq_true] at h
  exact h.1 i hi

/-- Waking does not touch what the threads execute. -/
lemma total_signal {p : Pool n F A} {ws : List (Fin n)} (h : p.signals ws = true) :
    total Worker.task (p.signal ws) = total Worker.task p.thread := by
  refine total_congr fun i => ?_
  unfold signal
  split_ifs with hi
  · rw [Worker.task_of_isWaiting (signals_waiting h hi), Worker.task_woken]
  · rfl

lemma total_broadcast (p : Pool n F A) :
    total Worker.task p.broadcast = total Worker.task p.thread := by
  refine total_congr fun i => ?_
  unfold broadcast
  split_ifs with hi
  · rw [Worker.task_of_isWaiting hi, Worker.task_woken]
  · rfl

/-- The invariant of the pool. -/
structure Inv (p : Pool n F A) : Prop where
  /-- Popped and queued tasks are the accepted ones, in order. -/
  order : p.popped ++ p.q.items = p.accepted
  /-- Popped tasks are executed or being executed. -/
  done : (p.executed : Multiset (TaskNode F A)) + total Worker.task p.thread = p.popped
  accepted_lt : ∀ t ∈ p.accepted, t.call < p.calls
  refused_lt : ∀ c ∈ p.refused, c < p.calls
  nodup : (p.accepted.map TaskNode.call).Nodup
  disjoint : ∀ t ∈ p.accepted, t.call ∉ p.refused
  exited : ∀ i, p.thread i = .exited → p.shutdown = true ∧ p.q.items = []

lemma inv_create (queueSize : Int) : (create n F A queueSize).Inv where
  order := by simp [create]
  done := by simp [create, total]
  accepted_lt := by simp [create]
  refused_lt := by simp [create]
  nodup := by simp [create]
  disjoint := by simp [create]
  exited := by simp [create]

/-- A thread that did not exit by this step was out before it, if it is out after it. -/
lemma exited_of_setThread {p : Pool n F A} {i j : Fin n} {w : Worker F A} (hw : w ≠ .exited)
    (h : (p.setThread i w).thread j = .exited) : p.thread j = .exited := by
  by_cases hj : j = i
  · subst hj
    simp [setThread, hw] at h
  · simpa [setThread, hj] using h

lemma Inv.rule {p p' : Pool n F A} (h : p.Inv) (hstep : Rule p p') : p'.Inv := by
  cases hstep with
  | refuse =>
    refine ⟨h.order, h.done, ?_, ?_, h.nodup, ?_, h.exited⟩
    · exact fun t ht => Nat.lt_succ_of_lt (h.accepted_lt t ht)
    · intro c hc
      rcases List.mem_append.mp hc with hc | hc
      · exact Nat.lt_succ_of_lt (h.refused_lt c hc)
      · exact Nat.lt_succ_of_le (le_of_eq (List.mem_singleton.mp hc))
    · intro t ht hc
      rcases List.mem_append.mp hc with hc | hc
      · exact h.disjoint t ht hc
      · exact absurd (h.accepted_lt t ht) (by rw [List.mem_singleton.mp hc]; exact lt_irrefl _)
  | accept node q ws hcall hq hs hws =>
    refine ⟨?_, ?_, ?_, ?_, ?_, ?_, ?_⟩
    · simp only [hq, ← List.append_assoc, h.order]
    · rw [total_signal hws]
      exact h.done
    · intro t ht
      rcases List.mem_append.mp ht with ht | ht
      · exact Nat.lt_succ_of_lt (h.accepted_lt t ht)
      · rw [List.mem_singleton.mp ht, hcall]
        exact Nat.lt_succ_self _
    · exact fun c hc => Nat.lt_succ_of_lt (h.refused_lt c hc)
    · rw [List.map_append, List.map_singleton]
      refine h.nodup.append (List.nodup_singleton _) ?_
      intro c hc hc'
      obtain ⟨t, ht, rfl⟩ := List.mem_map.mp hc
      rw [List.mem_singleton, hcall] at hc'
      exact absurd (h.accepted_lt t ht) (by rw [hc']; exact lt_irrefl _)
    · intro t ht hc
      rcases List.mem_append.mp ht with ht | ht
      · exact h.disjoint t ht hc
      · rw [List.mem_singleton.mp ht, hcall] at hc
        exact lt_irrefl _ (h.refused_lt _ hc)
    · intro i hi
      by_cases hw : i ∈ ws
      · simp [signal, hw] at hi
      · rw [(h.exited i (by simpa [signal, hw] using hi)).1] at hs
        cases hs
  | sleep i hi hq hs =>
    refine ⟨h.order, ?_, h.accepted_lt, h.refused_lt, h.nodup, h.disjoint, ?_⟩
    · rw [setThread, total_update_of_zero _ hi.task, Worker.task_waiting, add_zero]
      exact h.done
    · exact fun j hj => h.exited j (exited_of_setThread (by simp) hj)
  | exit i hi hq hs =>
    refine ⟨h.order, ?_, h.accepted_lt, h.refused_lt, h.nodup, h.disjoint, ?_⟩
    · rw [setThread, total_update_of_zero _ hi.task, Worker.task_exited, add_zero]
      exact h.done
    · exact fun _ _ => ⟨hs, hq⟩
  | take i hi task q hq =>
    refine ⟨?_, ?_, h.accepted_lt, h.refused_lt, h.nodup, h.disjoint, ?_⟩
    · have horder := h.order
      rw [hq] at horder
      simpa [setThread] using horder
    · simp only [setThread]
      rw [total_update_of_zero _ hi.task, Worker.task_running, ← add_assoc, h.done,
        ← Multiset.coe_singleton, Multiset.coe_add]
    · intro j hj
      have hout := (h.exited j (exited_of_setThread (by simp) hj)).2
      rw [hq] at hout
      cases hout
  | wake i hi =>
    refine ⟨h.order, ?_, h.accepted_lt, h.refused_lt, h.nodup, h.disjoint, ?_⟩
    · rw [setThread, total_update_of_zero _ (by rw [hi]; rfl), Worker.task_woken, add_zero]
      exact h.done
    · exact fun j hj => h.exited j (exited_of_setThread (by simp) hj)
  | finish i task hi =>
    refine ⟨h.order, ?_, h.accepted_lt, h.refused_lt, h.nodup, h.disjoint, ?_⟩
    · have hrest : total Worker.task (Function.update p.thread i .ready) + {task}
          = total Worker.task p.thread := by
        have := total_update_to_zero (s := p.thread) (i := i) (Worker.task_ready (F := F) (A := A))
        rwa [hi, Worker.task_running] at this
      simp only [setThread]
      rw [← Multiset.coe_add, Multiset.coe_singleton, add_assoc,
        add_comm ({task} : Multiset (TaskNode F A)), hrest]
      exact h.done
    · exact fun j hj => h.exited j (exited_of_setThread (by simp) hj)
  | destroy =>
    refine ⟨h.order, ?_, h.accepted_lt, h.refused_lt, h.nodup, h.disjoint, ?_⟩
    · rw [destroy, total_broadcast]
      exact h.done
    · intro i hi
      have hout : p.thread i = .exited := by
        simp only [destroy, broadcast] at hi
        split_ifs at hi
        exact hi
      exact ⟨rfl, (h.exited i hout).2⟩

lemma Reachable.inv {p : Pool n F A} (h : p.Reachable) : p.Inv :=
  h.invariant inv_create fun _ _ => Inv.rule

lemma Inv.executed_subset {p : Pool n F A} (h : p.Inv) {t : TaskNode F A}
    (ht : t ∈ p.executed) : t ∈ p.accepted := by
  have hle : (p.executed : Multiset (TaskNode F A)) ≤ p.popped := by
    rw [← h.done]
    exact Multiset.le_add_right _ _
  rw [← h.order]
  exact List.mem_append_left _ (Multiset.mem_coe.mp (Multiset.mem_of_le hle ht))

/-- Tasks leave the queue in the order in which `push_task` accepted them, none twice and none
lost; a refused task is never executed; the pop of a thread does not fail; and once all threads
are out the queue is empty and the accepted tasks are the executed ones. -/
theorem exactly_once_fifo (hn : 1 ≤ n) {p : Pool n F A} (h : p.Reachable) :
    p.popped ++ p.q.raw.contents = p.accepted ∧
    (p.accepted.map TaskNode.call).Nodup ∧
    (∀ t ∈ p.popped ++ p.executed, t.call ∉ p.refused) ∧
    ((p.q.raw.isEmpty && !p.shutdown) = false → (p.shutdown && p.q.raw.isEmpty) = false →
      p.q.pop.1 = true) ∧
    ((∀ i, p.thread i = .exited) → p.q.raw.contents = [] ∧ p.executed.Perm p.accepted) := by
  have hinv := h.inv
  refine ⟨hinv.order, hinv.nodup, ?_, pop_ok, ?_⟩
  · intro t ht
    rcases List.mem_append.mp ht with ht | ht
    · exact hinv.disjoint t (by rw [← hinv.order]; exact List.mem_append_left _ ht)
    · exact hinv.disjoint t (hinv.executed_subset ht)
  · intro hout
    have hempty : p.q.items = [] := (hinv.exited ⟨0, hn⟩ (hout _)).2
    refine ⟨hempty, Multiset.coe_eq_coe.mp ?_⟩
    have hdone := hinv.done
    rw [total_eq_zero fun i => by rw [hout i]; rfl, add_zero] at hdone
    rw [hdone, ← hinv.order, hempty, List.append_nil]

/-- Two threads and a queue of one cell: two tasks are pushed and one thread takes the first. -/
theorem exactly_once_fifo_two : ∃ p : Pool 2 Unit ℕ, p.popped.map TaskNode.args = [7] ∧
    p.popped ++ p.q.raw.contents = p.accepted ∧
    (p.accepted.map TaskNode.call).Nodup ∧
    (∀ t ∈ p.popped ++ p.executed, t.call ∉ p.refused) ∧
    ((p.q.raw.isEmpty && !p.shutdown) = false → (p.shutdown && p.q.raw.isEmpty) = false →
      p.q.pop.1 = true) ∧
    ((∀ i, p.thread i = .exited) → p.q.raw.contents = [] ∧ p.executed.Perm p.accepted) := by
  have hrun : ((Trace.run step (create 2 Unit ℕ 1)
      [.push (some ()) (some 7) true [], .push (some ()) (some 8) true [], .enter 1]).map
        fun p => p.popped.map TaskNode.args) = some [7] := by decide
  obtain ⟨p, hp, hpop⟩ := Option.map_eq_some_iff.mp hrun
  exact ⟨p, hpop, exactly_once_fifo (by decide) ⟨1, _, hp⟩⟩

end Pool

end Ccybe
