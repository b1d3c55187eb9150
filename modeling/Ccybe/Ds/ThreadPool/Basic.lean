import Ccybe.Ds.Fifo
import Ccybe.Lib.Trace
import Mathlib.Logic.Function.Basic
import Mathlib.Data.Fintype.Basic
import Mathlib.Data.Fintype.Pi

/-!
# The thread pool (`ds/threadpool.c`)

Between `pthread_mutex_lock` and `pthread_mutex_unlock` (or `pthread_cond_wait`) a thread runs
alone, so each such section is one step. The events say which thread goes next, what `malloc`
answers, and whom the operating system wakes.

The last five fields of `Pool` are history: nothing in the program reads them.
-/

namespace Ccybe

variable {n : ℕ} {F A : Type}

/-- `task_node_t`; `call` numbers the call of `push_task` that made it. -/
structure TaskNode (F A : Type) where
  call : ℕ
  func : F
  args : A
  deriving DecidableEq

/-- Where a thread is in the loop of `start_pool`. -/
inductive Worker (F A : Type) where
  | ready                           -- before `pthread_mutex_lock`
  | waiting                         -- blocked in `pthread_cond_wait`
  | woken                           -- in `pthread_cond_wait`, about to take the lock again
  | running (task : TaskNode F A)   -- in `(*(task.func))(task.args)`
  | exited
  deriving DecidableEq

def Worker.isWaiting : Worker F A → Bool
  | .waiting => true
  | _ => false

/-- `thread_pool_t` with its `n` threads. -/
structure Pool (n : ℕ) (F A : Type) where
  q : Fifo (TaskNode F A)
  shutdown : Bool
  thread : Fin n → Worker F A
  calls : ℕ
  accepted : List (TaskNode F A)
  refused : List ℕ
  popped : List (TaskNode F A)
  executed : List (TaskNode F A)

inductive Pool.Event (n : ℕ) (F A : Type) where
  | push (func : Option F) (args : Option A) (mem : Bool) (ws : List (Fin n))
  | enter (i : Fin n)
  | wake (i : Fin n)
  | finish (i : Fin n)
  | destroy

namespace Pool

/-- The pool that `create_pool` returns. -/
def create (n : ℕ) (F A : Type) (queueSize : Int) : Pool n F A :=
  ⟨.init queueSize, false, fun _ => .ready, 0, [], [], [], []⟩

/-- What `pthread_cond_signal` may do: it wakes only waiting threads, and at least one of them
if there is one. -/
def signals (p : Pool n F A) (ws : List (Fin n)) : Bool :=
  ws.all (fun i => (p.thread i).isWaiting) &&
    (!ws.isEmpty || decide (∀ i, (p.thread i).isWaiting = false))

/-- The threads after those in `ws` were woken. -/
def signal (p : Pool n F A) (ws : List (Fin n)) (i : Fin n) : Worker F A :=
  if i ∈ ws then .woken else p.thread i

/-- The threads after `pthread_cond_broadcast`. -/
def broadcast (p : Pool n F A) (i : Fin n) : Worker F A :=
  if (p.thread i).isWaiting then .woken else p.thread i

def refuse (p : Pool n F A) : Pool n F A :=
  { p with calls := p.calls + 1, refused := p.refused ++ [p.calls] }

/-- `push_task`, null pointers being `none`; the result is `none` if `ws` is not what a signal
may wake. -/
def pushTask (p : Pool n F A) (func : Option F) (args : Option A) (mem : Bool)
    (ws : List (Fin n)) : Option (Bool × Pool n F A) :=
  match func, args with
  | some func, some args =>
    if p.shutdown then some (false, p.refuse)
    else
      let node : TaskNode F A := ⟨p.calls, func, args⟩
      match p.q.push node mem with
      | (false, q) => some (false, { p.refuse with q := q })
      | (true, q) =>
        if p.signals ws then
          some (true, { p with
            q := q, thread := p.signal ws, calls := p.calls + 1,
            accepted := p.accepted ++ [node] })
        else none
  | _, _ => some (false, p.refuse)

def setThread (p : Pool n F A) (i : Fin n) (w : Worker F A) : Pool n F A :=
  { p with thread := Function.update p.thread i w }

/-- The critical section in the loop of `start_pool`, from taking the lock to giving it back. -/
def critical (p : Pool n F A) (i : Fin n) : Pool n F A :=
  if p.q.raw.isEmpty && !p.shutdown then p.setThread i .waiting
  else if p.shutdown && p.q.raw.isEmpty then p.setThread i .exited
  else match p.q.pop with
    | (true, some task, q) =>
      { p.setThread i (.running task) with q := q, popped := p.popped ++ [task] }
    | (_, _, q) => { p.setThread i .ready with q := q }    -- if (!ok) continue

/-- The critical section of `destroy_pool`. -/
def destroy (p : Pool n F A) : Pool n F A := { p with shutdown := true, thread := p.broadcast }

def step (p : Pool n F A) : Event n F A → Option (Pool n F A)
  | .push func args mem ws => (p.pushTask func args mem ws).map Prod.snd
  | .enter i =>
    match p.thread i with
    | .ready | .woken => some (p.critical i)
    | _ => none
  | .wake i =>
    match p.thread i with
    | .waiting => some (p.setThread i .woken)
    | _ => none
  | .finish i =>
    match p.thread i with
    | .running task => some { p.setThread i .ready with executed := p.executed ++ [task] }
    | _ => none
  | .destroy => some p.destroy

/-- The pool `p` is reached from a new one with some queue size. -/
def Reachable (p : Pool n F A) : Prop :=
  ∃ queueSize : Int, Trace.Reaches step (create n F A queueSize) p

/-! ### What a step can do -/

/-- A thread that is about to enter its critical section. -/
def Enters (p : Pool n F A) (i : Fin n) : Prop := p.thread i = .ready ∨ p.thread i = .woken

/-- The steps of a pool, one constructor for each outcome. -/
inductive Rule (p : Pool n F A) : Pool n F A → Prop where
  | refuse : Rule p p.refuse
  | accept (node : TaskNode F A) (q : Fifo (TaskNode F A)) (ws : List (Fin n))
      (hcall : node.call = p.calls) (hq : q.items = p.q.items ++ [node])
      (hs : p.shutdown = false) (hws : p.signals ws = true) :
      Rule p { p with
        q := q, thread := p.signal ws, calls := p.calls + 1, accepted := p.accepted ++ [node] }
  | sleep (i : Fin n) (hi : p.Enters i) (hq : p.q.items = []) (hs : p.shutdown = false) :
      Rule p (p.setThread i .waiting)
  | exit (i : Fin n) (hi : p.Enters i) (hq : p.q.items = []) (hs : p.shutdown = true) :
      Rule p (p.setThread i .exited)
  | take (i : Fin n) (hi : p.Enters i) (task : TaskNode F A) (q : Fifo (TaskNode F A))
      (hq : p.q.items = task :: q.items) :
      Rule p { p.setThread i (.running task) with q := q, popped := p.popped ++ [task] }
  | wake (i : Fin n) (hi : p.thread i = .waiting) : Rule p (p.setThread i .woken)
  | finish (i : Fin n) (task : TaskNode F A) (hi : p.thread i = .running task) :
      Rule p { p.setThread i .ready with executed := p.executed ++ [task] }
  | destroy : Rule p p.destroy

/-- `push_task` refuses and leaves the pool as it is, or appends the node and signals. -/
lemma pushTask_cases {p : Pool n F A} {func : Option F} {args : Option A} {mem ok : Bool}
    {ws : List (Fin n)} {p' : Pool n F A} (h : p.pushTask func args mem ws = some (ok, p')) :
    (ok = false ∧ p' = p.refuse) ∨
      (ok = true ∧ ∃ f a q, func = some f ∧ args = some a ∧
        q.items = p.q.items ++ [⟨p.calls, f, a⟩] ∧ p.shutdown = false ∧ p.signals ws = true ∧
        p' = { p with
          q := q, thread := p.signal ws, calls := p.calls + 1,
          accepted := p.accepted ++ [⟨p.calls, f, a⟩] }) := by
  unfold pushTask at h
  split at h
  · rename_i f a
    by_cases hs : p.shutdown = true
    · rw [if_pos hs] at h
      cases h
      exact .inl ⟨rfl, rfl⟩
    · rw [if_neg hs] at h
      rw [Bool.not_eq_true] at hs
      rcases p.q.push_cases ⟨p.calls, f, a⟩ mem with hq | ⟨q, hq, hitems⟩
      · simp only [hq] at h
        cases h
        exact .inl ⟨rfl, rfl⟩
      · simp only [hq] at h
        split_ifs at h with hws
        cases h
        exact .inr ⟨rfl, f, a, q, rfl, rfl, hitems, hs, hws, rfl⟩
  · cases h
    exact .inl ⟨rfl, rfl⟩

/-- The critical section: sleep, leave, or take the task at the front. -/
lemma critical_cases (p : Pool n F A) (i : Fin n) :
    (p.q.items = [] ∧ p.shutdown = false ∧ p.critical i = p.setThread i .waiting) ∨
      (p.q.items = [] ∧ p.shutdown = true ∧ p.critical i = p.setThread i .exited) ∨
      ∃ task q, p.q.items = task :: q.items ∧ p.critical i =
        { p.setThread i (.running task) with q := q, popped := p.popped ++ [task] } := by
  cases hitems : p.q.items with
  | nil =>
    have hempty := p.q.isEmpty_iff.mpr hitems
    cases hs : p.shutdown with
    | false => exact .inl ⟨rfl, rfl, by simp [critical, hempty, hs]⟩
    | true => exact .inr (.inl ⟨rfl, rfl, by simp [critical, hempty, hs]⟩)
  | cons task xs =>
    obtain ⟨q, hpop, hq⟩ := Fifo.pop_cons hitems
    have hempty : p.q.raw.isEmpty = false := by
      rw [Bool.eq_false_iff, Ne, p.q.isEmpty_iff, hitems]
      exact List.cons_ne_nil task xs
    exact .inr (.inr ⟨task, q, by rw [hq], by simp [critical, hempty, hpop]⟩)

/-- The pop at the end of the critical section, which is reached with a task in the queue or
with neither of the two tests before it, does not fail. -/
lemma pop_ok {p : Pool n F A} (hwait : (p.q.raw.isEmpty && !p.shutdown) = false)
    (hexit : (p.shutdown && p.q.raw.isEmpty) = false) : p.q.pop.1 = true := by
  cases hitems : p.q.items with
  | nil =>
    have hempty := p.q.isEmpty_iff.mpr hitems
    rw [hempty] at hwait hexit
    cases hs : p.shutdown <;> simp [hs] at hwait hexit
  | cons task xs =>
    obtain ⟨q, hpop, -⟩ := Fifo.pop_cons hitems
    rw [hpop]

lemma step_enter {p p' : Pool n F A} {i : Fin n} (h : p.step (.enter i) = some p') :
    p.Enters i ∧ p' = p.critical i := by
  simp only [step] at h
  split at h
  · rename_i hi
    exact ⟨.inl hi, (Option.some.inj h).symm⟩
  · rename_i hi
    exact ⟨.inr hi, (Option.some.inj h).symm⟩
  · cases h

lemma step_wake {p p' : Pool n F A} {i : Fin n} (h : p.step (.wake i) = some p') :
    p.thread i = .waiting ∧ p' = p.setThread i .woken := by
  simp only [step] at h
  split at h
  · rename_i hi
    exact ⟨hi, (Option.some.inj h).symm⟩
  · cases h

lemma step_finish {p p' : Pool n F A} {i : Fin n} (h : p.step (.finish i) = some p') :
    ∃ task, p.thread i = .running task ∧
      p' = { p.setThread i .ready with executed := p.executed ++ [task] } := by
  simp only [step] at h
  split at h
  · rename_i task hi
    exact ⟨task, hi, (Option.some.inj h).symm⟩
  · cases h

lemma Rule.of_step {p p' : Pool n F A} {e : Event n F A} (h : p.step e = some p') :
    Rule p p' := by
  cases e with
  | push func args mem ws =>
    simp only [step, Option.map_eq_some_iff] at h
    obtain ⟨⟨ok, p₁⟩, hpush, rfl⟩ := h
    rcases pushTask_cases hpush with ⟨-, rfl⟩ | ⟨-, f, a, q, -, -, hq, hs, hws, rfl⟩
    · exact .refuse
    · exact .accept ⟨p.calls, f, a⟩ q ws rfl hq hs hws
  | enter i =>
    obtain ⟨hi, rfl⟩ := step_enter h
    rcases p.critical_cases i with ⟨hq, hs, he⟩ | ⟨hq, hs, he⟩ | ⟨task, q, hq, he⟩
    · rw [he]
      exact .sleep i hi hq hs
    · rw [he]
      exact .exit i hi hq hs
    · rw [he]
      exact .take i hi task q hq
  | wake i =>
    obtain ⟨hi, rfl⟩ := step_wake h
    exact .wake i hi
  | finish i =>
    obtain ⟨task, hi, rfl⟩ := step_finish h
    exact .finish i task hi
  | destroy =>
    cases h
    exact .destroy

/-- A thread goes on with its task until it finishes it. -/
lemma running_of_step {p p' : Pool n F A} {e : Event n F A} (h : p.step e = some p') {i : Fin n}
    {task : TaskNode F A} (hi : p.thread i = .running task) (he : e ≠ .finish i) :
    p'.thread i = .running task := by
  have hset : ∀ j w, p.thread j ≠ .running task → (p.setThread j w).thread i = .running task := by
    intro j w hj
    have hne : i ≠ j := by
      rintro rfl
      exact hj hi
    simpa [setThread, hne] using hi
  cases e with
  | push func args mem ws =>
    simp only [step, Option.map_eq_some_iff] at h
    obtain ⟨⟨ok, p₁⟩, hpush, rfl⟩ := h
    rcases pushTask_cases hpush with ⟨-, rfl⟩ | ⟨-, f, a, q, -, -, -, -, hws, rfl⟩
    · exact hi
    · simp only [signals, Bool.and_eq_true, List.all_eq_true] at hws
      have hnot : i ∉ ws := by
        intro hmem
        have hwaiting := hws.1 i hmem
        rw [hi] at hwaiting
        cases hwaiting
      simp [signal, hnot, hi]
  | enter j =>
    obtain ⟨hj, rfl⟩ := step_enter h
    have hne : p.thread j ≠ .running task := by
      rcases hj with hj | hj
      · simp [hj]
      · simp [hj]
    rcases p.critical_cases j with ⟨-, -, he⟩ | ⟨-, -, he⟩ | ⟨task', q, -, he⟩
    · rw [he]
      exact hset j _ hne
    · rw [he]
      exact hset j _ hne
    · rw [he]
      exact hset j _ hne
  | wake j =>
    obtain ⟨hj, rfl⟩ := step_wake h
    exact hset j _ (by simp [hj])
  | finish j =>
    obtain ⟨task', -, rfl⟩ := step_finish h
    have hne : i ≠ j := by
      rintro rfl
      exact he rfl
    simpa [setThread, hne] using hi
  | destroy =>
    cases h
    simp [destroy, broadcast, hi, Worker.isWaiting]

/-- What holds of a new pool and is kept by every rule holds of every reachable pool. -/
lemma Reachable.invariant {P : Pool n F A → Prop} (hinit : ∀ queueSize, P (create n F A queueSize))
    (hrule : ∀ p p', P p → Rule p p' → P p') {p : Pool n F A} (h : Reachable p) : P p := by
  obtain ⟨queueSize, h⟩ := h
  exact h.invariant (fun p e p' hp hstep => hrule p p' hp (.of_step hstep)) (hinit queueSize)

end Pool

end Ccybe
