import Ccybe.Ds.ThreadPool.Wakeup
import Ccybe.Http.Segmentation

/-!
# The workers come to an end

When `destroy_pool` has set `shutdown`, nothing comes into the queue any more and no thread goes to
sleep. Each step of a worker brings it nearer to the end of its task or of the queue, so that the
workers have finitely many steps left, and as long as one of them is not out, it can take a step.
When the threads are joined, every task was executed.
-/

namespace Ccybe

open CSem Trace Tally

/-- The most steps that are left in `handle_conn`. -/
def HandlePoint.left : HandlePoint → ℕ
  | .away => 0
  | .register _ _ => 1
  | .generate _ _ _ => 2
  | .lookup _ _ _ => 3
  | .entered _ => 4

@[simp] lemma HandlePoint.left_away : HandlePoint.away.left = 0 := rfl
@[simp] lemma HandlePoint.left_entered (t : Addr) : (HandlePoint.entered t).left = 4 := rfl

/-- The loop is past the broadcast of `destroy_pool`. -/
def LoopPoint.joins : LoopPoint → Bool
  | .joining | .freeList | .returned _ => true
  | _ => false

/-- The loop is past `destroy_pool`. -/
def LoopPoint.joined : LoopPoint → Bool
  | .freeList | .returned _ => true
  | _ => false

def Label.isWorker {n : ℕ} {W : Type} : Label n W → Bool
  | .worker _ _ => true
  | _ => false

namespace Server

variable {n : ℕ} {W : Type}

/-! ### The loop and the pool -/

/-- `shutdown` is set by `destroy_pool` and by nobody else, and the threads are out when it has
returned. -/
structure Joins (s : Server n W) : Prop where
  shutdown : s.pool.shutdown = s.loop.joins
  exited : s.loop.joined = true → ∀ i, s.pool.thread i = .exited

lemma Moves.joins {app : App W} {s : Server n W} {p : LoopPoint} (h : s.Moves app p) :
    p.joins = s.loop.joins := by
  cases h with
  | listened ok h =>
    rw [h]
    cases ok <;> rfl
  | tested h =>
    rw [h]
    cases s.shutdownSignal <;> rfl
  | joined h hexit =>
    rw [h]
    rfl
  | interrupted h => simp [h, LoopPoint.joins]
  | pollFailed h => simp [h, LoopPoint.joins]
  | batchEnd h => simp [h, LoopPoint.joins]
  | toAccept udata es h => simp [h, LoopPoint.joins]
  | toRead ident a es node mem buf h hne hnode hbuf => simp [h, LoopPoint.joins]
  | toWrite ident t es node h hnode => simp [h, LoopPoint.joins]
  | accepted es h => simp [h, LoopPoint.joins]
  | received es client buf buf' chunks chunk mem h hbuf => simp [h, LoopPoint.joins]
  | dropReading es client buf chunks h => simp [h, LoopPoint.joins]
  | closedListener h => simp [h, LoopPoint.joins]

lemma Moves.exited {app : App W} {s : Server n W} {p : LoopPoint} (h : s.Moves app p)
    (hp : p.joined = true) : ∀ i, s.pool.thread i = .exited := by
  cases h with
  | listened ok h => cases ok <;> cases hp
  | tested h => cases hs : s.shutdownSignal <;> simp [hs, LoopPoint.joined] at hp
  | joined h hexit => exact hexit
  | _ => cases hp

lemma Rule.joins {app : App W} {s s' : Server n W} {l : Label n W} (h : Rule app s l s')
    (hs : s.Joins) : s'.Joins := by
  have hworker : ∀ e, s.pool.step e = some s'.pool → s'.pool.shutdown = s.pool.shutdown →
      s'.loop = s.loop → s'.Joins := by
    intro e he hshutdown hloop
    refine ⟨by rw [hshutdown, hloop, hs.shutdown], fun hjoined i => ?_⟩
    rw [hloop] at hjoined
    exact (Pool.Rule.of_step he).exited (hs.exited hjoined i)
  cases h with
  | move a p hp => exact ⟨hs.shutdown.trans hp.joins.symm, hp.exited⟩
  | signal => exact ⟨hs.shutdown, hs.exited⟩
  | fault => exact ⟨hs.shutdown, hs.exited⟩
  | handle => exact ⟨hs.shutdown, hs.exited⟩
  | generate => exact ⟨hs.shutdown, hs.exited⟩
  | register => exact ⟨hs.shutdown, hs.exited⟩
  | enter i p hp =>
    refine hworker _ hp ?_ rfl
    obtain ⟨-, rfl⟩ := Pool.step_enter hp
    rcases s.pool.critical_cases i with ⟨-, -, he⟩ | ⟨-, -, he⟩ | ⟨task, q, -, he⟩ <;>
      exact (congrArg Pool.shutdown he).trans rfl
  | wake i p hp =>
    refine hworker _ hp ?_ rfl
    obtain ⟨-, rfl⟩ := Pool.step_wake hp
    rfl
  | finish i p h hp =>
    refine hworker _ hp ?_ rfl
    obtain ⟨task, -, rfl⟩ := Pool.step_finish hp
    rfl
  | push es t mem ws r h hr =>
    refine ⟨?_, fun hj => by cases hj⟩
    have hshutdown := hs.shutdown
    rw [h] at hshutdown
    rcases Pool.pushTask_cases hr with ⟨-, he⟩ | ⟨-, f, a, q, -, -, -, -, -, he⟩ <;>
      exact (congrArg Pool.shutdown he).trans hshutdown
  | destroyPool h => exact ⟨rfl, fun hj => by cases hj⟩
  | freeList h =>
    have hshutdown := hs.shutdown
    rw [h] at hshutdown
    exact ⟨hshutdown, fun _ => hs.exited (by rw [h]; rfl)⟩
  | accept => exact ⟨hs.shutdown, hs.exited⟩
  | _ => exact ⟨hs.shutdown.trans (by simp [LoopPoint.joins, Server.done, *]), fun hj => by cases hj⟩

lemma Reachable.joins {app : App W} {s : Server n W} (h : Reachable app s) : s.Joins :=
  h.invariant ⟨rfl, fun hj => by cases hj⟩ fun _ _ _ _ hs hrule => hrule.joins hs

/-! ### Steps that are left -/

/-- A bound on the steps that the workers have left. -/
def workLeft (s : Server n W) : ℕ :=
  if s.fault.isSome then 0
  else 1 + 6 * s.pool.q.items.length + total Worker.left s.pool.thread +
    total HandlePoint.left s.handling

lemma workLeft_of_none {s : Server n W} (h : s.fault = none) :
    s.workLeft = 1 + 6 * s.pool.q.items.length + total Worker.left s.pool.thread +
      total HandlePoint.left s.handling := by
  simp [workLeft, h]

/-- With less in the queue, at the threads and in `handle_conn` there is less work left. -/
lemma workLeft_lt {s s' : Server n W} (h : s.fault = none) (h' : s'.fault = none)
    (hlt : 6 * s'.pool.q.items.length + total Worker.left s'.pool.thread +
        total HandlePoint.left s'.handling <
      6 * s.pool.q.items.length + total Worker.left s.pool.thread +
        total HandlePoint.left s.handling) : s'.workLeft < s.workLeft := by
  rw [workLeft_of_none h, workLeft_of_none h']
  omega

lemma workLeft_fail (s : Server n W) (f : Fault) : (s.fail f).workLeft = 0 := rfl

lemma HandleMoves.left {app : App W} {s : Server n W} {i : Fin n} {p : HandlePoint}
    (h : s.HandleMoves app i p) : p.left < (s.handling i).left := by
  cases h with
  | badRequest t node h => simp [h, HandlePoint.left]
  | parsedGet t node text ok req h => simp [h, HandlePoint.left]
  | parsedOther t node text ok req method h => simp [h, HandlePoint.left]
  | found t client req h => simp [h, HandlePoint.left]
  | registerFailed t client h => simp [h, HandlePoint.left]

/-- A worker that goes on in `handle_conn` has fewer steps left. -/
lemma total_left_lt {s : Server n W} {i : Fin n} {p : HandlePoint}
    (h : p.left < (s.handling i).left) :
    total HandlePoint.left (Function.update s.handling i p) < total HandlePoint.left s.handling := by
  have htotal := total_update HandlePoint.left s.handling i p
  omega

/-- A thread that is about to enter its critical section is not in `handle_conn`. -/
lemma Busy.away {s : Server n W} (hbusy : s.Busy) {i : Fin n} (hi : s.pool.Enters i) :
    s.handling i = .away := by
  by_contra hne
  obtain ⟨task, htask⟩ := hbusy i hne
  rcases hi with hi | hi <;> rw [htask] at hi <;> cases hi

/-- After shutdown the critical section brings a thread out, or takes a task. -/
lemma workLeft_enter {s : Server n W} (hfault : s.fault = none) (hbusy : s.Busy)
    (hshutdown : s.pool.shutdown = true) {i : Fin n} {p : Pool n TaskFunc Addr}
    (hp : s.pool.step (.enter i) = some p) :
    ({ s.setHandling i (HandlePoint.ofWorker (p.thread i)) with pool := p } : Server n W).workLeft <
      s.workLeft := by
  obtain ⟨henters, rfl⟩ := Pool.step_enter hp
  have haway := hbusy.away henters
  have hleft := henters.left
  refine workLeft_lt hfault hfault ?_
  rcases Pool.critical_of_shutdown hshutdown i with ⟨hq, he⟩ | ⟨task, q, hq, he⟩
  · have hthread := total_update Worker.left s.pool.thread i .exited
    have hhandling := total_update HandlePoint.left s.handling i .away
    rw [hleft, Worker.left_exited] at hthread
    rw [haway] at hhandling
    simp only [he, Pool.setThread, Function.update_self, HandlePoint.ofWorker,
      setHandling_handling]
    omega
  · have hthread := total_update Worker.left s.pool.thread i (.running task)
    have hhandling := total_update HandlePoint.left s.handling i (.entered task.args)
    rw [hleft, Worker.left_running] at hthread
    rw [haway, HandlePoint.left_away, HandlePoint.left_entered] at hhandling
    simp only [he, Pool.setThread, Function.update_self, HandlePoint.ofWorker,
      setHandling_handling, hq, List.length_cons]
    omega

/-- After the broadcast no step makes more work, and the steps of workers make it less. -/
lemma step_workLeft {app : App W} {s s' : Server n W} {l : Label n W} (hreach : Reachable app s)
    (hjoins : s.loop.joins = true) (h : s.step app l = some s') :
    s'.workLeft + (if l.isWorker then 1 else 0) ≤ s.workLeft := by
  obtain ⟨hfault, hrule⟩ := Rule.of_step h
  have hshutdown : s.pool.shutdown = true := hreach.joins.shutdown.trans hjoins
  have hnot : ∀ p : LoopPoint, s.loop = p → p.joins = true := fun p hp => hp ▸ hjoins
  cases hrule with
  | fault l f hf =>
    rw [workLeft_fail, workLeft_of_none hfault]
    split_ifs <;> omega
  | enter i p hp => exact workLeft_enter hfault hreach.busy hshutdown hp
  | wake i p hp =>
    have hawake := hreach.pool.awake.after hshutdown i
    rw [(Pool.step_wake hp).1] at hawake
    cases hawake
  | finish i p hi hp =>
    obtain ⟨task, hi, rfl⟩ := Pool.step_finish hp
    have hthread := total_update Worker.left s.pool.thread i .ready
    rw [hi, Worker.left_running, Worker.left_ready] at hthread
    refine workLeft_lt hfault hfault ?_
    simp only [Pool.setThread]
    omega
  | handle i a p hp =>
    refine workLeft_lt hfault hfault ?_
    exact Nat.add_lt_add_left (total_left_lt hp.left) _
  | generate i t client req w node hi hnode =>
    refine workLeft_lt hfault hfault (Nat.add_lt_add_left (total_left_lt ?_) _)
    simp [hi, HandlePoint.left]
  | register i t client hi hopen =>
    refine workLeft_lt hfault hfault (Nat.add_lt_add_left (total_left_lt ?_) _)
    simp [hi, HandlePoint.left]
  | push es t mem ws r hloop hr => cases hnot _ hloop
  | destroyPool hloop => cases hnot _ hloop
  | _ => exact le_refl _

lemma workLeft_le (s : Server n W) : s.workLeft ≤ 1 + 6 * (s.pool.q.items.length + n) := by
  have hthreads : total Worker.left s.pool.thread ≤ Fintype.card (Fin n) * 2 :=
    total_le fun i => by cases s.pool.thread i <;> simp [Worker.left]
  have hpoints : total HandlePoint.left s.handling ≤ Fintype.card (Fin n) * 4 :=
    total_le fun i => by cases s.handling i <;> simp [HandlePoint.left]
  rw [Fintype.card_fin] at hthreads hpoints
  unfold workLeft
  split_ifs <;> omega

/-! ### A worker that is not out can take a step -/

/-- Only a thread that is out has nothing to do; where a request is answered, the file system has to
answer something. -/
lemma worker_moves [Nonempty W] (app : App W) {s : Server n W} (hfault : s.fault = none) {i : Fin n}
    (hi : s.pool.thread i ≠ .exited) : ∃ a, s.step app (.worker i a) ≠ none := by
  have hstep : ∀ a, s.step app (.worker i a) = s.workerStep app i a := by
    intro a
    simp [step, hfault]
  simp only [hstep]
  cases hthread : s.pool.thread i with
  | exited => exact absurd hthread hi
  | ready => exact ⟨.enter, by simp [workerStep, Pool.step, hthread]⟩
  | woken => exact ⟨.enter, by simp [workerStep, Pool.step, hthread]⟩
  | waiting => exact ⟨.wake, by simp [workerStep, Pool.step, hthread]⟩
  | running task =>
    cases hpoint : s.handling i with
    | away => exact ⟨.finish, by simp [workerStep, Pool.step, hpoint, hthread]⟩
    | entered t => exact ⟨.parse, by simp [workerStep, hpoint]⟩
    | lookup t client req =>
      refine ⟨.lookup, ?_⟩
      simp only [workerStep, hpoint]
      split_ifs <;> exact Option.some_ne_none _
    | generate t client req =>
      obtain ⟨w⟩ := ‹Nonempty W›
      exact ⟨.generate w, by simp [workerStep, hpoint]⟩
    | register t client => exact ⟨.register false, by simp [workerStep, hpoint]⟩

lemma exited_of_stuck [Nonempty W] {app : App W} {s : Server n W}
    (hstuck : ∀ i a, s.step app (.worker i a) = none) :
    s.fault.isSome ∨ ∀ i, s.pool.thread i = .exited := by
  cases hfault : s.fault with
  | some f => exact .inl rfl
  | none =>
    refine .inr fun i => ?_
    by_contra hi
    obtain ⟨a, ha⟩ := worker_moves app hfault hi
    exact ha (hstuck i a)

lemma Reachable.step_workLeft (app : App W) (s : Server n W) (l : Label n W) (s' : Server n W)
    (hs : Reachable app s ∧ s.loop.joins = true) (h : s.step app l = some s') :
    (Reachable app s' ∧ s'.loop.joins = true) ∧
      s'.workLeft + (if l.isWorker then 1 else 0) ≤ s.workLeft := by
  have hreach : Reachable app s' := hs.1.trans (.of_step h)
  refine ⟨⟨hreach, ?_⟩, Server.step_workLeft hs.1 hs.2 h⟩
  rw [← hreach.joins.shutdown]
  rcases (Rule.of_step h).2.pool with heq | ⟨e, he, -⟩
  · rw [heq, hs.1.joins.shutdown, hs.2]
  · exact (Pool.Rule.of_step he).shutdown (hs.1.joins.shutdown.trans hs.2)

/-- While `destroy_pool` waits for the threads, the workers have at most six steps for each queued
task and each thread left, in whatever order the threads take turns; and they do not stop before all
threads are out, so that `destroy_pool` goes on, unless there was a fault. -/
theorem workers_finish [Nonempty W] {app : App W} {s : Server n W} (h : Reachable app s)
    (hloop : s.loop = .joining) {ls : List (Label n W)} {s' : Server n W}
    (hrun : run (step app) s ls = some s') :
    ls.countP Label.isWorker ≤ 1 + 6 * (s.pool.q.raw.contents.length + n) ∧
      ((∀ i a, s'.step app (.worker i a) = none) →
        s'.fault.isSome ∨ ∀ i, s'.pool.thread i = .exited) := by
  have hjoins : s.loop.joins = true := by rw [hloop]; rfl
  refine ⟨?_, exited_of_stuck⟩
  have hcount := (countP_add_rank_le (Reachable.step_workLeft app) hrun ⟨h, hjoins⟩).2
  exact (Nat.le_add_right _ _).trans (hcount.trans s.workLeft_le)

/-- A task is queued when `destroy_pool` waits, and the thread takes it. -/
theorem workers_finish_queued :
    ∃ s s' : Server 1 Unit, s.pool.q.raw.contents.length = 1 ∧ s'.pool.popped.length = 1 ∧
      [Label.worker 0 .enter, .worker 0 .parse].countP (Label.isWorker (n := 1) (W := Unit)) ≤
        1 + 6 * (s.pool.q.raw.contents.length + 1) ∧
      ((∀ i a, s'.step Demo.app (.worker i a) = none) →
        s'.fault.isSome ∨ ∀ i, s'.pool.thread i = .exited) := by
  let toJoin : List (Label 1 Unit) := Demo.start ++ Demo.poll [.read 3 none false] ++
    Demo.accept 5 ++ Demo.next ++ Demo.poll [.read 5 (some 0) false] ++ Demo.read Demo.request ++
    Demo.stop
  have hrun : ((run (step Demo.app) (init 1 Unit) toJoin).map fun s =>
      (s.pool.q.raw.contents.length, s.loop matches .joining,
        (run (step Demo.app) s [.worker 0 .enter, .worker 0 .parse]).map fun s' =>
          s'.pool.popped.length)) = some (1, true, some 1) := by
    decide +kernel
  obtain ⟨s, hs, heq⟩ := Option.map_eq_some_iff.mp hrun
  simp only [Prod.mk.injEq] at heq
  obtain ⟨hlen, hjoining, hnext⟩ := heq
  obtain ⟨s', hs', hpopped⟩ := Option.map_eq_some_iff.mp hnext
  have hloop : s.loop = .joining := by
    cases hpoint : s.loop with
    | joining => rfl
    | _ => simp [hpoint] at hjoining
  exact ⟨s, s', hlen, hpopped, workers_finish ⟨_, hs⟩ hloop hs'⟩

lemma loop_of_worker {app : App W} {s s' : Server n W} {l : Label n W} (hl : l.isWorker = true)
    (h : s.step app l = some s') : s'.loop = s.loop := by
  cases (Rule.of_step h).2 with
  | fault l f hf => rfl
  | enter i p hp => rfl
  | wake i p hp => rfl
  | handle i a p hp => rfl
  | generate i t client req w node hi hnode => rfl
  | register i t client hi hopen => rfl
  | finish i p hi hp => rfl
  | _ => cases hl

lemma loop_of_workers {app : App W} {s s' : Server n W} {ls : List (Label n W)}
    (hls : ∀ l ∈ ls, l.isWorker = true) (h : run (step app) s ls = some s') : s'.loop = s.loop := by
  induction ls generalizing s with
  | nil =>
    cases h
    rfl
  | cons l ls ih =>
    obtain ⟨hl, hls⟩ := List.forall_mem_cons.mp hls
    obtain ⟨t, ht, hrun⟩ := run_cons_eq_some.mp h
    rw [ih hls hrun, loop_of_worker hl ht]

/-- When all threads are out, `serve_and_listen` returns. -/
lemma returns_of_exited {app : App W} {s : Server n W} (hfault : s.fault = none)
    (hloop : s.loop = .joining) (hexit : ∀ i, s.pool.thread i = .exited) :
    ∃ s' list, Reaches (step app) s s' ∧ s'.loop = .returned list := by
  have hjoined : s.step app (.loop .close) = some { s with loop := .freeList } := by
    simp [step, hfault, loopStep, hloop, hexit]
  have hfreed : step app { s with loop := .freeList } (.loop .close) = some { s with
      conns := s.conns.freeList, loop := .returned s.conns.clients.freeList.2 } := by
    simp [step, hfault, loopStep]
  exact ⟨_, _, (Reaches.of_step hjoined).trans (.of_step hfreed), rfl⟩

/-- However far the workers are when `destroy_pool` waits for them, they can be scheduled such that
`serve_and_listen` returns, if there is no fault. -/
theorem join_returns [Nonempty W] {app : App W} {s : Server n W} (h : Reachable app s)
    (hloop : s.loop = .joining) :
    ∃ s', Reaches (step app) s s' ∧ (s'.fault.isSome ∨ ∃ list, s'.loop = .returned list) := by
  have hjoins : s.loop.joins = true := by rw [hloop]; rfl
  obtain ⟨ls, t, hrun, hls, hstuck⟩ :=
    exists_exhausted (Reachable.step_workLeft app) ⟨h, hjoins⟩
  cases hfault : t.fault with
  | some f => exact ⟨t, ⟨ls, hrun⟩, .inl (by rw [hfault]; rfl)⟩
  | none =>
    have hexit := (exited_of_stuck fun i a => hstuck (.worker i a) rfl).resolve_left (by simp [hfault])
    obtain ⟨s', list, hclose, hreturned⟩ :=
      returns_of_exited hfault ((loop_of_workers hls hrun).trans hloop) hexit
    exact ⟨s', Reaches.trans ⟨ls, hrun⟩ hclose, .inr ⟨list, hreturned⟩⟩

/-- The server stops with a client that is open, and the thread has not started yet. -/
theorem join_returns_signal :
    ∃ s : Server 1 Unit, (s.conns.fds 5).isSome ∧ s.pool.thread 0 = .ready ∧
      ∃ s', Reaches (step Demo.app) s s' ∧ (s'.fault.isSome ∨ ∃ list, s'.loop = .returned list) := by
  have hrun : ((run (step Demo.app) (init 1 Unit)
      (Demo.start ++ Demo.poll [.read 3 none false] ++ Demo.accept 5 ++ Demo.stop)).map fun s =>
      ((s.conns.fds 5).isSome, s.loop matches .joining, decide (s.pool.thread 0 = .ready))) =
      some (true, true, true) := by
    decide
  obtain ⟨s, hs, heq⟩ := Option.map_eq_some_iff.mp hrun
  simp only [Prod.mk.injEq, decide_eq_true_eq] at heq
  obtain ⟨hopen, hjoining, hready⟩ := heq
  have hloop : s.loop = .joining := by
    cases hpoint : s.loop with
    | joining => rfl
    | _ => simp [hpoint] at hjoining
  exact ⟨s, hopen, hready, join_returns ⟨_, hs⟩ hloop⟩

/-! ### When the threads are joined -/

/-- No worker is in `handle_conn` then. -/
lemma away_of_joined {app : App W} {s : Server n W} (h : Reachable app s)
    (hloop : s.loop.joined = true) (i : Fin n) : s.handling i = .away := by
  by_contra hi
  obtain ⟨task, htask⟩ := h.busy i hi
  rw [h.joins.exited hloop i] at htask
  cases htask

lemma items_of_joined (hn : 1 ≤ n) {app : App W} {s : Server n W} (h : Reachable app s)
    (hloop : s.loop.joined = true) : s.pool.q.items = [] :=
  (h.pool.inv.exited ⟨0, hn⟩ (h.joins.exited hloop _)).2

/-- With one thread or more, when `destroy_pool` has returned the queue is empty, all tasks that
`push_task` took were executed and no worker is in `handle_conn`, so that `free_list` runs alone. -/
theorem drained_when_joined (hn : 1 ≤ n) {app : App W} {s : Server n W} (h : Reachable app s)
    (hloop : s.loop.joined = true) :
    s.pool.q.raw.contents = [] ∧ s.pool.executed.Perm s.pool.accepted ∧
      (∀ i, s.handling i = .away) ∧ ∀ i a, s.step app (.worker i a) = none := by
  have hexit := h.joins.exited hloop
  have hinv := h.pool.inv
  have hempty := items_of_joined hn h hloop
  have haway := away_of_joined h hloop
  refine ⟨hempty, Multiset.coe_eq_coe.mp ?_, haway, fun i a => ?_⟩
  · have hdone := hinv.done
    rw [total_eq_zero fun i => by rw [hexit i]; rfl, add_zero] at hdone
    rw [hdone, ← hinv.order, hempty, List.append_nil]
  · unfold step
    split_ifs
    · rfl
    · cases a <;> simp [workerStep, Pool.step, hexit i, haway i]

/-- A request is answered before the shutdown. -/
theorem drained_when_joined_answered :
    ∃ s : Server 1 Unit, s.pool.accepted.length = 1 ∧ s.pool.q.raw.contents = [] ∧
      s.pool.executed.Perm s.pool.accepted ∧
      (∀ i, s.handling i = .away) ∧ ∀ i a, s.step Demo.app (.worker i a) = none := by
  have hrun : ((run (step Demo.app) (init 1 Unit)
      (Demo.start ++ Demo.poll [.read 3 none false] ++ Demo.accept 5 ++ Demo.next ++
        Demo.poll [.read 5 (some 0) false] ++ Demo.read Demo.request ++ Demo.answer ++
        Demo.register ++ Demo.stop ++ Demo.join)).map fun s =>
      (s.pool.accepted.length, s.loop.joined)) = some (1, true) := by
    decide +kernel
  obtain ⟨s, hs, heq⟩ := Option.map_eq_some_iff.mp hrun
  rw [Prod.mk.injEq] at heq
  exact ⟨s, heq.1, drained_when_joined (le_refl 1) ⟨_, hs⟩ heq.2⟩

end Server

end Ccybe
