import Ccybe.Ds.ThreadPool.Wakeup
import Ccybe.Lib.Resources
import Ccybe.Lib.Tally

/-!
# Creating a pool

`create_pool` starts its threads one after the other, so that the first ones run already when a later
one cannot be started and `destroy_pool` takes back what there is. The labels say what the calls of
`malloc` and of the pthread library answer, and which thread goes next.
-/

namespace Ccybe

open Resources

variable {n : ℕ} {F A : Type}

/-- What `create_pool` allocates, initialises and starts. -/
inductive Part (n : ℕ) where
  | pool
  | queue
  | array     -- `pool->q->q`
  | lock
  | cond
  | thread (i : Fin n)
  deriving DecidableEq

/-- What is a part of another one, or used by it. -/
def Part.needs : Part n → List (Part n)
  | .pool => []
  | .queue | .lock | .cond => [.pool]
  | .array => [.queue]
  | .thread _ => [.pool, .queue, .array, .lock, .cond]

/-- Where the calling thread is in `create_pool`, with the call of `destroy_pool` in it. -/
inductive CreatePoint (n : ℕ) where
  | mallocPool
  | mallocQueue
  | initQueue
  | initLock
  | initCond
  | start (i : ℕ)                     -- at the loop condition
  | shutdown (count : ℕ)              -- before `destroy_pool(pool, count)`
  | join (count i : ℕ)                -- at the loop condition of `destroy_pool`
  | release (parts : List (Part n))   -- before the calls that give these parts back
  | returned (ok : Bool)
  | undefined
  deriving DecidableEq

/-- A call of `create_pool` and the threads it has started. The last field is history. -/
structure Creation (n : ℕ) (F A : Type) where
  point : CreatePoint n
  pool : Pool n F A
  started : ℕ
  uses : List (Use (Part n))

inductive CreateStep (n : ℕ) where
  | answer (ok : Bool)   -- what the call answers
  | go                   -- the other statements
  | enter (i : Fin n)
  | wake (i : Fin n)
  | finish (i : Fin n)

namespace Creation

def new (n : ℕ) (F A : Type) (queueSize : Int) : Creation n F A :=
  ⟨.mallocPool, .create n F A queueSize, 0, []⟩

def goto (s : Creation n F A) (point : CreatePoint n) : Creation n F A := { s with point := point }

def acquire (s : Creation n F A) (part : Part n) (point : CreatePoint n) : Creation n F A :=
  { s with point := point, uses := s.uses ++ [.acquire part] }

def release (s : Creation n F A) (part : Part n) (point : CreatePoint n) : Creation n F A :=
  { s with point := point, uses := s.uses ++ [.release part] }

/-- What `free_queue_heap` and `free` at the label `FREE_QUEUE` give back. -/
def freeQueue : List (Part n) := [.array, .queue, .pool]

/-- A call of a library function answers. -/
def answer (s : Creation n F A) (ok : Bool) : Option (Creation n F A) :=
  match s.point with
  | .mallocPool => some (if ok then s.acquire .pool .mallocQueue else s.goto (.returned false))
  | .mallocQueue => some (if ok then s.acquire .queue .initQueue else s.goto (.release [.pool]))
  -- `init_queue` has not set `q->q` then, which `free_queue_heap` reads.
  | .initQueue => some (if ok then s.acquire .array .initLock else s.goto .undefined)
  | .initLock => some (if ok then s.acquire .lock .initCond else s.goto (.release freeQueue))
  | .initCond =>
    some (if ok then s.acquire .cond (.start 0) else s.goto (.release (.lock :: freeQueue)))
  | .start i =>
    if h : i < n then
      some (if ok then { s.acquire (.thread ⟨i, h⟩) (.start (i + 1)) with started := i + 1 }
        else s.goto (.shutdown i))
    else none
  | _ => none

/-- The statements without an answer; `pthread_join` returns when the thread is out. -/
def go (s : Creation n F A) : Option (Creation n F A) :=
  match s.point with
  | .start i => if i < n then none else some (s.goto (.returned true))
  | .shutdown count => some { s.goto (.join count 0) with pool := s.pool.destroy }
  | .join count i =>
    if i < count then
      if h : i < n then
        match s.pool.thread ⟨i, h⟩ with
        | .exited => some (s.release (.thread ⟨i, h⟩) (.join count (i + 1)))
        | _ => none
      else none
    else some (s.goto (.release (.lock :: .cond :: freeQueue)))
  | .release [] => some (s.goto (.returned false))
  | .release (part :: parts) => some (s.release part (.release parts))
  | _ => none

/-- A thread that was started takes a step. -/
def turn (s : Creation n F A) (i : Fin n) (e : Pool.Event n F A) : Option (Creation n F A) :=
  if i < s.started then (s.pool.step e).map fun pool => { s with pool := pool } else none

def step (s : Creation n F A) : CreateStep n → Option (Creation n F A)
  | .answer ok => s.answer ok
  | .go => s.go
  | .enter i => s.turn i (.enter i)
  | .wake i => s.turn i (.wake i)
  | .finish i => s.turn i (.finish i)

/-- What is reached from the call with this argument. -/
def Reachable (queueSize : Int) (s : Creation n F A) : Prop :=
  Trace.Reaches step (new n F A queueSize) s

end Creation

/-- The steps of the calling thread that are left after the broadcast. -/
def CreatePoint.left : CreatePoint n → ℕ
  | .join count i => count - i + 7
  | .release parts => parts.length + 1
  | _ => 0

/-! ### What is held -/

/-- All but the threads. -/
def Part.base : Finset (Part n) := {.cond, .lock, .array, .queue, .pool}

/-- The threads from `i` on up to `count`. -/
def Part.threads (i count : ℕ) : Finset (Part n) :=
  (Finset.univ.filter fun j : Fin n => i ≤ j ∧ (j : ℕ) < count).image .thread

/-- What is held at a point. -/
def CreatePoint.held : CreatePoint n → Finset (Part n)
  | .mallocPool => ∅
  | .mallocQueue => {.pool}
  | .initQueue | .undefined => {.queue, .pool}
  | .initLock => {.array, .queue, .pool}
  | .initCond => {.lock, .array, .queue, .pool}
  | .start i | .shutdown i => Part.base ∪ Part.threads 0 i
  | .join count i => Part.base ∪ Part.threads i count
  | .release parts => parts.toFinset
  | .returned true => Part.base ∪ Part.threads 0 n
  | .returned false => ∅

@[simp] lemma Part.mem_base {p : Part n} : p ∈ base ↔ ∀ i, p ≠ .thread i := by
  cases p <;> simp [base]

@[simp] lemma Part.mem_threads {p : Part n} {i count : ℕ} :
    p ∈ threads i count ↔ ∃ j : Fin n, (i ≤ j ∧ (j : ℕ) < count) ∧ .thread j = p := by
  simp [threads]

/-- A thread is added at the end. -/
lemma Part.insert_thread {i : ℕ} (h : i < n) :
    insert (.thread ⟨i, h⟩) (base ∪ threads 0 i) = (base ∪ threads 0 (i + 1) : Finset (Part n)) := by
  ext p
  cases p with
  | thread j =>
    simp only [Finset.mem_insert, Finset.mem_union, mem_base, mem_threads, Part.thread.injEq, Fin.ext_iff]
    constructor
    · rintro (hj | hj | ⟨k, hk, hkj⟩)
      · exact .inr ⟨j, by omega, rfl⟩
      · exact absurd rfl (hj j)
      · exact .inr ⟨j, by omega, rfl⟩
    · rintro (hj | ⟨k, hk, hkj⟩)
      · exact absurd rfl (hj j)
      · rcases eq_or_ne (j : ℕ) i with heq | hne
        · exact .inl heq
        · exact .inr (.inr ⟨j, by omega, rfl⟩)
  | _ => simp

/-- The first thread is taken away. -/
lemma Part.erase_thread {i count : ℕ} (h : i < n) :
    (base ∪ threads i count).erase (.thread ⟨i, h⟩) =
      (base ∪ threads (i + 1) count : Finset (Part n)) := by
  ext p
  cases p with
  | thread j =>
    simp only [Finset.mem_erase, Finset.mem_union, mem_base, mem_threads, Ne, Part.thread.injEq, Fin.ext_iff]
    constructor
    · rintro ⟨hne, hj | ⟨k, hk, hkj⟩⟩
      · exact absurd rfl (hj j)
      · exact .inr ⟨j, by omega, rfl⟩
    · rintro (hj | ⟨k, hk, hkj⟩)
      · exact absurd rfl (hj j)
      · exact ⟨by omega, .inr ⟨j, by omega, rfl⟩⟩
  | _ => simp

lemma Part.threads_self (i : ℕ) : (threads i i : Finset (Part n)) = ∅ := by
  ext p
  simp only [mem_threads, Finset.notMem_empty, iff_false]
  rintro ⟨j, hj, -⟩
  omega

/-- All but the threads can be released in the order in which `destroy_pool` does it. -/
lemma Part.releasable_base :
    Releasable Part.needs (.lock :: .cond :: Creation.freeQueue : List (Part n)) := by
  simp [Releasable, Creation.freeQueue, needs]

lemma Part.base_eq : (base : Finset (Part n)) = (.lock :: .cond :: Creation.freeQueue : List _).toFinset := by
  ext p
  cases p <;> simp [Creation.freeQueue]

/-! ### Steps -/

namespace Pool

/-- What a step of thread `i` leaves as it is. -/
structure Turns (p p' : Pool n F A) (i : Fin n) : Prop where
  accepted : p'.accepted = p.accepted
  shutdown : p'.shutdown = p.shutdown
  others : ∀ j ≠ i, p'.thread j = p.thread j

lemma turns_setThread (p : Pool n F A) (i : Fin n) (w : Worker F A) : p.Turns (p.setThread i w) i :=
  ⟨rfl, rfl, fun j hj => by simp [setThread, hj]⟩

lemma turns_critical (p : Pool n F A) (i : Fin n) : p.Turns (p.critical i) i := by
  rcases p.critical_cases i with ⟨-, -, he⟩ | ⟨-, -, he⟩ | ⟨task, q, -, he⟩
  · rw [he]
    exact p.turns_setThread i .waiting
  · rw [he]
    exact p.turns_setThread i .exited
  · rw [he]
    have hset := p.turns_setThread i (.running task)
    exact ⟨hset.accepted, hset.shutdown, hset.others⟩

lemma Turns.of_step {p p' : Pool n F A} {i : Fin n} {e : Event n F A}
    (he : e = .enter i ∨ e = .wake i ∨ e = .finish i) (h : p.step e = some p') : p.Turns p' i := by
  rcases he with rfl | rfl | rfl
  · obtain ⟨-, rfl⟩ := step_enter h
    exact p.turns_critical i
  · obtain ⟨-, rfl⟩ := step_wake h
    exact p.turns_setThread i .woken
  · obtain ⟨task, -, rfl⟩ := step_finish h
    have hset := p.turns_setThread i .ready
    exact ⟨hset.accepted, hset.shutdown, hset.others⟩

end Pool

namespace Creation

/-- The threads that were started are out. -/
def Out (s : Creation n F A) : Prop := ∀ i : Fin n, (i : ℕ) < s.started → s.pool.thread i = .exited

/-- What holds of the threads at a point. -/
def AtPoint (s : Creation n F A) : CreatePoint n → Prop
  | .start i => i ≤ n ∧ s.started = i ∧ s.pool.shutdown = false
  | .shutdown count => count < n ∧ s.started = count ∧ s.pool.shutdown = false
  | .join count i => i ≤ count ∧ count < n ∧ s.started = count ∧ s.pool.shutdown = true ∧
      ∀ j : Fin n, (j : ℕ) < i → s.pool.thread j = .exited
  | .release parts => Releasable Part.needs parts ∧ parts.length ≤ 5 ∧ s.Out
  | .returned true => s.started = n ∧ s.pool.shutdown = false
  | .returned false => s.Out
  | _ => s.started = 0 ∧ s.pool.shutdown = false

/-- The invariant of a creation. -/
structure Sound (queueSize : Int) (s : Creation n F A) : Prop where
  leads : Leads Part.needs s.uses s.point.held
  atPoint : s.AtPoint s.point
  reaches : Trace.Reaches Pool.step (.create n F A queueSize) s.pool
  accepted : s.pool.accepted = []

lemma sound_new (queueSize : Int) : Sound queueSize (new n F A queueSize) :=
  ⟨leads_nil _, ⟨rfl, rfl⟩, .refl _, rfl⟩

variable {queueSize : Int} {s s' : Creation n F A}

lemma Sound.reachable (hs : s.Sound queueSize) : s.pool.Reachable := ⟨queueSize, hs.reaches⟩

/-- Nothing is started yet. -/
lemma out_of_zero (h : s.started = 0) : s.Out := fun i hi => by omega

lemma Sound.answer {ok : Bool} (hs : s.Sound queueSize) (h : s.answer ok = some s') : s'.Sound queueSize := by
  obtain ⟨point, pool, started, uses⟩ := s
  obtain ⟨hleads, hat, hreach, hacc⟩ := hs
  cases point with
  | mallocPool =>
    cases h
    cases ok with
    | true => exact ⟨hleads.acquire (by simp [CreatePoint.held]) (by simp [Part.needs]), hat, hreach, hacc⟩
    | false => exact ⟨hleads, out_of_zero hat.1, hreach, hacc⟩
  | mallocQueue =>
    cases h
    cases ok with
    | true =>
      exact ⟨hleads.acquire (by simp [CreatePoint.held]) (by simp [Part.needs, CreatePoint.held]), hat,
        hreach, hacc⟩
    | false => exact ⟨hleads, ⟨by simp [Releasable, Part.needs], by simp, out_of_zero hat.1⟩, hreach, hacc⟩
  | initQueue =>
    cases h
    cases ok with
    | true =>
      exact ⟨hleads.acquire (by simp [CreatePoint.held]) (by simp [Part.needs, CreatePoint.held]), hat,
        hreach, hacc⟩
    | false => exact ⟨hleads, hat, hreach, hacc⟩
  | initLock =>
    cases h
    cases ok with
    | true =>
      exact ⟨hleads.acquire (by simp [CreatePoint.held]) (by simp [Part.needs, CreatePoint.held]), hat,
        hreach, hacc⟩
    | false =>
      exact ⟨hleads, ⟨Part.releasable_base.tail.tail, by simp [freeQueue], out_of_zero hat.1⟩, hreach, hacc⟩
  | initCond =>
    cases h
    cases ok with
    | true =>
      refine ⟨?_, ⟨Nat.zero_le n, hat⟩, hreach, hacc⟩
      have hnext := hleads.acquire (r := .cond) (by simp [CreatePoint.held])
        (by simp [Part.needs, CreatePoint.held])
      show Leads Part.needs _ (Part.base ∪ Part.threads 0 0)
      rw [Part.threads_self, Finset.union_empty]
      exact hnext
    | false =>
      exact ⟨hleads, ⟨by simp [Releasable, Part.needs, freeQueue], by simp [freeQueue],
        out_of_zero hat.1⟩, hreach, hacc⟩
  | start i =>
    obtain ⟨hi, hstarted, hshutdown⟩ := hat
    simp only [Creation.answer] at h
    split_ifs at h with hin hok
    · cases h
      refine ⟨?_, ⟨hin, rfl, hshutdown⟩, hreach, hacc⟩
      have hnext := hleads.acquire (r := .thread ⟨i, hin⟩) (by simp [CreatePoint.held])
        (by simp [Part.needs, CreatePoint.held])
      show Leads Part.needs _ (Part.base ∪ Part.threads 0 (i + 1))
      rw [← Part.insert_thread hin]
      exact hnext
    · cases h
      exact ⟨hleads, ⟨hin, hstarted, hshutdown⟩, hreach, hacc⟩
  | _ => cases h

lemma Sound.go (hs : s.Sound queueSize) (h : s.go = some s') : s'.Sound queueSize := by
  obtain ⟨point, pool, started, uses⟩ := s
  obtain ⟨hleads, hat, hreach, hacc⟩ := hs
  cases point with
  | start i =>
    obtain ⟨hi, hstarted, hshutdown⟩ := hat
    simp only [Creation.go] at h
    split_ifs at h with hin
    cases h
    obtain rfl : i = n := by omega
    exact ⟨hleads, ⟨hstarted, hshutdown⟩, hreach, hacc⟩
  | shutdown count =>
    obtain ⟨hcount, hstarted, -⟩ := hat
    cases h
    exact ⟨hleads, ⟨Nat.zero_le count, hcount, hstarted, rfl, fun j hj => by omega⟩,
      hreach.trans (.of_step (e := .destroy) rfl), hacc⟩
  | join count i =>
    obtain ⟨hi, hcount, hstarted, hshutdown, hout⟩ := hat
    simp only [Creation.go] at h
    split_ifs at h with hlt hin
    · split at h
      · rename_i hexited
        cases h
        refine ⟨?_, ⟨hlt, hcount, hstarted, hshutdown, fun j hj => ?_⟩, hreach, hacc⟩
        · have hnext := hleads.release (r := .thread ⟨i, hin⟩) (by simp [CreatePoint.held, hlt])
            (by rintro (_ | _ | _ | _ | _ | j) - <;> simp [Part.needs])
          rw [show CreatePoint.held (.join count i) = Part.base ∪ Part.threads i count from rfl,
            Part.erase_thread hin] at hnext
          exact hnext
        · rcases Nat.lt_succ_iff_lt_or_eq.mp hj with hj | hj
          · exact hout j hj
          · rwa [show j = ⟨i, hin⟩ from Fin.ext hj]
      · cases h
    · cases h
      obtain rfl : i = count := by omega
      refine ⟨?_, ⟨Part.releasable_base, by simp [freeQueue], fun j hj => hout j (hstarted ▸ hj)⟩, hreach, hacc⟩
      have hbase : CreatePoint.held (.join i i) = (Part.base : Finset (Part n)) := by
        rw [CreatePoint.held, Part.threads_self, Finset.union_empty]
      rw [hbase, Part.base_eq] at hleads
      exact hleads
  | release parts =>
    obtain ⟨hparts, hlen, hout⟩ := hat
    cases parts with
    | nil =>
      cases h
      exact ⟨hleads, hout, hreach, hacc⟩
    | cons part parts =>
      cases h
      exact ⟨hleads.release_head hparts, ⟨hparts.tail, Nat.le_of_succ_le hlen, hout⟩, hreach, hacc⟩
  | _ => cases h

lemma AtPoint.turn {pool : Pool n F A} (hshutdown : pool.shutdown = s.pool.shutdown)
    (hexited : ∀ j, s.pool.thread j = .exited → pool.thread j = .exited) {point : CreatePoint n}
    (h : s.AtPoint point) : AtPoint { s with pool := pool } point := by
  have hout : s.Out → Out { s with pool := pool } := fun h i hi => hexited i (h i hi)
  cases point with
  | start i => exact ⟨h.1, h.2.1, hshutdown.trans h.2.2⟩
  | shutdown count => exact ⟨h.1, h.2.1, hshutdown.trans h.2.2⟩
  | join count i =>
    obtain ⟨hi, hcount, hstarted, hs, hbelow⟩ := h
    exact ⟨hi, hcount, hstarted, hshutdown.trans hs, fun j hj => hexited j (hbelow j hj)⟩
  | release parts => exact ⟨h.1, h.2.1, hout h.2.2⟩
  | returned ok =>
    cases ok with
    | true => exact ⟨h.1, hshutdown.trans h.2⟩
    | false => exact hout h
  | _ => exact ⟨h.1, hshutdown.trans h.2⟩

/-- A thread that takes a step was started. -/
lemma turn_eq {i : Fin n} {e : Pool.Event n F A} (h : s.turn i e = some s') :
    (i : ℕ) < s.started ∧ ∃ pool, s.pool.step e = some pool ∧ s' = { s with pool := pool } := by
  simp only [Creation.turn] at h
  split_ifs at h with hi
  obtain ⟨pool, hpool, rfl⟩ := Option.map_eq_some_iff.mp h
  exact ⟨hi, pool, hpool, rfl⟩

lemma Sound.turn {i : Fin n} {e : Pool.Event n F A} (hs : s.Sound queueSize)
    (he : e = .enter i ∨ e = .wake i ∨ e = .finish i) (h : s.turn i e = some s') : s'.Sound queueSize := by
  obtain ⟨-, pool, hpool, rfl⟩ := turn_eq h
  have hturn := Pool.Turns.of_step he hpool
  exact ⟨hs.leads, hs.atPoint.turn hturn.shutdown fun j => (Pool.Rule.of_step hpool).exited,
    hs.reaches.trans (.of_step hpool), hturn.accepted.trans hs.accepted⟩

/-- A step is one of the calling thread or one of a thread that was started. -/
lemma step_cases {l : CreateStep n} (h : s.step l = some s') :
    (∃ ok, l = .answer ok ∧ s.answer ok = some s') ∨ (l = .go ∧ s.go = some s') ∨
      ∃ i e, (e = .enter i ∨ e = .wake i ∨ e = .finish i) ∧ s.turn i e = some s' := by
  cases l with
  | answer ok => exact .inl ⟨ok, rfl, h⟩
  | go => exact .inr (.inl ⟨rfl, h⟩)
  | enter i => exact .inr (.inr ⟨i, .enter i, .inl rfl, h⟩)
  | wake i => exact .inr (.inr ⟨i, .wake i, .inr (.inl rfl), h⟩)
  | finish i => exact .inr (.inr ⟨i, .finish i, .inr (.inr rfl), h⟩)

lemma Sound.step {l : CreateStep n} (hs : s.Sound queueSize) (h : s.step l = some s') : s'.Sound queueSize := by
  rcases step_cases h with ⟨ok, -, h⟩ | ⟨-, h⟩ | ⟨i, e, he, h⟩
  · exact hs.answer h
  · exact hs.go h
  · exact hs.turn he h

lemma Reachable.sound (h : Reachable queueSize s) : s.Sound queueSize :=
  h.invariant (fun _ _ _ => Sound.step) (sound_new queueSize)

/-! ### All or nothing -/

/-- Before shutdown no thread is out. -/
lemma Sound.running (hs : s.Sound queueSize) (hshutdown : s.pool.shutdown = false) (i : Fin n) :
    s.pool.thread i ≠ .exited := by
  intro hi
  rw [(hs.reachable.inv.exited i hi).1] at hshutdown
  cases hshutdown

/-- The `malloc` of `init_queue` fails. -/
def QueueFails (s : Creation n F A) (l : CreateStep n) : Prop := s.point = .initQueue ∧ l = .answer false

lemma answer_undefined {ok : Bool} (h : s.answer ok = some s') :
    s.point ≠ .undefined ∧ (s'.point ≠ .undefined ↔ ¬ s.QueueFails (.answer ok)) := by
  obtain ⟨point, pool, started, uses⟩ := s
  cases point with
  | start i =>
    simp only [Creation.answer] at h
    split_ifs at h with hin hok <;> cases h <;> simp [QueueFails, acquire, goto]
  | _ => cases h <;> cases ok <;> simp [QueueFails, acquire, goto]

lemma go_undefined (h : s.go = some s') :
    s.point ≠ .undefined ∧ (s'.point ≠ .undefined ↔ ¬ s.QueueFails .go) := by
  have hnot : ¬ s.QueueFails .go := fun hfails => by cases hfails.2
  obtain ⟨point, pool, started, uses⟩ := s
  simp only [Creation.go] at h
  split at h
  · split_ifs at h
    cases h
    simpa [goto] using hnot
  · cases h
    simpa [goto] using hnot
  · split_ifs at h
    · split at h
      · cases h
        simpa [release] using hnot
      · cases h
    · cases h
      simpa [goto] using hnot
  · cases h
    simpa [goto] using hnot
  · cases h
    simpa [release] using hnot
  · cases h

/-- Where a thread can take a step, the calling thread is past the initialisation. -/
lemma Sound.turn_point {i : Fin n} {e : Pool.Event n F A} (hs : s.Sound queueSize) (h : s.turn i e = some s') :
    s.point ≠ .undefined ∧ s.point ≠ .initQueue := by
  obtain ⟨hi, -⟩ := turn_eq h
  have hat := hs.atPoint
  refine ⟨fun hpoint => ?_, fun hpoint => ?_⟩
  · rw [hpoint] at hat
    have hzero : s.started = 0 := hat.1
    omega
  · rw [hpoint] at hat
    have hzero : s.started = 0 := hat.1
    omega

lemma Sound.undefined_iff {l : CreateStep n} (hs : s.Sound queueSize) (h : s.step l = some s') :
    s.point ≠ .undefined ∧ (s'.point ≠ .undefined ↔ ¬ s.QueueFails l) := by
  rcases step_cases h with ⟨ok, rfl, h⟩ | ⟨rfl, h⟩ | ⟨i, e, -, h⟩
  · exact answer_undefined h
  · exact go_undefined h
  · obtain ⟨hundefined, hqueue⟩ := hs.turn_point h
    obtain ⟨-, pool, -, rfl⟩ := turn_eq h
    exact ⟨hundefined, iff_of_true hundefined fun hfails => hqueue hfails.1⟩

/-- A call of `create_pool` is defined if and only if the `malloc` of `init_queue` does not fail. If it
returns a pool, all threads run and all parts are there; if it returns null, each thread that was
started is out and each part was given back as often as it was made, the threads before what they
use. -/
theorem all_or_nothing {ls : List (CreateStep n)}
    (h : Trace.run step (new n F A queueSize) ls = some s) :
    (s.point ≠ .undefined ↔ Trace.Along step (fun s l => ¬ s.QueueFails l) (new n F A queueSize) ls) ∧
    ∃ held, Leads Part.needs s.uses held ∧
      (s.point = .returned true → (∀ part, part ∈ held) ∧ s.pool.shutdown = false ∧
        Trace.Reaches Pool.step (.create n F A queueSize) s.pool ∧ ∀ i, s.pool.thread i ≠ .exited) ∧
      (s.point = .returned false → held = ∅ ∧
        (∀ part, s.uses.count (.acquire part) = s.uses.count (.release part)) ∧
        ∀ i : Fin n, (i : ℕ) < s.started → s.pool.thread i = .exited) := by
  have hs := Reachable.sound ⟨ls, h⟩
  have hat := hs.atPoint
  have hbalance := hs.leads.balance
  refine ⟨?_, s.point.held, hs.leads, ?_, ?_⟩
  · refine Trace.defined_iff_along (P := Sound queueSize) (Q := fun s => s.point ≠ .undefined) ?_ ?_ ?_ h
      (sound_new queueSize) (by simp [new])
    · exact fun _ _ _ => Sound.step
    · exact fun _ _ _ hs h => (hs.undefined_iff h).2
    · exact fun _ _ _ hs h => (hs.undefined_iff h).1
  · intro hpoint
    rw [hpoint] at hat ⊢
    refine ⟨?_, hat.2, hs.reaches, hs.running hat.2⟩
    rintro (_ | _ | _ | _ | _ | i) <;> simp [CreatePoint.held]
  · intro hpoint
    rw [hpoint] at hat hbalance ⊢
    exact ⟨rfl, fun part => by simpa [CreatePoint.held] using hbalance part, hat⟩

/-- Of two threads the second one cannot be started, when the first one sleeps already. -/
def secondFails : List (CreateStep 2) :=
  List.replicate 6 (.answer true) ++ [.enter 0, .answer false, .go, .enter 0] ++ List.replicate 8 .go

theorem all_or_nothing_second :
    ∃ s : Creation 2 Unit Unit, s.point = .returned false ∧ s.pool.thread 0 = .exited ∧
      s.uses.count (.acquire (.thread 0)) = 1 ∧
      ∀ part, s.uses.count (.acquire part) = s.uses.count (.release part) := by
  have hrun : ((Trace.run step (new 2 Unit Unit 128) secondFails).map fun s =>
      (s.point, s.pool.thread 0, s.uses.count (.acquire (.thread 0)))) =
        some (.returned false, .exited, 1) := by
    decide
  obtain ⟨s, hs, heq⟩ := Option.map_eq_some_iff.mp hrun
  rw [Prod.mk.injEq, Prod.mk.injEq] at heq
  obtain ⟨-, held, -, -, hnull⟩ := all_or_nothing hs
  exact ⟨s, heq.1, heq.2.1, heq.2.2, (hnull heq.1).2.1⟩

/-! ### Threads -/

/-- Whichever thread takes a step while `create_pool` runs or after it: it was started and not joined,
and the pool with all its parts is there. -/
theorem thread_holds (h : Reachable queueSize s) {i : Fin n} {e : Pool.Event n F A}
    (he : e = .enter i ∨ e = .wake i ∨ e = .finish i) (hstep : s.turn i e = some s') :
    ∃ held, Leads Part.needs s.uses held ∧ .thread i ∈ held ∧
      ∀ part ∈ Part.needs (.thread i), part ∈ held := by
  have hs := h.sound
  have hat := hs.atPoint
  obtain ⟨hi, pool, hpool, rfl⟩ := turn_eq hstep
  have hrunning : s.pool.thread i ≠ .exited := by
    rcases he with rfl | rfl | rfl
    · obtain ⟨henters | henters, -⟩ := Pool.step_enter hpool <;> simp [henters]
    · obtain ⟨hwaiting, -⟩ := Pool.step_wake hpool
      simp [hwaiting]
    · obtain ⟨task, hrunning, -⟩ := Pool.step_finish hpool
      simp [hrunning]
  -- While a thread runs, the calling thread is in one of the loops, before the call or behind it.
  suffices hheld : ∃ j count, s.point.held = Part.base ∪ Part.threads j count ∧ j ≤ i ∧ (i : ℕ) < count by
    obtain ⟨j, count, hheld, hj, hcount⟩ := hheld
    refine ⟨_, hs.leads, ?_, ?_⟩
    · rw [hheld]
      simp [hj, hcount]
    · rw [hheld]
      simp [Part.needs]
  have hzero : ¬ (s.started = 0 ∧ s.pool.shutdown = false) := fun hzero => by omega
  cases hpoint : s.point with
  | start k =>
    rw [hpoint] at hat
    exact ⟨0, k, rfl, Nat.zero_le _, hat.2.1 ▸ hi⟩
  | shutdown k =>
    rw [hpoint] at hat
    exact ⟨0, k, rfl, Nat.zero_le _, hat.2.1 ▸ hi⟩
  | join count k =>
    rw [hpoint] at hat
    obtain ⟨-, -, hstarted, -, hout⟩ := hat
    refine ⟨k, count, rfl, ?_, hstarted ▸ hi⟩
    by_contra hlt
    exact hrunning (hout i (not_le.mp hlt))
  | release parts =>
    rw [hpoint] at hat
    exact absurd (hat.2.2 i hi) hrunning
  | returned ok =>
    rw [hpoint] at hat
    cases ok with
    | true => exact ⟨0, n, rfl, Nat.zero_le _, i.isLt⟩
    | false => exact absurd (hat i hi) hrunning
  | _ =>
    rw [hpoint] at hat
    exact absurd hat hzero

/-- The first thread goes to sleep before the second one is started. -/
theorem thread_holds_first :
    ∃ (s s' : Creation 2 Unit Unit) (held : Finset (Part 2)), s.point = .start 1 ∧
      s.turn 0 (.enter 0) = some s' ∧ Leads Part.needs s.uses held ∧ .lock ∈ held := by
  have hrun : ((Trace.run step (new 2 Unit Unit 128) (List.replicate 6 (.answer true))).map fun s =>
      (s.point, (s.turn 0 (.enter 0)).isSome)) = some (.start 1, true) := by
    decide
  obtain ⟨s, hs, heq⟩ := Option.map_eq_some_iff.mp hrun
  rw [Prod.mk.injEq] at heq
  obtain ⟨s', hs'⟩ := Option.isSome_iff_exists.mp heq.2
  obtain ⟨held, hleads, -, hheld⟩ := thread_holds ⟨_, hs⟩ (.inl rfl) hs'
  exact ⟨s, s', held, heq.1, hs', hleads, hheld .lock (by decide)⟩

/-! ### The end of a call -/

/-- The most steps that are left after the broadcast. -/
def left (s : Creation n F A) : ℕ := s.point.left + Tally.total Worker.left s.pool.thread

lemma Sound.not_running (hs : s.Sound queueSize) (i : Fin n) (task : TaskNode F A) :
    s.pool.thread i ≠ .running task := by
  intro hi
  have hinv := hs.reachable.inv
  have hpopped : s.pool.popped = [] := (List.append_eq_nil_iff.mp (hinv.order.trans hs.accepted)).1
  have hmem : task ∈ (s.pool.executed : Multiset (TaskNode F A)) + Tally.total Worker.task s.pool.thread := by
    refine Multiset.mem_add.mpr (.inr (Tally.mem_total.mpr ⟨i, ?_⟩))
    simp [hi]
  rw [hinv.done, hpopped] at hmem
  cases hmem

/-- After the broadcast, the empty queue sends a thread out. -/
lemma Sound.critical_eq (hs : s.Sound queueSize) (hshutdown : s.pool.shutdown = true) (i : Fin n) :
    s.pool.critical i = s.pool.setThread i .exited := by
  rcases Pool.critical_of_shutdown hshutdown i with ⟨-, he⟩ | ⟨task, q, hq, -⟩
  · exact he
  · have horder := hs.reachable.inv.order.trans hs.accepted
    rw [hq] at horder
    cases (List.append_eq_nil_iff.mp horder).2

lemma go_left (hs : s.Sound queueSize) (hshutdown : s.pool.shutdown = true) (h : s.go = some s') :
    s'.pool = s.pool ∧ s'.point.left + 1 ≤ s.point.left := by
  obtain ⟨point, pool, started, uses⟩ := s
  have hat := hs.atPoint
  simp only [Creation.go] at h
  split at h
  · rename_i i
    rw [hat.2.2] at hshutdown
    cases hshutdown
  · rw [hat.2.2] at hshutdown
    cases hshutdown
  · split_ifs at h
    · split at h
      · cases h
        exact ⟨rfl, by simp only [release, CreatePoint.left]; omega⟩
      · cases h
    · cases h
      exact ⟨rfl, by simp only [goto, CreatePoint.left, freeQueue, List.length_cons, List.length_nil]; omega⟩
  · cases h
    exact ⟨rfl, by simp [goto, CreatePoint.left]⟩
  · cases h
    exact ⟨rfl, by simp [release, CreatePoint.left]⟩
  · cases h

lemma answer_shutdown {ok : Bool} (hs : s.Sound queueSize) (h : s.answer ok = some s') :
    s.pool.shutdown = false := by
  have hat := hs.atPoint
  simp only [Creation.answer] at h
  split at h
  case h_7 => cases h
  all_goals
    rename_i hpoint
    rw [hpoint] at hat
  case h_6 => exact hat.2.2
  all_goals exact hat.2

/-- The invariant of a call that ends without a pool. -/
def Fails (queueSize : Int) (s : Creation n F A) : Prop := s.Sound queueSize ∧ s.pool.shutdown = true

/-- After the broadcast each step brings the call nearer to its end. -/
lemma Sound.step_left {l : CreateStep n} (hs : s.Sound queueSize) (hshutdown : s.pool.shutdown = true)
    (h : s.step l = some s') : s'.pool.shutdown = true ∧ s'.left + 1 ≤ s.left := by
  rcases step_cases h with ⟨ok, -, h⟩ | ⟨-, h⟩ | ⟨i, e, he, h⟩
  · rw [answer_shutdown hs h] at hshutdown
    cases hshutdown
  · obtain ⟨hpool, hleft⟩ := go_left hs hshutdown h
    refine ⟨by rw [hpool]; exact hshutdown, ?_⟩
    rw [left, left, hpool]
    omega
  · obtain ⟨-, pool, hpool, rfl⟩ := turn_eq h
    refine ⟨(Pool.Turns.of_step he hpool).shutdown.trans hshutdown, ?_⟩
    rcases he with rfl | rfl | rfl
    · obtain ⟨henters, rfl⟩ := Pool.step_enter hpool
      have htotal := Tally.total_update Worker.left s.pool.thread i .exited
      rw [henters.left, Worker.left_exited] at htotal
      rw [left, left, hs.critical_eq hshutdown]
      simp only [Pool.setThread]
      omega
    · obtain ⟨hwaiting, -⟩ := Pool.step_wake hpool
      have hasleep := hs.reachable.awake.after hshutdown i
      rw [hwaiting] at hasleep
      cases hasleep
    · obtain ⟨task, hrunning, -⟩ := Pool.step_finish hpool
      exact absurd hrunning (hs.not_running i task)

lemma fails_step (s : Creation n F A) (l : CreateStep n) (t : Creation n F A) (hs : s.Fails queueSize)
    (h : s.step l = some t) : t.Fails queueSize ∧ t.left + (if true then 1 else 0) ≤ s.left := by
  obtain ⟨hshutdown, hleft⟩ := hs.1.step_left hs.2 h
  exact ⟨⟨hs.1.step h, hshutdown⟩, hleft⟩

lemma Sound.left_le (hs : s.Sound queueSize) : s.left ≤ 2 * n + 7 := by
  have hthreads : Tally.total Worker.left s.pool.thread ≤ Fintype.card (Fin n) * 1 := by
    refine Tally.total_le fun i => ?_
    cases hi : s.pool.thread i with
    | running task => exact absurd hi (hs.not_running i task)
    | _ => simp [Worker.left]
  rw [Fintype.card_fin] at hthreads
  have hpoint : s.point.left ≤ n + 7 := by
    have hat := hs.atPoint
    cases hpoint : s.point with
    | join count i =>
      rw [hpoint] at hat
      obtain ⟨-, hcount, -⟩ := hat
      simp only [CreatePoint.left]
      omega
    | release parts =>
      rw [hpoint] at hat
      obtain ⟨-, hlen, -⟩ := hat
      simp only [CreatePoint.left]
      omega
    | _ => exact Nat.zero_le _
  rw [left]
  omega

/-- A thread that was started and is not out can take a step, unless it sleeps. -/
lemma Sound.enter_ne_none (hs : s.Sound queueSize) {i : Fin n} (hi : (i : ℕ) < s.started)
    (hwaiting : s.pool.thread i ≠ .waiting) (hexited : s.pool.thread i ≠ .exited) :
    s.step (.enter i) ≠ none := by
  rw [Creation.step, Creation.turn, if_pos hi]
  cases hthread : s.pool.thread i with
  | ready => simp [Pool.step, hthread]
  | woken => simp [Pool.step, hthread]
  | waiting => exact absurd hthread hwaiting
  | running task => exact absurd hthread (hs.not_running i task)
  | exited => exact absurd hthread hexited

/-- Nobody can take a step when the call is over only. -/
lemma Sound.over_of_stuck (hs : s.Sound queueSize) (hstuck : ∀ l, s.step l = none) :
    s.point = .undefined ∨ ∃ ok, s.point = .returned ok := by
  have hgo : s.go = none := hstuck .go
  have hanswer : s.answer true = none := hstuck (.answer true)
  have hat := hs.atPoint
  cases hpoint : s.point with
  | undefined => exact .inl rfl
  | returned ok => exact .inr ⟨ok, rfl⟩
  | start i =>
    rcases lt_or_ge i n with hi | hi
    · simp [Creation.answer, hpoint, hi] at hanswer
    · simp [Creation.go, hpoint, not_lt.mpr hi] at hgo
  | shutdown count => simp [Creation.go, hpoint] at hgo
  | join count i =>
    rw [hpoint] at hat
    obtain ⟨-, hcount, hstarted, hshutdown, -⟩ := hat
    rcases lt_or_ge i count with hi | hi
    · have hin : i < n := by omega
      have hexited : s.pool.thread ⟨i, hin⟩ ≠ .exited := by
        intro hexited
        simp [Creation.go, hpoint, hi, hin, hexited] at hgo
      have hwaiting : s.pool.thread ⟨i, hin⟩ ≠ .waiting := by
        intro hwaiting
        have hasleep := hs.reachable.awake.after hshutdown ⟨i, hin⟩
        rw [hwaiting] at hasleep
        cases hasleep
      exact absurd (hstuck (.enter ⟨i, hin⟩)) (hs.enter_ne_none (hstarted ▸ hi) hwaiting hexited)
    · simp [Creation.go, hpoint, not_lt.mpr hi] at hgo
  | release parts => cases parts <;> simp [Creation.go, hpoint] at hgo
  | _ => simp [Creation.answer, hpoint] at hanswer

/-- A call of `create_pool` comes to its end: while it is not over, somebody can take a step. Once a
thread could not be started and the others were woken up to leave, there are at most `2 * n + 7` steps
in whatever order, and null is returned. -/
theorem create_ends (h : Reachable queueSize s) :
    ((∀ l, s.step l = none) → s.point = .undefined ∨ ∃ ok, s.point = .returned ok) ∧
    (s.pool.shutdown = true → ∀ ls t, Trace.run step s ls = some t → ls.length ≤ 2 * n + 7 ∧
      ((∀ l, t.step l = none) → t.point = .returned false)) := by
  refine ⟨h.sound.over_of_stuck, fun hshutdown ls t hrun => ?_⟩
  obtain ⟨⟨ht, htshutdown⟩, hle⟩ :=
    Trace.countP_add_rank_le (p := fun _ => true) fails_step hrun ⟨h.sound, hshutdown⟩
  rw [List.countP_true] at hle
  have hbound := h.sound.left_le
  refine ⟨by omega, fun hstuck => ?_⟩
  have hat := ht.atPoint
  rcases ht.over_of_stuck hstuck with hpoint | ⟨ok, hpoint⟩
  · rw [hpoint] at hat
    rw [hat.2] at htshutdown
    cases htshutdown
  · cases ok with
    | true =>
      rw [hpoint] at hat
      rw [hat.2] at htshutdown
      cases htshutdown
    | false => exact hpoint

/-- After the broadcast in the run above. -/
theorem create_ends_second :
    ∃ s : Creation 2 Unit Unit, s.point = .join 1 0 ∧ ∀ ls t, Trace.run step s ls = some t →
      ls.length ≤ 11 ∧ ((∀ l, t.step l = none) → t.point = .returned false) := by
  have hrun : ((Trace.run step (new 2 Unit Unit 128) (secondFails.take 9)).map fun s =>
      (s.point, s.pool.shutdown)) = some (.join 1 0, true) := by
    decide
  obtain ⟨s, hs, heq⟩ := Option.map_eq_some_iff.mp hrun
  rw [Prod.mk.injEq] at heq
  exact ⟨s, heq.1, (create_ends ⟨_, hs⟩).2 heq.2⟩

end Creation

end Ccybe
