import Ccybe.Ds.Queue

/-!
# The ring queue as a list

Seen from outside, a queue is the list of its items: `push` appends to it and `pop` takes the
first one. `Fifo` bundles a ring with the proof that it is well formed, so that the users of
the queue work with the list only.
-/

namespace Ccybe

open CSem

variable {α : Type}

/-! ### Runs of calls -/

/-- A call of `push` or `pop`, with what `malloc` answers in it. -/
inductive Queue.Op (α : Type) where
  | push (val : α) (mem : Bool)
  | pop (dest : Bool)

/-- The queue after the call. -/
def Queue.apply (q : Queue α) : Queue.Op α → Eval (Queue α)
  | .push val mem => do
    let (_, q) ← q.push val mem
    return q
  | .pop dest => do
    let (_, _, q) ← q.pop dest
    return q

def Queue.applyAll (q : Queue α) (ops : List (Queue.Op α)) : Eval (Queue α) :=
  ops.foldlM Queue.apply q

lemma Queue.apply_rep {q : Queue α} {xs : List α} (h : q.Rep xs) (op : Queue.Op α) :
    ∃ q' xs', q.apply op = .ok q' ∧ q'.Rep xs' := by
  cases op with
  | push val mem =>
    rcases push_spec h val mem with ⟨-, -, hq⟩ | ⟨-, q', hq, hrep, -⟩
    · exact ⟨q, xs, by simp [apply, hq], h⟩
    · exact ⟨q', xs ++ [val], by simp [apply, hq], hrep⟩
  | pop dest =>
    cases xs with
    | nil => exact ⟨q, [], by simp [apply, pop_nil h], h⟩
    | cons x xs =>
      obtain ⟨q', hq, hrep, -⟩ := pop_cons h dest
      exact ⟨q', xs, by simp [apply, hq], hrep⟩

/-- A ring stays a ring under all calls. -/
lemma Queue.applyAll_rep (ops : List (Queue.Op α)) {q : Queue α} {xs : List α} (h : q.Rep xs) :
    ∃ q' xs', q.applyAll ops = .ok q' ∧ q'.Rep xs' := by
  induction ops generalizing q xs with
  | nil => exact ⟨q, xs, rfl, h⟩
  | cons op ops ih =>
    obtain ⟨q₁, xs₁, hq₁, hrep₁⟩ := apply_rep h op
    obtain ⟨q₂, xs₂, hq₂, hrep₂⟩ := ih hrep₁
    exact ⟨q₂, xs₂, by simpa [applyAll, hq₁] using hq₂, hrep₂⟩

/-! ### Refinement -/

/-- The counters of a ring. -/
structure Queue.InRange (q : Queue α) : Prop where
  readAt : 0 ≤ q.readAt ∧ q.readAt < q.cap
  insertAt : 0 ≤ q.insertAt ∧ q.insertAt < q.cap
  len : 0 ≤ q.len ∧ q.len ≤ q.cap
  cap : q.cap < 10000000
  insertAt_eq : q.insertAt = (q.readAt + q.len) % q.cap
  length : q.contents.length = q.len

/-- The call `push val` on `q`, seen on the list of the items. -/
def Queue.PushRefines (q : Queue α) (val : α) (mem : Bool) : Prop :=
  ∃ ok q', q.push val mem = .ok (ok, q') ∧
    (ok = false ↔ q.len = q.cap ∧ (2 * q.cap ≥ 10000000 ∨ mem = false)) ∧
    (ok = true → q'.contents = q.contents ++ [val]) ∧ (ok = false → q' = q)

/-- The call `pop` on `q`, seen on the list of the items. -/
def Queue.PopRefines (q : Queue α) (dest : Bool) : Prop :=
  ∃ ok val q', q.pop dest = .ok (ok, val, q') ∧
    (ok = false ↔ q.len = 0) ∧
    (ok = true → ∃ x, q.contents = x :: q'.contents ∧ val = if dest then some x else none) ∧
    (ok = false → q' = q ∧ val = none)

lemma Queue.Rep.inRange {q : Queue α} {xs : List α} (h : q.Rep xs) : q.InRange where
  readAt := ⟨h.readAt_nonneg, h.readAt_lt⟩
  insertAt := by
    have := h.cap_pos
    rw [h.insertAt_eq]
    exact ⟨Int.emod_nonneg _ (by omega), Int.emod_lt_of_pos _ h.cap_pos⟩
  len := ⟨by rw [h.len_eq]; omega, h.len_le⟩
  cap := h.cap_lt
  insertAt_eq := h.insertAt_eq
  length := by rw [h.contents_eq, h.len_eq]

lemma Queue.Rep.push_refines {q : Queue α} {xs : List α} (h : q.Rep xs) (val : α) (mem : Bool) :
    q.PushRefines val mem := by
  rcases push_spec h val mem with ⟨hfull, hno, hq⟩ | ⟨hyes, q', hq, hrep, -⟩
  · have hlen := h.len_eq
    rw [hfull] at hlen
    exact ⟨false, q, hq, ⟨fun _ => ⟨hlen, hno⟩, fun _ => rfl⟩, by simp, fun _ => rfl⟩
  · refine ⟨true, q', hq, ⟨by simp, fun hc => ?_⟩, fun _ => ?_, by simp⟩
    · rw [h.len_eq] at hc
      exact absurd hc hyes
    · rw [hrep.contents_eq, h.contents_eq]

lemma Queue.Rep.pop_refines {q : Queue α} {xs : List α} (h : q.Rep xs) (dest : Bool) :
    q.PopRefines dest := by
  cases xs with
  | nil =>
    exact ⟨false, none, q, pop_nil h dest, ⟨fun _ => h.len_eq, fun _ => rfl⟩, by simp,
      fun _ => ⟨rfl, rfl⟩⟩
  | cons x xs =>
    obtain ⟨q', hq, hrep, -⟩ := pop_cons h dest
    refine ⟨true, _, q', hq, ⟨by simp, fun hc => ?_⟩, fun _ => ⟨x, ?_, rfl⟩, by simp⟩
    · rw [h.len_eq, List.length_cons] at hc
      omega
    · rw [h.contents_eq, hrep.contents_eq]

/-- The ring refines the list. From every successful `init_queue` on, every sequence of calls
runs without leaving `int` or the block, keeps the counters in range, and each further call
appends to the list of the items, takes its head, or refuses and changes nothing. -/
theorem Queue.refines_list {cap : Int} {q₀ : Queue α} (hinit : initQueue cap true = some q₀)
    (ops : List (Queue.Op α)) :
    q₀.contents = [] ∧ ∃ q, q₀.applyAll ops = .ok q ∧ q.InRange ∧
      (∀ val mem, q.PushRefines val mem) ∧ ∀ dest, q.PopRefines dest := by
  have hrep₀ := initQueue_rep hinit
  obtain ⟨q, xs, hq, hrep⟩ := applyAll_rep ops hrep₀
  exact ⟨hrep₀.contents_eq, q, hq, hrep.inRange, hrep.push_refines, hrep.pop_refines⟩

/-- With one cell, two pushes and a pop: the ring has grown to two cells and turned by one. -/
theorem Queue.refines_list_one : (⟨[none], 1, 0, 0, 0⟩ : Queue ℕ).contents = [] ∧
    ∃ q, (⟨[none], 1, 0, 0, 0⟩ : Queue ℕ).applyAll [.push 5 true, .push 6 true, .pop true] = .ok q ∧
      q.InRange ∧ (∀ val mem, q.PushRefines val mem) ∧ ∀ dest, q.PopRefines dest :=
  Queue.refines_list (show initQueue 1 true = some ⟨[none], 1, 0, 0, 0⟩ from rfl) _

/-! ### Rings with their invariant -/

/-- A ring that is known to be well formed. -/
structure Fifo (α : Type) where
  raw : Queue α
  rep : raw.Rep raw.contents

namespace Fifo

def items (f : Fifo α) : List α := f.raw.contents

lemma rep_contents {q : Queue α} {xs : List α} (h : q.Rep xs) : q.Rep q.contents := by
  rw [h.contents_eq]
  exact h

def init (cap : Int) : Fifo α :=
  ⟨⟨List.replicate (if cap ≤ 0 ∨ cap > 1000000 then 1 else cap).toNat none,
      if cap ≤ 0 ∨ cap > 1000000 then 1 else cap, 0, 0, 0⟩, rep_contents (initQueue_rep rfl)⟩

lemma init_raw (cap : Int) : initQueue cap true = some (init (α := α) cap).raw := rfl

@[simp] lemma items_init (cap : Int) : (init (α := α) cap).items = [] :=
  (initQueue_rep (init_raw cap)).contents_eq

lemma rep_of_push {f : Fifo α} {val : α} {mem ok : Bool} {q : Queue α}
    (h : f.raw.push val mem = .ok (ok, q)) : q.Rep q.contents := by
  rcases Queue.push_spec f.rep val mem with ⟨-, -, hq⟩ | ⟨-, q', hq, hrep, -⟩
  · rw [hq] at h
    cases h
    exact f.rep
  · rw [hq] at h
    cases h
    exact rep_contents hrep

lemma rep_of_pop {f : Fifo α} {ok : Bool} {val : Option α} {q : Queue α}
    (h : f.raw.pop true = .ok (ok, val, q)) : q.Rep q.contents := by
  have hrep := f.rep
  cases hxs : f.raw.contents with
  | nil =>
    rw [hxs] at hrep
    rw [Queue.pop_nil hrep] at h
    cases h
    exact f.rep
  | cons x xs =>
    rw [hxs] at hrep
    obtain ⟨q', hq, hrep', -⟩ := Queue.pop_cons hrep true
    rw [hq] at h
    cases h
    exact rep_contents hrep'

/-- `push` on a well formed ring; the undefined case does not occur. -/
def push (f : Fifo α) (val : α) (mem : Bool) : Bool × Fifo α :=
  match h : f.raw.push val mem with
  | .ok (ok, q) => (ok, ⟨q, rep_of_push h⟩)
  | .error _ => (false, f)

/-- `pop` with a place for the item on a well formed ring. -/
def pop (f : Fifo α) : Bool × Option α × Fifo α :=
  match h : f.raw.pop true with
  | .ok (ok, val, q) => (ok, val, ⟨q, rep_of_pop h⟩)
  | .error _ => (false, none, f)

lemma push_eq {f : Fifo α} {val : α} {mem ok : Bool} {q : Queue α}
    (h : f.raw.push val mem = .ok (ok, q)) : f.push val mem = (ok, ⟨q, rep_of_push h⟩) := by
  unfold push
  split
  · rename_i ok' q' h'
    cases h.symm.trans h'
    rfl
  · rename_i h'
    cases h.symm.trans h'

lemma pop_eq {f : Fifo α} {ok : Bool} {val : Option α} {q : Queue α}
    (h : f.raw.pop true = .ok (ok, val, q)) : f.pop = (ok, val, ⟨q, rep_of_pop h⟩) := by
  unfold pop
  split
  · rename_i ok' val' q' h'
    cases h.symm.trans h'
    rfl
  · rename_i h'
    cases h.symm.trans h'

lemma push_cases (f : Fifo α) (val : α) (mem : Bool) :
    f.push val mem = (false, f) ∨
      ∃ f', f.push val mem = (true, f') ∧ f'.items = f.items ++ [val] := by
  rcases Queue.push_spec f.rep val mem with ⟨-, -, hq⟩ | ⟨-, q', hq, hrep, -⟩
  · exact .inl (push_eq hq)
  · exact .inr ⟨⟨q', rep_contents hrep⟩, push_eq hq, hrep.contents_eq⟩

@[simp] lemma isEmpty_iff (f : Fifo α) : f.raw.isEmpty = true ↔ f.items = [] :=
  f.rep.isEmpty_iff

lemma pop_cons {f : Fifo α} {x : α} {xs : List α} (h : f.items = x :: xs) :
    ∃ f', f.pop = (true, some x, f') ∧ f'.items = xs := by
  have hrep := f.rep
  rw [show f.raw.contents = x :: xs from h] at hrep
  obtain ⟨q', hq, hrep', -⟩ := Queue.pop_cons hrep true
  exact ⟨⟨q', rep_contents hrep'⟩, pop_eq hq, hrep'.contents_eq⟩

end Fifo

end Ccybe
