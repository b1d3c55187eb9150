import Ccybe.Lib.CSem
import Ccybe.Lib.Ring

/-!
# The ring queue (`ds/queue.c`)

`queue_t` is a ring of task nodes that doubles when it is full. Nothing in `queue.c` looks
inside a task node, so the cells hold items of any type. What `malloc` answers is an argument.
-/

namespace Ccybe

open CSem

variable {α : Type}

/-- `queue_t`: the cells behind the pointer `q` and the four counters. -/
structure Queue (α : Type) where
  q : List (Option α)
  cap : Int
  len : Int
  readAt : Int
  insertAt : Int

/-- `init_queue`, for `q` not null; `none` is the answer `false`. -/
def initQueue (cap : Int) (mem : Bool) : Option (Queue α) :=
  let cap := if cap ≤ 0 ∨ cap > 1000000 then 1 else cap
  if mem then some ⟨List.replicate cap.toNat none, cap, 0, 0, 0⟩ else none

def Queue.isFull (q : Queue α) : Bool := q.len == q.cap

def Queue.isEmpty (q : Queue α) : Bool := q.len == 0

/-- One pass of the copying loop of `resize`, `i` counting the passes before it. -/
def Queue.copyCell (q : Queue α) (newQ : List (Option α)) (i : ℕ) : Eval (List (Option α)) := do
  let src ← rem (← add q.readAt i) q.cap
  let v ← get q.q src
  let newQ ← set newQ i v
  let _ ← add i 1    -- i++
  return newQ

def Queue.resize (q : Queue α) (mem : Bool) : Eval (Bool × Queue α) := do
  if !q.isFull then return (false, q)
  let newCap ← longLong (2 * q.cap)
  if newCap ≥ 10000000 then return (false, q)
  if !mem then return (false, q)
  let newQ ← (List.range q.len.toNat).foldlM q.copyCell (List.replicate newCap.toNat none)
  return (true, { q with q := newQ, cap := newCap, insertAt := q.len, readAt := 0 })

def Queue.push (q : Queue α) (val : α) (mem : Bool) : Eval (Bool × Queue α) := do
  let (ok, q) ← if q.isFull then q.resize mem else pure (true, q)
  if !ok then return (ok, q)
  let cells ← set q.q q.insertAt val
  let insertAt ← rem (← add q.insertAt 1) q.cap
  let len ← add q.len 1
  return (true, { q with q := cells, insertAt := insertAt, len := len })

/-- `pop`; `dest` says whether `val` is not null, and the item is what is stored there. -/
def Queue.pop (q : Queue α) (dest : Bool) : Eval (Bool × Option α × Queue α) := do
  if q.isEmpty then return (false, none, q)
  let val ← if dest then some <$> get q.q q.readAt else pure none
  let readAt ← rem (← add q.readAt 1) q.cap
  let len ← sub q.len 1
  return (true, val, { q with readAt := readAt, len := len })

/-- The items from the front to the back. -/
def Queue.contents (q : Queue α) : List α := Ring.window q.q q.readAt.toNat q.len.toNat

/-! ### Representation -/

/-- `q` is a well formed ring that holds the items `xs`. -/
structure Queue.Rep (q : Queue α) (xs : List α) : Prop where
  cap_pos : 0 < q.cap
  cap_lt : q.cap < 10000000
  cells : (q.q.length : Int) = q.cap
  len_eq : q.len = xs.length
  len_le : q.len ≤ q.cap
  readAt_nonneg : 0 ≤ q.readAt
  readAt_lt : q.readAt < q.cap
  insertAt_eq : q.insertAt = (q.readAt + q.len) % q.cap
  holds : Ring.Holds q.q q.readAt.toNat xs

namespace Queue.Rep

variable {q : Queue α} {xs : List α}

lemma contents_eq (h : q.Rep xs) : q.contents = xs := by
  rw [contents, h.len_eq, Int.toNat_natCast]
  exact h.holds.window_eq

lemma isFull_iff (h : q.Rep xs) : q.isFull = true ↔ (xs.length : Int) = q.cap := by
  simp [isFull, h.len_eq]

lemma isEmpty_iff (h : q.Rep xs) : q.isEmpty = true ↔ xs = [] := by
  simp [isEmpty, h.len_eq, List.length_eq_zero_iff]

/-- The counters of a ring as natural numbers. -/
lemma exists_nat (h : q.Rep xs) : ∃ c r : ℕ, q.cap = c ∧ q.readAt = r ∧ q.q.length = c ∧
    0 < c ∧ c < 10000000 ∧ r < c ∧ xs.length ≤ c ∧
    q.insertAt = ((r + xs.length) % c : ℕ) := by
  obtain ⟨c, hc⟩ := Int.eq_ofNat_of_zero_le h.cap_pos.le
  obtain ⟨r, hr⟩ := Int.eq_ofNat_of_zero_le h.readAt_nonneg
  have := h.cap_pos
  have := h.cap_lt
  have := h.cells
  have := h.len_le
  have := h.len_eq
  have := h.readAt_lt
  refine ⟨c, r, hc, hr, by omega, by omega, by omega, by omega, by omega, ?_⟩
  rw [h.insertAt_eq, h.len_eq, hc, hr]
  push_cast
  rfl

end Queue.Rep

lemma initQueue_rep {cap : Int} {q : Queue α} (h : initQueue cap true = some q) : q.Rep [] := by
  simp only [initQueue, if_true, Option.some.injEq] at h
  subst h
  split_ifs with hcap
  · constructor <;> simp
  · constructor <;> simp <;> omega

/-! ### `resize` -/

/-- After `n` passes of the loop the first `n` items stand at the front of the new block. -/
lemma Queue.copyCells_ok {q : Queue α} {xs : List α} (h : q.Rep xs) {newQ : List (Option α)}
    (hroom : xs.length ≤ newQ.length) :
    ∀ n ≤ xs.length, ∃ cells, (List.range n).foldlM q.copyCell newQ = .ok cells ∧
      cells.length = newQ.length ∧
      ∀ i (hi : i < xs.length), i < n → cells[i]? = some (some xs[i]) := by
  obtain ⟨c, r, hc, hr, hlen, hpos, hlt, hrc, hxs, -⟩ := h.exists_nat
  intro n hn
  induction n with
  | zero => exact ⟨newQ, rfl, rfl, fun i _ hi => absurd hi (Nat.not_lt_zero i)⟩
  | succ n ih =>
    obtain ⟨cells, hcells, hsize, hcopied⟩ := ih (by omega)
    have hsrc : q.q[(r + n) % c]? = some (some xs[n]) := by
      have := h.holds n (by omega)
      rwa [hr, hlen, Int.toNat_natCast] at this
    have hpass : q.copyCell cells n = .ok (cells.set n (some xs[n])) := by
      have hset : set cells n xs[n] = .ok (cells.set n (some xs[n])) :=
        set_natCast xs[n] (by omega)
      have hadd : add q.readAt (n : Int) = .ok ((r + n : ℕ) : Int) := by
        rw [hr]
        exact add_ok (by omega) (by omega)
      have hrem : rem ((r + n : ℕ) : Int) q.cap = .ok (((r + n) % c : ℕ) : Int) := by
        rw [hc]
        exact rem_natCast hpos (by omega)
      have hnext : add (n : Int) 1 = .ok (n + 1) := add_ok (by omega) (by omega)
      simp only [copyCell, hadd, ok_bind, hrem, get_natCast hsrc, hset, hnext, pure_eq_ok]
    refine ⟨cells.set n (some xs[n]), ?_, by simpa using hsize, ?_⟩
    · simp [List.range_succ, List.foldlM_append, hcells, hpass]
    · intro i hi hin
      by_cases hlast : i = n
      · subst hlast
        rw [List.getElem?_set_self (by omega)]
      · rw [List.getElem?_set_ne (Ne.symm hlast)]
        exact hcopied i hi (by omega)

/-- A full ring is not enlarged at `2 * cap ≥ 10^7` or without memory, and stays as it is. -/
lemma Queue.resize_refuses {q : Queue α} {xs : List α} {mem : Bool} (h : q.Rep xs)
    (hno : 10000000 ≤ 2 * q.cap ∨ mem = false) : q.resize mem = .ok (false, q) := by
  have hpos := h.cap_pos
  have hlt := h.cap_lt
  have hcap : longLong (2 * q.cap) = .ok (2 * q.cap) := longLong_ok (by omega) (by omega)
  cases hfull : q.isFull with
  | false => simp [resize, hfull]
  | true =>
    rcases hno with hbig | rfl
    · simp [resize, hfull, hcap, hbig]
    · simp [resize, hfull, hcap]

/-- A full ring below the limit is copied, unrolled, into a block of twice the size. -/
lemma Queue.resize_ok {q : Queue α} {xs : List α} (h : q.Rep xs) (hfull : q.isFull = true)
    (hcap : 2 * q.cap < 10000000) :
    ∃ q', q.resize true = .ok (true, q') ∧ q'.Rep xs ∧ q'.cap = 2 * q.cap := by
  have hpos := h.cap_pos
  have hlen := h.isFull_iff.mp hfull
  have hroom : xs.length ≤ (List.replicate (2 * q.cap).toNat (none : Option α)).length := by
    rw [List.length_replicate]
    omega
  obtain ⟨cells, hcells, hsize, hcopied⟩ := copyCells_ok h hroom xs.length le_rfl
  refine ⟨⟨cells, 2 * q.cap, q.len, 0, q.len⟩, ?_, ?_, rfl⟩
  · have hnat : q.len.toNat = xs.length := by rw [h.len_eq, Int.toNat_natCast]
    simp [resize, hfull, longLong_ok (x := 2 * q.cap) (by omega) (by omega), not_le.mpr hcap,
      hnat, hcells]
  · rw [List.length_replicate] at hsize
    have hlenEq := h.len_eq
    constructor
    · simp only; omega
    · simp only; omega
    · simp only; omega
    · exact hlenEq
    · simp only; omega
    · exact le_rfl
    · simp only; omega
    · simp only [zero_add]
      exact (Int.emod_eq_of_lt (by omega) (by omega)).symm
    · exact Ring.holds_zero_of_prefix fun i hi => hcopied i hi hi

/-! ### `push` and `pop` -/

/-- The last three lines of `push`, on a ring with a free cell. -/
lemma Queue.push_room {q : Queue α} {xs : List α} (h : q.Rep xs) (val : α) (mem : Bool)
    (hroom : (xs.length : Int) < q.cap) :
    ∃ q', q.push val mem = .ok (true, q') ∧ q'.Rep (xs ++ [val]) ∧ q'.cap = q.cap := by
  obtain ⟨c, r, hc, hr, hlen, hpos, hlt, hrc, hxs, hins⟩ := h.exists_nat
  have hfull : q.isFull = false := by
    rw [Bool.eq_false_iff, Ne, h.isFull_iff]
    omega
  have hat : (r + xs.length) % c < c := Nat.mod_lt _ hpos
  have hadd : add q.insertAt 1 = .ok (((r + xs.length) % c + 1 : ℕ) : Int) := by
    rw [hins]
    exact add_ok (by omega) (by omega)
  have hrem : rem (((r + xs.length) % c + 1 : ℕ) : Int) q.cap
      = .ok (((r + (xs.length + 1)) % c : ℕ) : Int) := by
    rw [hc, rem_natCast hpos (by omega), Nat.mod_add_mod, Nat.add_assoc]
  have hcount : add q.len 1 = .ok (xs.length + 1) := by
    rw [h.len_eq]
    exact add_ok (by omega) (by omega)
  have hset : set q.q q.insertAt val = .ok (q.q.set ((r + xs.length) % c) (some val)) := by
    rw [hins]
    exact set_natCast val (by omega)
  refine ⟨⟨q.q.set ((r + xs.length) % c) (some val), q.cap, xs.length + 1, q.readAt,
    ((r + (xs.length + 1)) % c : ℕ)⟩, ?_, ?_, rfl⟩
  · simp only [push, hfull, Bool.false_eq_true, if_false, pure_eq_ok, ok_bind, Bool.not_true,
      hset, hadd, hrem, hcount]
  have hnew := h.holds.push val (by omega)
  rw [hr, hlen, Int.toNat_natCast] at hnew
  constructor
  · exact h.cap_pos
  · exact h.cap_lt
  · simpa using h.cells
  · simp
  · simp only; omega
  · exact h.readAt_nonneg
  · exact h.readAt_lt
  · simp only [hc, hr]
    push_cast
    rfl
  · simpa [hr] using hnew

/-- What `push` does to a ring: it refuses exactly a full ring that cannot grow. -/
lemma Queue.push_spec {q : Queue α} {xs : List α} (h : q.Rep xs) (val : α) (mem : Bool) :
    ((xs.length : Int) = q.cap ∧ (10000000 ≤ 2 * q.cap ∨ mem = false) ∧
        q.push val mem = .ok (false, q)) ∨
      (¬ ((xs.length : Int) = q.cap ∧ (10000000 ≤ 2 * q.cap ∨ mem = false)) ∧
        ∃ q', q.push val mem = .ok (true, q') ∧ q'.Rep (xs ++ [val]) ∧
          q'.cap = if (xs.length : Int) = q.cap then 2 * q.cap else q.cap) := by
  have hle := h.len_le
  have hpos := h.cap_pos
  rw [h.len_eq] at hle
  by_cases hfull : (xs.length : Int) = q.cap
  · by_cases hno : 10000000 ≤ 2 * q.cap ∨ mem = false
    · left
      refine ⟨hfull, hno, ?_⟩
      simp [push, h.isFull_iff.mpr hfull, resize_refuses h hno]
    · right
      obtain ⟨hcap, rfl⟩ : 2 * q.cap < 10000000 ∧ mem = true := by
        rw [not_or, not_le, Bool.not_eq_false] at hno
        exact hno
      refine ⟨fun hc => hno hc.2, ?_⟩
      obtain ⟨q₁, hq₁, hrep₁, hcap₁⟩ := resize_ok h (h.isFull_iff.mpr hfull) hcap
      -- behind the resize the ring has room, so the rest is `push` on the enlarged ring
      obtain ⟨q₂, hq₂, hrep₂, hcap₂⟩ := push_room hrep₁ val true (by omega)
      have hroom₁ : q₁.isFull = false := by
        rw [Bool.eq_false_iff, Ne, hrep₁.isFull_iff]
        omega
      refine ⟨q₂, ?_, hrep₂, by rw [if_pos hfull, hcap₂, hcap₁]⟩
      simpa [push, h.isFull_iff.mpr hfull, hq₁, hroom₁] using hq₂
  · right
    obtain ⟨q', hq', hrep', hcap'⟩ := push_room h val mem (by omega)
    exact ⟨fun hc => hfull hc.1, q', hq', hrep', by rw [if_neg hfull, hcap']⟩

/-- `pop` refuses the empty ring. -/
lemma Queue.pop_nil {q : Queue α} (h : q.Rep []) (dest : Bool) :
    q.pop dest = .ok (false, none, q) := by
  simp [pop, h.isEmpty_iff.mpr rfl]

/-- `pop` takes the item at the front. -/
lemma Queue.pop_cons {q : Queue α} {x : α} {xs : List α} (h : q.Rep (x :: xs)) (dest : Bool) :
    ∃ q', q.pop dest = .ok (true, (if dest then some x else none), q') ∧ q'.Rep xs ∧
      q'.cap = q.cap := by
  obtain ⟨c, r, hc, hr, hlen, hpos, hlt, hrc, hxs, hins⟩ := h.exists_nat
  rw [List.length_cons] at hxs hins
  have hempty : q.isEmpty = false := by
    rw [Bool.eq_false_iff, Ne, h.isEmpty_iff]
    exact List.cons_ne_nil x xs
  have hget : get q.q q.readAt = .ok x := by
    have hhead := h.holds.head
    rw [hr, hlen, Int.toNat_natCast, Nat.mod_eq_of_lt hrc] at hhead
    rw [hr]
    exact get_natCast hhead
  have hadd : add q.readAt 1 = .ok ((r + 1 : ℕ) : Int) := by
    rw [hr]
    exact add_ok (by omega) (by omega)
  have hrem : rem ((r + 1 : ℕ) : Int) q.cap = .ok (((r + 1) % c : ℕ) : Int) := by
    rw [hc]
    exact rem_natCast hpos (by omega)
  have hcount : sub q.len 1 = .ok xs.length := by
    rw [h.len_eq, List.length_cons, sub_ok (by omega) (by omega)]
    congr 1
    omega
  refine ⟨{ q with readAt := ((r + 1) % c : ℕ), len := xs.length }, ?_, ?_, rfl⟩
  · cases dest <;>
      simp only [pop, hempty, Bool.false_eq_true, if_false, if_true, pure_eq_ok, ok_bind, hget,
        Functor.map, Except.map, hadd, hrem, hcount]
  have hnext : (r + 1) % c < c := Nat.mod_lt _ hpos
  have htail := h.holds.pop
  rw [hr, hlen, Int.toNat_natCast] at htail
  constructor
  · exact h.cap_pos
  · exact h.cap_lt
  · exact h.cells
  · rfl
  · simp only; omega
  · simp only; omega
  · simp only; omega
  · simp only [hins, hc]
    rw [← Int.natCast_add, ← Int.natCast_mod, Nat.mod_add_mod]
    congr 2
    omega
  · exact htail

end Ccybe
