import Ccybe.Ds.Fifo

/-!
# The capacity of the queue

`queue.h` has a limit of a million, which `init_queue` respects. `resize` compares with ten millions.
-/

namespace Ccybe

open CSem

variable {α : Type}

namespace Queue

/-- `q` is full, and with the double capacity it would be over the limit. -/
def WouldExceed (q : Queue α) : Prop := q.len = q.cap ∧ 1000000 < 2 * q.cap

/-- The call `op` is one of `ops`, and `q` is the queue before it. -/
def Visits (q₀ : Queue α) (ops : List (Queue.Op α)) (q : Queue α) (op : Queue.Op α) : Prop :=
  ∃ before behind, ops = before ++ op :: behind ∧ q₀.applyAll before = .ok q

/-- The capacity is never over the limit, and where it would be `push` refuses. -/
structure KeepsLimit (q₀ : Queue α) (ops : List (Queue.Op α)) : Prop where
  cap : ∀ before, before <+: ops → ∃ q, q₀.applyAll before = .ok q ∧ q.cap ≤ 1000000
  refuses : ∀ q val mem, q₀.Visits ops q (.push val mem) → q.WouldExceed →
    q.push val mem = .ok (false, q)

/-! ### Steps -/

lemma apply_push {q : Queue α} {val : α} {mem ok : Bool} {q' : Queue α}
    (h : q.push val mem = .ok (ok, q')) : q.apply (.push val mem) = .ok q' := by
  rw [apply, h]
  rfl

/-- A queue that would be over the limit refuses only where there is no memory. -/
lemma Rep.push_exceed {q : Queue α} {xs : List α} (h : q.Rep xs) (hcap : q.cap ≤ 1000000)
    (hexceed : q.WouldExceed) (val : α) (mem : Bool) :
    (mem = false ∧ q.push val mem = .ok (false, q)) ∨
      (mem = true ∧ ∃ q', q.push val mem = .ok (true, q') ∧ q'.cap = 2 * q.cap) := by
  have hfull : (xs.length : Int) = q.cap := h.len_eq.symm.trans hexceed.1
  rcases push_spec h val mem with ⟨-, hno, hq⟩ | ⟨hyes, q', hq, -, hcap'⟩
  · exact .inl ⟨hno.resolve_left (by omega), hq⟩
  · refine .inr ⟨?_, q', hq, by rw [hcap', if_pos hfull]⟩
    cases mem with
    | true => rfl
    | false => exact absurd ⟨hfull, .inr rfl⟩ hyes

/-- A call keeps the capacity below the limit, if it is no push with memory on a queue that would be
over it. -/
lemma Rep.apply_cap {q : Queue α} {xs : List α} (h : q.Rep xs) (hcap : q.cap ≤ 1000000)
    {op : Queue.Op α} (hgood : ∀ val, op = .push val true → ¬ q.WouldExceed) :
    ∃ q' xs', q.apply op = .ok q' ∧ q'.Rep xs' ∧ q'.cap ≤ 1000000 := by
  obtain ⟨q', xs', happly, hrep'⟩ := apply_rep h op
  refine ⟨q', xs', happly, hrep', ?_⟩
  cases op with
  | push val mem =>
    rcases push_spec h val mem with ⟨-, -, hq⟩ | ⟨hyes, q₁, hq, -, hcap₁⟩
    · obtain rfl := Except.ok.inj ((apply_push hq).symm.trans happly)
      exact hcap
    · obtain rfl := Except.ok.inj ((apply_push hq).symm.trans happly)
      rw [hcap₁]
      split_ifs with hfull
      · have hlen := h.len_eq.trans hfull
        have hmem : mem = true := by
          cases mem with
          | true => rfl
          | false => exact absurd ⟨hfull, .inr rfl⟩ hyes
        have hnot := hgood val (by rw [hmem])
        rw [WouldExceed, not_and, not_lt] at hnot
        exact hnot hlen
      · exact hcap
  | pop dest =>
    cases xs with
    | nil =>
      rw [apply, pop_nil h] at happly
      cases happly
      exact hcap
    | cons x xs =>
      obtain ⟨q₁, hq, -, hcap₁⟩ := pop_cons h dest
      rw [apply, hq] at happly
      cases happly
      rw [hcap₁]
      exact hcap

/-! ### Runs -/

lemma applyAll_cons {q q₁ : Queue α} {op : Queue.Op α} (h : q.apply op = .ok q₁)
    (ops : List (Queue.Op α)) : q.applyAll (op :: ops) = q₁.applyAll ops := by
  rw [applyAll, List.foldlM_cons, h]
  rfl

/-- The calls keep the capacity below the limit, if none of them is such a push. -/
lemma Rep.applyAll_cap (ops : List (Queue.Op α)) {q : Queue α} {xs : List α} (h : q.Rep xs)
    (hcap : q.cap ≤ 1000000)
    (hgood : ∀ q' val, q.Visits ops q' (.push val true) → ¬ q'.WouldExceed) :
    ∃ q' xs', q.applyAll ops = .ok q' ∧ q'.Rep xs' ∧ q'.cap ≤ 1000000 := by
  induction ops generalizing q xs with
  | nil => exact ⟨q, xs, rfl, h, hcap⟩
  | cons op ops ih =>
    have hfirst : ∀ val, op = .push val true → ¬ q.WouldExceed := by
      rintro val rfl
      exact hgood q val ⟨[], ops, rfl, rfl⟩
    obtain ⟨q₁, xs₁, happly, hrep₁, hcap₁⟩ := h.apply_cap hcap hfirst
    have hrest : ∀ q' val, q₁.Visits ops q' (.push val true) → ¬ q'.WouldExceed := by
      rintro q' val ⟨before, behind, rfl, hq'⟩
      exact hgood q' val ⟨op :: before, behind, rfl, by rw [applyAll_cons happly, hq']⟩
    obtain ⟨q₂, xs₂, hq₂, hrep₂, hcap₂⟩ := ih hrep₁ hcap₁ hrest
    exact ⟨q₂, xs₂, by rw [applyAll_cons happly, hq₂], hrep₂, hcap₂⟩

lemma initQueue_cap {cap : Int} {q : Queue α} (h : initQueue cap true = some q) : q.cap ≤ 1000000 := by
  simp only [initQueue, if_true, Option.some.injEq] at h
  subst h
  split_ifs with hbad
  · exact show (1 : Int) ≤ 1000000 by decide
  · rw [not_or, not_lt] at hbad
    exact hbad.2

/-- From every `init_queue` on the limit is kept if and only if there is no push with memory on a full
queue that would be over it with the double capacity. -/
theorem keepsLimit_iff {cap : Int} {q₀ : Queue α} (hinit : initQueue cap true = some q₀)
    (ops : List (Queue.Op α)) :
    q₀.KeepsLimit ops ↔ ∀ q val, q₀.Visits ops q (.push val true) → ¬ q.WouldExceed := by
  have hrep₀ := initQueue_rep hinit
  constructor
  · rintro ⟨hcap, hrefuses⟩ q val hvisit hexceed
    have hfalse := hrefuses q val true hvisit hexceed
    obtain ⟨before, behind, hops, hq⟩ := hvisit
    obtain ⟨q', xs, hq', hrep⟩ := applyAll_rep before hrep₀
    obtain rfl := Except.ok.inj (hq.symm.trans hq')
    obtain ⟨q', hq', hle⟩ := hcap before ⟨_, hops.symm⟩
    obtain rfl := Except.ok.inj (hq.symm.trans hq')
    rcases hrep.push_exceed hle hexceed val true with ⟨hmem, -⟩ | ⟨-, q₁, hpush, -⟩
    · cases hmem
    · rw [hpush] at hfalse
      cases hfalse
  · intro hgood
    have hcap : ∀ before, before <+: ops →
        ∃ q xs, q₀.applyAll before = .ok q ∧ q.Rep xs ∧ q.cap ≤ 1000000 := by
      rintro before ⟨behind, rfl⟩
      refine hrep₀.applyAll_cap before (initQueue_cap hinit) ?_
      rintro q val ⟨u, v, rfl, hq⟩
      exact hgood q val ⟨u, v ++ behind, by simp, hq⟩
    refine ⟨fun before hbefore => ?_, fun q val mem hvisit hexceed => ?_⟩
    · obtain ⟨q, -, hq, -, hle⟩ := hcap before hbefore
      exact ⟨q, hq, hle⟩
    · cases mem with
      | true => exact absurd hexceed (hgood q val hvisit)
      | false =>
        obtain ⟨before, behind, hops, hq⟩ := hvisit
        obtain ⟨q', xs, hq', hrep, hle⟩ := hcap before ⟨_, hops.symm⟩
        obtain rfl := Except.ok.inj (hq.symm.trans hq')
        rcases hrep.push_exceed hle hexceed val false with ⟨-, hrefused⟩ | ⟨hmem, -⟩
        · exact hrefused
        · cases hmem

/-- The queue of the greatest capacity, with a push and a pop. -/
theorem keepsLimit_iff_pair : ∃ q₀ : Queue ℕ, initQueue 1000000 true = some q₀ ∧
    (q₀.KeepsLimit [.push 5 true, .pop true] ↔
      ∀ q val, q₀.Visits [.push 5 true, .pop true] q (.push val true) → ¬ q.WouldExceed) :=
  ⟨_, Fifo.init_raw 1000000, keepsLimit_iff (Fifo.init_raw 1000000) _⟩

/-- As long as there is room, each push adds an item. -/
lemma Rep.applyAll_pushes {q : Queue α} (h : q.Rep []) (val : α) (n : ℕ) (hn : n ≤ q.cap) :
    ∃ q', q.applyAll (List.replicate n (.push val true)) = .ok q' ∧
      q'.Rep (List.replicate n val) ∧ q'.cap = q.cap := by
  induction n with
  | zero => exact ⟨q, rfl, h, rfl⟩
  | succ n ih =>
    obtain ⟨q₁, hq₁, hrep₁, hcap₁⟩ := ih (by omega)
    obtain ⟨q₂, hq₂, hrep₂, hcap₂⟩ := push_room hrep₁ val true (by rw [List.length_replicate]; omega)
    refine ⟨q₂, ?_, ?_, hcap₂.trans hcap₁⟩
    · rw [applyAll, List.replicate_succ', List.foldlM_append]
      rw [applyAll] at hq₁
      rw [hq₁, ok_bind, List.foldlM_cons, apply_push hq₂]
      rfl
    · rwa [List.replicate_succ']

/-- One more push than the capacity doubles it. -/
lemma Rep.applyAll_overfull {q : Queue α} (h : q.Rep []) (hle : q.cap ≤ 1000000) (val : α) {n : ℕ}
    (hn : n = q.cap) :
    ∃ q', q.applyAll (List.replicate (n + 1) (.push val true)) = .ok q' ∧ q'.cap = 2 * q.cap := by
  obtain ⟨q₁, hq₁, hrep₁, hcap₁⟩ := h.applyAll_pushes val n hn.le
  rcases push_spec hrep₁ val true with ⟨-, hno, -⟩ | ⟨-, q₂, hq₂, -, hcap₂⟩
  · rcases hno with hno | hno
    · omega
    · cases hno
  · rw [List.length_replicate, hn, if_pos hcap₁.symm, hcap₁] at hcap₂
    refine ⟨q₂, ?_, hcap₂⟩
    rw [applyAll] at hq₁
    rw [applyAll, List.replicate_succ', List.foldlM_append, hq₁, ok_bind, List.foldlM_cons,
      apply_push hq₂]
    rfl

/-- A million and one pushes on a queue for a million. -/
theorem million_pushes_exceed : ∃ q₀ : Queue ℕ, initQueue 1000000 true = some q₀ ∧
    (∃ q, q₀.applyAll (List.replicate (1000000 + 1) (.push 5 true)) = .ok q ∧ q.cap = 2000000) ∧
    ¬ q₀.KeepsLimit (List.replicate (1000000 + 1) (.push 5 true)) := by
  have hinit : initQueue 1000000 true = some (Fifo.init 1000000 : Fifo ℕ).raw := Fifo.init_raw 1000000
  have hcap : (Fifo.init 1000000 : Fifo ℕ).raw.cap = 1000000 := rfl
  obtain ⟨q, hq, hdouble⟩ := (initQueue_rep hinit).applyAll_overfull hcap.le 5 (n := 1000000) hcap.symm
  rw [hcap] at hdouble
  refine ⟨_, hinit, ⟨q, hq, hdouble⟩, fun hkeeps => ?_⟩
  obtain ⟨q', hq', hle⟩ := hkeeps.cap _ List.prefix_rfl
  rw [hq] at hq'
  cases hq'
  omega

end Queue

end Ccybe
