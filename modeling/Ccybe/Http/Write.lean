import Ccybe.Lib.Trace
import Ccybe.Lib.CString

/-!
# Sending a response (`write_to_client` in `http.c`)

A response is sent by one or more calls of `write_to_client`. A call that is told `EAGAIN` has
the WRITE event of the descriptor registered again, and the next call begins with
`total_send = 0`, whatever the calls before it have sent.
-/

namespace Ccybe

open CSem Trace

/-- What `send` returns: a number of bytes, or -1 with `EAGAIN` or with another error. -/
inductive SendResult where
  | sent (n : ℕ)
  | again
  | error
  deriving DecidableEq

/-- Where a pass of the loop in `write_to_client` leads. -/
inductive WritePass where
  | next (totalSend : ℕ)
  | register                -- `kevent` with `EV_ADD | EV_ONESHOT`, then `return`
  | remove                  -- `remove_client`, then `return`
  deriving DecidableEq

/-- The body of the loop, after `totalSend` of `len` bytes; `send` never accepts more than it is
offered. -/
def writePass (len totalSend : ℕ) : SendResult → Option WritePass
  | .sent n =>
    if n ≤ len - totalSend then
      if n = 0 then some .remove else some (.next (totalSend + n))
    else none
  | .again => some .register
  | .error => some .remove

namespace Delivery

/-- Where the delivery of a response is. -/
inductive Phase where
  | writing (totalSend : ℕ)   -- in a call of `write_to_client`, before the test of the loop
  | registered                -- waiting for the WRITE event
  | removed                   -- given up with `remove_client`
  | shut                      -- after `shutdown(SHUT_WR)`
  deriving DecidableEq

inductive Event where
  | send (r : SendResult)
  | shutdown
  | writeEvent
  deriving DecidableEq

end Delivery

/-- The delivery of one response; `accepted` is what `send` has accepted in all calls so far. -/
structure Delivery where
  phase : Delivery.Phase
  accepted : Bytes
  deriving DecidableEq

namespace Delivery

/-- The first call of `write_to_client`. -/
def start : Delivery := ⟨.writing 0, []⟩

def step (resp : Bytes) (d : Delivery) : Event → Option Delivery
  | .send r =>
    match d.phase with
    | .writing totalSend =>
      if totalSend < resp.length then
        match writePass resp.length totalSend r with
        | some (.next total) =>
          some ⟨.writing total, d.accepted ++ (resp.drop totalSend).take (total - totalSend)⟩
        | some .register => some ⟨.registered, d.accepted⟩
        | some .remove => some ⟨.removed, d.accepted⟩
        | none => none
      else none
    | _ => none
  | .shutdown =>
    match d.phase with
    | .writing totalSend =>
      if totalSend < resp.length then none else some ⟨.shut, d.accepted⟩
    | _ => none
  | .writeEvent =>
    match d.phase with
    | .registered => some ⟨.writing 0, d.accepted⟩
    | _ => none

/-- What was accepted is a prefix of the response, and all of it at the shutdown. -/
def Exact (resp : Bytes) (d : Delivery) : Prop :=
  d.accepted <+: resp ∧ (d.phase = .shut → d.accepted = resp)

/-- No call is given bytes after an earlier call was given some. Here `before` says that an
earlier call was, and `now` that the present one was. -/
def KeepsProgress (before now : Bool) : List Event → Prop
  | [] => True
  | .send (.sent n) :: es =>
    (0 < n → before = false) ∧ KeepsProgress before (now || decide (0 < n)) es
  | .writeEvent :: es => KeepsProgress (before || now) false es
  | _ :: es => KeepsProgress before now es

/-! ### What a step can do -/

/-- The steps of a delivery, one constructor for each outcome. -/
inductive Rule (resp : Bytes) (d : Delivery) : Event → Delivery → Prop where
  | sent (total n : ℕ) (hphase : d.phase = .writing total) (hn : 0 < n)
      (hle : total + n ≤ resp.length) :
      Rule resp d (.send (.sent n))
        ⟨.writing (total + n), d.accepted ++ (resp.drop total).take n⟩
  | zero (total : ℕ) (hphase : d.phase = .writing total) (hlt : total < resp.length) :
      Rule resp d (.send (.sent 0)) ⟨.removed, d.accepted⟩
  | again (total : ℕ) (hphase : d.phase = .writing total) (hlt : total < resp.length) :
      Rule resp d (.send .again) ⟨.registered, d.accepted⟩
  | error (total : ℕ) (hphase : d.phase = .writing total) (hlt : total < resp.length) :
      Rule resp d (.send .error) ⟨.removed, d.accepted⟩
  | shutdown (total : ℕ) (hphase : d.phase = .writing total) (hle : resp.length ≤ total) :
      Rule resp d .shutdown ⟨.shut, d.accepted⟩
  | writeEvent (hphase : d.phase = .registered) :
      Rule resp d .writeEvent ⟨.writing 0, d.accepted⟩

lemma Rule.of_step {resp : Bytes} {d d' : Delivery} {e : Event} (h : step resp d e = some d') :
    Rule resp d e d' := by
  cases e with
  | send r =>
    cases hphase : d.phase with
    | writing total =>
      simp only [step, hphase] at h
      split_ifs at h with hlt
      cases r with
      | sent n =>
        simp only [writePass] at h
        split_ifs at h with hle hn
        · subst hn
          cases h
          exact .zero total hphase hlt
        · simp only [Nat.add_sub_cancel_left] at h
          cases h
          exact .sent total n hphase (Nat.pos_of_ne_zero hn) (by omega)
      | again =>
        cases h
        exact .again total hphase hlt
      | error =>
        cases h
        exact .error total hphase hlt
    | registered => simp [step, hphase] at h
    | removed => simp [step, hphase] at h
    | shut => simp [step, hphase] at h
  | shutdown =>
    cases hphase : d.phase with
    | writing total =>
      simp only [step, hphase] at h
      split_ifs at h with hlt
      cases h
      exact .shutdown total hphase (Nat.le_of_not_lt hlt)
    | registered => simp [step, hphase] at h
    | removed => simp [step, hphase] at h
    | shut => simp [step, hphase] at h
  | writeEvent =>
    cases hphase : d.phase with
    | registered =>
      simp only [step, hphase] at h
      cases h
      exact .writeEvent hphase
    | writing total => simp [step, hphase] at h
    | removed => simp [step, hphase] at h
    | shut => simp [step, hphase] at h

/-! ### Runs that keep their progress are exact -/

/-- The invariant of such runs. -/
structure Inv (resp : Bytes) (before now : Bool) (d : Delivery) : Prop where
  exact : Exact resp d
  /-- A call that is given bytes is the first to be given any, and `total_send` counts them. -/
  writing : ∀ total, d.phase = .writing total →
    (before = false ∧ d.accepted = resp.take total) ∨ (before = true ∧ total = 0)
  fresh : before = false → now = false → d.accepted = []

lemma inv_start (resp : Bytes) : Inv resp false false start where
  exact := ⟨List.nil_prefix, fun h => by cases h⟩
  writing := by
    rintro total ⟨⟩
    exact .inl ⟨rfl, by simp [start]⟩
  fresh := fun _ _ => rfl

/-- The calls are over, or wait for the WRITE event. -/
lemma Inv.leave {resp : Bytes} {before now : Bool} {d : Delivery} (h : Inv resp before now d)
    {phase : Phase} (hwriting : ∀ total, phase ≠ .writing total)
    (hshut : phase = .shut → d.accepted = resp) : Inv resp before now ⟨phase, d.accepted⟩ where
  exact := ⟨h.exact.1, hshut⟩
  writing := fun total hphase => absurd hphase (hwriting total)
  fresh := h.fresh

lemma Inv.prefixes_exact {resp : Bytes} {es : List Event} {before now : Bool} {d : Delivery}
    (hinv : Inv resp before now d) (hes : KeepsProgress before now es) {pre : List Event}
    (hpre : pre <+: es) {d' : Delivery} (hrun : run (step resp) d pre = some d') :
    Exact resp d' := by
  induction pre generalizing es before now d with
  | nil =>
    cases hrun
    exact hinv.exact
  | cons e pre ih =>
    obtain ⟨rest, rfl⟩ := hpre
    obtain ⟨u, hstep, hrun⟩ := run_cons_eq_some.mp hrun
    have hrest : pre <+: pre ++ rest := List.prefix_append pre rest
    rw [List.cons_append] at hes
    cases Rule.of_step hstep with
    | sent total n hphase hn hle =>
      obtain ⟨hbefore, hes⟩ := hes
      have hb := hbefore hn
      have hacc : d.accepted = resp.take total := by
        rcases hinv.writing total hphase with ⟨-, hacc⟩ | ⟨hb', -⟩
        · exact hacc
        · rw [hb] at hb'
          cases hb'
      have htake : d.accepted ++ (resp.drop total).take n = resp.take (total + n) := by
        rw [hacc, List.take_add]
      refine ih ⟨⟨?_, fun h => by cases h⟩, ?_, ?_⟩ hes hrest hrun
      · simp only [htake]
        exact List.take_prefix _ _
      · rintro total' ⟨⟩
        exact .inl ⟨hb, htake⟩
      · intro _ hnow
        simp [hn] at hnow
    | zero total hphase hlt =>
      have hes' : KeepsProgress before now (pre ++ rest) := by
        simpa only [lt_irrefl, decide_false, Bool.or_false] using hes.2
      exact ih (hinv.leave (fun _ => Phase.noConfusion) Phase.noConfusion) hes' hrest hrun
    | again total hphase hlt =>
      have hes' : KeepsProgress before now (pre ++ rest) := hes
      exact ih (hinv.leave (fun _ => Phase.noConfusion) Phase.noConfusion) hes' hrest hrun
    | error total hphase hlt =>
      have hes' : KeepsProgress before now (pre ++ rest) := hes
      exact ih (hinv.leave (fun _ => Phase.noConfusion) Phase.noConfusion) hes' hrest hrun
    | shutdown total hphase hle =>
      have hes' : KeepsProgress before now (pre ++ rest) := hes
      have hall : d.accepted = resp := by
        rcases hinv.writing total hphase with ⟨-, hacc⟩ | ⟨-, rfl⟩
        · rw [hacc, List.take_of_length_le hle]
        · -- an empty response
          have hnil : resp = [] := List.length_eq_zero_iff.mp (Nat.le_zero.mp hle)
          have hacc := hinv.exact.1
          rw [hnil] at hacc ⊢
          exact List.prefix_nil.mp hacc
      exact ih (hinv.leave (fun _ => Phase.noConfusion) fun _ => hall) hes' hrest hrun
    | writeEvent hphase =>
      have hes' : KeepsProgress (before || now) false (pre ++ rest) := hes
      have hfresh : (before || now) = false → d.accepted = [] := by
        intro hb
        rw [Bool.or_eq_false_iff] at hb
        exact hinv.fresh hb.1 hb.2
      refine ih (d := ⟨.writing 0, d.accepted⟩)
        ⟨⟨hinv.exact.1, Phase.noConfusion⟩, ?_, fun hb _ => hfresh hb⟩ hes' hrest hrun
      rintro total ⟨⟩
      cases hb : before || now with
      | true => exact .inr ⟨rfl, rfl⟩
      | false => exact .inl ⟨rfl, by simpa using hfresh hb⟩

/-! ### Runs that lose their progress are not exact -/

/-- Whether a run is possible depends on the length of the response only. -/
lemma run_isSome_of_length_eq {resp resp' : Bytes} (hlen : resp.length = resp'.length)
    {es : List Event} {d d' : Delivery} (hphase : d.phase = d'.phase)
    (h : (run (step resp) d es).isSome) : (run (step resp') d' es).isSome := by
  induction es generalizing d d' with
  | nil => rfl
  | cons e es ih =>
    obtain ⟨t, ht⟩ := Option.isSome_iff_exists.mp h
    obtain ⟨u, hu, hrun⟩ := run_cons_eq_some.mp ht
    have hstep : ∃ u', step resp' d' e = some u' ∧ u.phase = u'.phase := by
      cases Rule.of_step hu with
      | sent total n hp hn hle =>
        have hlt : total < resp'.length := by omega
        have hle' : n ≤ resp'.length - total := by omega
        refine ⟨⟨.writing (total + n), d'.accepted ++ (resp'.drop total).take n⟩, ?_, rfl⟩
        simp [step, ← hphase, hp, hlt, writePass, hle', hn.ne']
      | zero total hp hlt =>
        rw [hlen] at hlt
        exact ⟨⟨.removed, d'.accepted⟩, by simp [step, ← hphase, hp, hlt, writePass], rfl⟩
      | again total hp hlt =>
        rw [hlen] at hlt
        exact ⟨⟨.registered, d'.accepted⟩, by simp [step, ← hphase, hp, hlt, writePass], rfl⟩
      | error total hp hlt =>
        rw [hlen] at hlt
        exact ⟨⟨.removed, d'.accepted⟩, by simp [step, ← hphase, hp, hlt, writePass], rfl⟩
      | shutdown total hp hle =>
        rw [hlen] at hle
        exact ⟨⟨.shut, d'.accepted⟩, by simp [step, ← hphase, hp, hle], rfl⟩
      | writeEvent hp =>
        exact ⟨⟨.writing 0, d'.accepted⟩, by simp [step, ← hphase, hp], rfl⟩
    obtain ⟨u', hu', hp⟩ := hstep
    simp only [run, hu', Option.bind_some]
    exact ih hp (by rw [hrun]; rfl)

/-- A response whose first byte does not occur again. -/
def probe (len : ℕ) : Bytes := (1 :: List.replicate len 0).take len

@[simp] lemma length_probe (len : ℕ) : (probe len).length = len := by simp [probe]

/-- What begins like a probe does not occur in it twice. -/
lemma not_append_prefix_probe {len n : ℕ} {bs : Bytes} (hbs : bs ≠ []) (hn : 0 < n)
    (hle : n ≤ len) : ¬ bs ++ (probe len).take n <+: probe len := by
  intro hpre
  obtain ⟨c, bs, rfl⟩ := List.exists_cons_of_ne_nil hbs
  obtain ⟨n, rfl⟩ := Nat.exists_eq_succ_of_ne_zero hn.ne'
  obtain ⟨len, rfl⟩ := Nat.exists_eq_succ_of_ne_zero (Nat.ne_of_gt (lt_of_lt_of_le hn hle))
  have hone : (1 : UInt8) ∈ bs ++ (probe (len + 1)).take (n + 1) := by simp [probe]
  rw [List.cons_append] at hpre
  have hmem : (1 : UInt8) ∈ (List.replicate (len + 1) 0).take len := by
    rw [probe, List.take_succ_cons, List.cons_prefix_cons] at hpre
    exact hpre.2.subset hone
  have hzero := List.eq_of_mem_replicate (List.mem_of_mem_take hmem)
  exact absurd hzero (by decide)

/-- If all prefixes of a run on the probe are exact, the run keeps its progress. -/
lemma keepsProgress_of_exact {len : ℕ} {es : List Event} {before now : Bool} {d : Delivery}
    (hbefore : before = true → now = false ∧ d.accepted ≠ [])
    (hnow : now = true → d.accepted ≠ [])
    (hzero : now = false → ∀ total, d.phase = .writing total → total = 0)
    (hrun : (run (step (probe len)) d es).isSome)
    (hexact : ∀ pre, pre <+: es → ∀ d', run (step (probe len)) d pre = some d' →
      Exact (probe len) d') : KeepsProgress before now es := by
  induction es generalizing before now d with
  | nil => trivial
  | cons e es ih =>
    obtain ⟨t, ht⟩ := Option.isSome_iff_exists.mp hrun
    obtain ⟨u, hu, hrun⟩ := run_cons_eq_some.mp ht
    have hrun' : (run (step (probe len)) u es).isSome := by rw [hrun]; rfl
    have hexact' : ∀ pre, pre <+: es → ∀ d', run (step (probe len)) u pre = some d' →
        Exact (probe len) d' := fun pre hpre d' hd' =>
      hexact (e :: pre) (List.cons_prefix_cons.mpr ⟨rfl, hpre⟩) d'
        (run_cons_eq_some.mpr ⟨u, hu, hd'⟩)
    cases Rule.of_step hu with
    | sent total n hphase hn hle =>
      rw [length_probe] at hle
      have hb : before = false := by
        rw [← Bool.not_eq_true]
        intro hb
        obtain ⟨hnow', hne⟩ := hbefore hb
        obtain rfl := hzero hnow' total hphase
        have hpre := (hexact' [] List.nil_prefix _ rfl).1
        rw [List.drop_zero] at hpre
        exact not_append_prefix_probe hne hn (by omega) hpre
      have hne : d.accepted ++ ((probe len).drop total).take n ≠ [] := by
        intro hnil
        have hlen := congrArg List.length hnil
        simp only [List.length_append, List.length_take, List.length_drop, length_probe,
          List.length_nil] at hlen
        omega
      refine ⟨fun _ => hb, ih ?_ (fun _ => hne) ?_ hrun' hexact'⟩
      · intro hb'
        rw [hb] at hb'
        cases hb'
      · intro hnow'
        simp [hn] at hnow'
    | zero total hphase hlt =>
      refine ⟨fun h => absurd h (lt_irrefl 0), ?_⟩
      simp only [lt_irrefl, decide_false, Bool.or_false]
      exact ih (d := ⟨.removed, d.accepted⟩) hbefore hnow (fun _ _ => Phase.noConfusion) hrun'
        hexact'
    | again total hphase hlt =>
      exact ih (d := ⟨.registered, d.accepted⟩) hbefore hnow (fun _ _ => Phase.noConfusion) hrun'
        hexact'
    | error total hphase hlt =>
      exact ih (d := ⟨.removed, d.accepted⟩) hbefore hnow (fun _ _ => Phase.noConfusion) hrun'
        hexact'
    | shutdown total hphase hle =>
      exact ih (d := ⟨.shut, d.accepted⟩) hbefore hnow (fun _ _ => Phase.noConfusion) hrun'
        hexact'
    | writeEvent hphase =>
      refine ih ?_ (fun h => by cases h) ?_ hrun' hexact'
      · intro hb
        refine ⟨rfl, ?_⟩
        rcases (Bool.or_eq_true _ _).mp hb with hb | hb
        · exact (hbefore hb).2
        · exact hnow hb
      · rintro - total ⟨⟩
        rfl

/-- Take a possible sequence of results. On all responses of that length what was accepted is
always a prefix of the response, and all of it at the shutdown, if and only if no call is given
bytes after an earlier call was given some. -/
theorem delivered_once_iff (resp : Bytes) (es : List Event)
    (hrun : (run (step resp) start es).isSome) :
    (∀ resp', resp'.length = resp.length → ∀ pre, pre <+: es → ∀ d,
      run (step resp') start pre = some d → Exact resp' d) ↔ KeepsProgress false false es := by
  constructor
  · intro hexact
    have hprobe : (run (step (probe resp.length)) start es).isSome :=
      run_isSome_of_length_eq (length_probe _).symm rfl hrun
    refine keepsProgress_of_exact (fun h => by cases h) (fun h => by cases h) ?_ hprobe
      (hexact _ (length_probe _))
    rintro - total ⟨⟩
    rfl
  · rintro hes resp' - pre hpre d hd
    exact (inv_start resp').prefixes_exact hes hpre hd

/-- Two partial results in one call. -/
theorem delivered_once_iff_partial :
    (∀ resp', resp'.length = [1, 2, 3].length →
      ∀ pre, pre <+: [.send (.sent 1), .send (.sent 2), .shutdown] → ∀ d,
      run (step resp') start pre = some d → Exact resp' d) ↔
    KeepsProgress false false [.send (.sent 1), .send (.sent 2), .shutdown] :=
  delivered_once_iff [1, 2, 3] _ (by decide)

/-- One byte is accepted, then `EAGAIN`; the next call sends the response from its first byte on,
and the client is given three bytes instead of two. -/
theorem resent_after_again :
    ∃ d, run (step [97, 98]) start
      [.send (.sent 1), .send .again, .writeEvent, .send (.sent 2), .shutdown] = some d ∧
      d.phase = .shut ∧ d.accepted = [97, 97, 98] ∧ ¬ Exact [97, 98] d := by
  refine ⟨⟨.shut, [97, 97, 98]⟩, by decide, rfl, rfl, fun h => ?_⟩
  exact absurd (h.2 rfl) (by decide)

end Delivery

end Ccybe
