import Ccybe.Http.Segmentation
import Ccybe.Http.Settled
import Ccybe.Http.Shutdown

/-!
# The server delivers responses as `Delivery` does

A task node is on its way to its response, waits for a WRITE event with it, or is in the hands of
`write_to_client`. What the steps of the server, in whatever order, do to one node with a response
is a run of the delivery of this response. So what was proved of deliveries holds of the server.
-/

namespace Ccybe

open CSem Trace Tally

/-- The task nodes of the WRITE events that are left in the batch. -/
def LoopPoint.batched : LoopPoint → Multiset Addr
  | .events es => writes es
  | .accepting es => writes es
  | .reading es _ _ _ => writes es
  | .building es _ _ _ _ => writes es
  | .handing es _ => writes es
  | .writing es _ _ => writes es
  | _ => 0

/-- The task node in the hands of `write_to_client`. -/
def LoopPoint.current : LoopPoint → Multiset Addr
  | .writing _ t _ => {t}
  | _ => 0

/-- The task node whose WRITE event is about to be registered. -/
def HandlePoint.registering : HandlePoint → Multiset Addr
  | .register t _ => {t}
  | _ => 0

attribute [simp] LoopPoint.batched LoopPoint.current HandlePoint.registering

lemma LoopPoint.refs_eq (p : LoopPoint) : p.refs = p.handed + p.batched + p.current := by
  cases p with
  | handing es t => simp [refs, handed]
  | writing es t total =>
    change t ::ₘ writes es = 0 + writes es + {t}
    rw [zero_add, add_comm, Multiset.singleton_add]
  | _ => simp [refs, handed]

lemma HandlePoint.refs_eq (p : HandlePoint) : p.refs = p.unanswered + p.registering := by
  cases p <;> simp [refs, unanswered]

namespace Server

variable {n : ℕ} {W : Type}

/-- The task nodes that wait for a WRITE event. -/
def waiting (s : Server n W) : Multiset Addr :=
  s.loop.batched + total HandlePoint.registering s.handling + s.conns.refs

/-- Each reference is one for a response that is to be generated, or to be sent, or that is being
sent. -/
lemma refs_eq (s : Server n W) : s.refs = s.unanswered + s.waiting + s.loop.current := by
  have htotal : total HandlePoint.refs s.handling =
      total HandlePoint.unanswered s.handling + total HandlePoint.registering s.handling := by
    simp only [total, HandlePoint.refs_eq, Finset.sum_add_distrib]
  rw [refs, unanswered, waiting, s.loop.refs_eq, htotal]
  abel

/-! ### Where a task node goes -/

lemma HandleMoves.unanswered {app : App W} {s : Server n W} {i : Fin n} {p : HandlePoint}
    (h : s.HandleMoves app i p) : p.unanswered ≤ (s.handling i).unanswered := by
  cases h with
  | badRequest t node h => exact Multiset.zero_le _
  | parsedGet t node text ok req h => simp [h, HandlePoint.unanswered]
  | parsedOther t node text ok req method h => simp [h, HandlePoint.unanswered]
  | found t client req h => simp [h, HandlePoint.unanswered]
  | registerFailed t client h => exact Multiset.zero_le _

lemma Rule.mem_handed {app : App W} {s s' : Server n W} {l : Label n W} (h : Rule app s l s')
    {t : Addr} (hlt : t < s.nextTnode) (ht : t ∈ s'.loop.handed) : t ∈ s.loop.handed := by
  cases h with
  | move a p hp => exact hp.handed.2 ▸ ht
  | built a es client buf chunks conn mem buffer hloop hcopy hdata =>
    exact absurd (Multiset.mem_singleton.mp ht) hlt.ne
  | signal => exact ht
  | fault => exact ht
  | accept => exact ht
  | enter => exact ht
  | wake => exact ht
  | handle => exact ht
  | generate => exact ht
  | register => exact ht
  | finish => exact ht
  | _ => exact absurd ht (Multiset.notMem_zero t)

lemma Rule.mem_queue {app : App W} {s s' : Server n W} {l : Label n W} (h : Rule app s l s')
    {t : Addr} (ht : t ∈ s'.pool.refs) : t ∈ s.loop.handed + s.pool.refs := by
  rw [Multiset.mem_add]
  rcases h.pool_refs with hqueue | ⟨es, u, hloop⟩
  · exact .inr (hqueue t ht)
  · cases h with
    | push es' u' mem ws r hloop' hr =>
      rcases Multiset.mem_cons.mp (Multiset.mem_of_le (Pool.refs_of_pushTask hr) ht) with heq | hmem
      · refine .inl ?_
        rw [hloop', heq]
        exact Multiset.mem_singleton_self _
      · exact .inr hmem
    | enter i p hp =>
      have hmove := Pool.refs_of_enter hp
      exact .inr (hmove ▸ Multiset.mem_add.mpr (.inl ht))
    | wake i p hp => exact .inr (Pool.refs_of_wake hp ▸ ht)
    | finish i p hi hp => exact .inr (Pool.refs_of_finish hp ▸ ht)
    | destroyPool hloop' => exact .inr ht
    | _ => exact .inr ht

/-- An older node that is to be answered after a step was so before it. -/
lemma Rule.mem_unanswered {app : App W} {s s' : Server n W} {l : Label n W} (h : Rule app s l s')
    {t : Addr} (hlt : t < s.nextTnode) (ht : t ∈ s'.unanswered) : t ∈ s.unanswered := by
  simp only [unanswered, Multiset.mem_add] at ht ⊢
  rcases ht with (hloop | hqueue) | hworker
  · exact .inl (.inl (h.mem_handed hlt hloop))
  · exact .inl (Multiset.mem_add.mp (h.mem_queue hqueue))
  · obtain ⟨i, hi⟩ := mem_total.mp hworker
    cases h.places i with
    | stays heq => exact .inr (mem_total.mpr ⟨i, heq ▸ hi⟩)
    | enters hpool heq =>
      rw [heq, HandlePoint.unanswered_ofWorker] at hi
      exact .inl (.inr (refs_ofWorker hpool hi))
    | moves hmove htnodes => exact .inr (mem_total.mpr ⟨i, Multiset.mem_of_le hmove.unanswered hi⟩)
    | generates u client req heq heq' =>
      rw [heq'] at hi
      exact absurd hi (Multiset.notMem_zero t)
    | registers u client heq heq' =>
      rw [heq'] at hi
      exact absurd hi (Multiset.notMem_zero t)

/-- A node that is not to be answered keeps what it has, or is freed. -/
lemma Rule.tnodes_of_answered {app : App W} {s s' : Server n W} {l : Label n W} (h : Rule app s l s')
    {t : Addr} (hlt : t < s.nextTnode) (ht : t ∉ s.unanswered) {node : ThreadNode}
    (hnode : s'.tnodes t = some node) : s.tnodes t = some node := by
  cases h with
  | built a es client buf chunks conn mem buffer hloop hcopy hdata =>
    exact (Function.update_of_ne hlt.ne _ _).symm.trans hnode
  | done es u node' resp total hloop hnode' hresp hle =>
    have hupdate : Function.update s.tnodes u none t = some node := hnode
    by_cases hu : t = u
    · rw [hu, Function.update_self] at hupdate
      cases hupdate
    · rwa [Function.update_of_ne hu] at hupdate
  | generate i u client req w node' hi hnode' =>
    have hu : t ≠ u := by
      rintro rfl
      refine ht (Multiset.mem_add.mpr (.inr (mem_total.mpr ⟨i, ?_⟩)))
      rw [hi]
      exact Multiset.mem_singleton_self t
    exact (Function.update_of_ne hu _ _).symm.trans hnode
  | _ => exact hnode

/-! ### Every response that is waited for is there -/

/-- The node at `t` has a response. -/
def Filled (s : Server n W) (t : Addr) : Prop :=
  ∃ node resp, s.tnodes t = some node ∧ node.completeResp = some resp

/-- The task nodes whose responses are to be sent, or are being sent. -/
def outgoing (s : Server n W) : Multiset Addr := s.waiting + s.loop.current

lemma mem_outgoing {s : Server n W} {t : Addr} : t ∈ s.outgoing ↔
    (t ∈ s.loop.batched ∨ t ∈ s.loop.current) ∨
      (∃ i, t ∈ (s.handling i).registering) ∨ t ∈ s.conns.refs := by
  simp only [outgoing, waiting, Multiset.mem_add, mem_total]
  tauto

lemma refs_eq_outgoing (s : Server n W) : s.refs = s.unanswered + s.outgoing := by
  rw [refs_eq, outgoing, add_assoc]

lemma Moves.outgoing {app : App W} {s : Server n W} {p : LoopPoint} (h : s.Moves app p) {t : Addr}
    (ht : t ∈ p.batched ∨ t ∈ p.current) : t ∈ s.loop.batched ∨ t ∈ s.loop.current := by
  cases h with
  | listened ok h => cases ok <;> simp at ht
  | tested h => cases hs : s.shutdownSignal <;> simp [hs] at ht
  | toAccept udata es h => simpa [h] using ht
  | toRead ident a es node mem buf h hne hnode hbuf =>
    simpa [h] using ht
  | toWrite ident u es node h hnode =>
    simpa [h, or_comm] using ht
  | accepted es h => simpa [h] using ht
  | received es client buf buf' chunks chunk mem h hbuf =>
    simpa [h] using ht
  | dropReading es client buf chunks h => simpa [h] using ht
  | _ => simp at ht

/-- A response that is to be sent after a step was so before it, or was generated in the step. -/
lemma Rule.mem_outgoing {app : App W} {s s' : Server n W} {l : Label n W} (h : Rule app s l s')
    {t : Addr} (ht : t ∈ s'.outgoing) : t ∈ s.outgoing ∨ s'.Filled t := by
  have hkept : (t ∈ s'.loop.batched ∨ t ∈ s'.loop.current →
        t ∈ s.loop.batched ∨ t ∈ s.loop.current) →
      s'.handling = s.handling → (t ∈ s'.conns.refs → t ∈ s.conns.refs) → t ∈ s.outgoing := by
    intro hloop hhandling hconns
    rw [Server.mem_outgoing] at ht ⊢
    rw [hhandling] at ht
    exact ht.imp hloop (Or.imp_right hconns)
  have hworker : s'.loop = s.loop → s'.conns.refs = s.conns.refs →
      (∀ i, (s'.handling i).registering ≤ (s.handling i).registering) → t ∈ s.outgoing := by
    intro hloop hconns hhandling
    rw [Server.mem_outgoing] at ht ⊢
    rw [hloop, hconns] at ht
    exact ht.imp_right (Or.imp_left fun ⟨i, hi⟩ => ⟨i, Multiset.mem_of_le (hhandling i) hi⟩)
  cases h with
  | move a p hp => exact .inl (hkept hp.outgoing rfl id)
  | signal => exact .inl ht
  | fault => exact .inl ht
  | wake => exact .inl ht
  | finish => exact .inl ht
  | accept es fd nonblock mem registered hloop =>
    exact .inl (hkept id rfl (Multiset.mem_of_le (s.conns.acceptClient_refs fd nonblock registered)))
  | notBuilt es client buf chunks conn memTnode memBuffer memReq memResp hloop hmem =>
    exact .inl (hkept (by simp [hloop]) rfl id)
  | drained a es client buf chunks c hloop hc =>
    exact .inl (hkept (by simp [hloop]) rfl id)
  | built a es client buf chunks conn mem buffer hloop hcopy hdata =>
    exact .inl (hkept (by simp [hloop]) rfl id)
  | push es u mem ws r hloop hr =>
    exact .inl (hkept (by simp [hloop]) rfl id)
  | sent a es u node resp total k c hloop hnode hresp hc hk hle =>
    exact .inl (hkept (by simp [hloop]) rfl id)
  | destroyRoute hloop =>
    exact .inl (hkept (by simp) rfl id)
  | destroyPool hloop =>
    exact .inl (hkept (by simp) rfl id)
  | freeList hloop =>
    exact .inl (hkept (by simp) rfl
      (Multiset.mem_of_le s.conns.freeList_refs))
  | eof a ident udata es hloop =>
    exact .inl (hkept (by simp [hloop]) rfl
      (Multiset.mem_of_le (s.conns.removeClient_refs ident)))
  | disconnected a es client buf chunks hloop =>
    exact .inl (hkept (by simp [hloop]) rfl
      (Multiset.mem_of_le (s.conns.removeClient_refs client.fd)))
  | gaveUp es u node resp total r registered hloop hnode hresp hr =>
    exact .inl (hkept (by simp +contextual [hloop]) rfl
      (Multiset.mem_of_le (s.conns.removeClient_refs node.client.fd)))
  | done es u node resp total hloop hnode hresp hle =>
    exact .inl (hkept (by simp +contextual [Server.done, hloop]) rfl
      (Multiset.mem_of_le (s.conns.removeClient_refs node.client.fd)))
  | fetch a es hloop hes =>
    refine .inl ?_
    rw [Server.mem_outgoing] at ht ⊢
    have hle := Conns.fetch_refs hes
    rcases ht with (hbatch | hcurrent) | hregistering | hreg
    · exact .inr (.inr (Multiset.mem_of_le hle (Multiset.mem_add.mpr (.inl hbatch))))
    · exact absurd hcurrent (Multiset.notMem_zero t)
    · exact .inr (.inl hregistering)
    · exact .inr (.inr (Multiset.mem_of_le hle (Multiset.mem_add.mpr (.inr hreg))))
  | again a es u node total registered hloop hnode =>
    refine .inl ?_
    rw [Server.mem_outgoing] at ht ⊢
    rw [hloop]
    rcases ht with (hbatch | hcurrent) | hregistering | hreg
    · exact .inl (.inl hbatch)
    · exact absurd hcurrent (Multiset.notMem_zero t)
    · exact .inr (.inl hregistering)
    · cases registered with
      | false => exact .inr (.inr hreg)
      | true =>
        rcases Multiset.mem_cons.mp (Multiset.mem_of_le (s.conns.addWrite_refs _ u) hreg) with heq | hold
        · exact .inl (.inr (Multiset.mem_singleton.mpr heq))
        · exact .inr (.inr hold)
  | enter i p hp =>
    refine .inl (hworker rfl rfl fun j => ?_)
    by_cases hj : j = i
    · subst hj
      simp only [setHandling_handling, Function.update_self]
      cases p.thread j <;> exact Multiset.zero_le _
    · simp [hj]
  | handle i a p hp =>
    refine .inl (hworker rfl rfl fun j => ?_)
    by_cases hj : j = i
    · subst hj
      simp only [setHandling_handling, Function.update_self]
      cases hp <;> exact Multiset.zero_le _
    · simp [hj]
  | register i u client hi hopen =>
    refine .inl ?_
    rw [Server.mem_outgoing] at ht ⊢
    have hu : u ∈ (s.handling i).registering := by
      rw [hi]
      exact Multiset.mem_singleton_self u
    rcases ht with hloop | ⟨j, hj⟩ | hreg
    · exact .inl hloop
    · refine .inr (.inl ⟨j, ?_⟩)
      by_cases hji : j = i
      · subst hji
        simp only [setHandling_handling, Function.update_self] at hj
        exact absurd hj (Multiset.notMem_zero t)
      · simpa [hji] using hj
    · rcases Multiset.mem_cons.mp (Multiset.mem_of_le (s.conns.addWrite_refs _ u) hreg) with heq | hold
      · exact .inr (.inl ⟨i, heq ▸ hu⟩)
      · exact .inr (.inr hold)
  | generate i u client req w node hi hnode =>
    by_cases htu : t = u
    · subst htu
      exact .inr ⟨_, _, Function.update_self _ _ _, rfl⟩
    · refine .inl ?_
      rw [Server.mem_outgoing] at ht ⊢
      rcases ht with hloop | ⟨j, hj⟩ | hreg
      · exact .inl hloop
      · refine .inr (.inl ⟨j, ?_⟩)
        by_cases hji : j = i
        · subst hji
          simp only [setHandling_handling, Function.update_self] at hj
          exact absurd (Multiset.mem_singleton.mp hj) htu
        · simpa [hji] using hj
      · exact .inr (.inr hreg)

lemma Owned.not_unanswered {s : Server n W} (hs : s.Owned) {t : Addr} (ht : t ∈ s.outgoing) :
    t ∉ s.unanswered := by
  have hnodup := hs.nodup
  rw [refs_eq_outgoing] at hnodup
  exact Multiset.disjoint_right.mp (Multiset.nodup_add.mp hnodup).2.2 ht

lemma mem_refs_of_outgoing {s : Server n W} {t : Addr} (ht : t ∈ s.outgoing) : t ∈ s.refs := by
  rw [refs_eq_outgoing]
  exact Multiset.mem_add.mpr (.inr ht)

lemma Reachable.filled {app : App W} {s : Server n W} (h : Reachable app s) {t : Addr}
    (ht : t ∈ s.outgoing) : s.Filled t := by
  refine h.invariant (P := fun s => ∀ t ∈ s.outgoing, s.Filled t) ?_ ?_ t ht
  · intro t ht
    simp [outgoing, waiting, init, total, Conns.refs, Conns.init] at ht
  · intro s l s' hreach hs hrule t ht
    rcases hrule.mem_outgoing ht with hold | hfilled
    · obtain ⟨node, resp, hnode, hresp⟩ := hs t hold
      have howned' := hreach.owned.hands hrule.hands
      obtain ⟨node', hnode'⟩ :=
        Option.isSome_iff_exists.mp (howned'.live t (mem_refs_of_outgoing ht))
      have hlt := hreach.owned.lt t (by rw [hnode]; rfl)
      have heq := hrule.tnodes_of_answered hlt (hreach.owned.not_unanswered hold) hnode'
      rw [hnode] at heq
      cases heq
      exact ⟨node, resp, hnode', hresp⟩
    · exact hfilled

/-! ### The delivery of one response -/

/-- What a step does to the delivery of the response of the node at `t`. -/
def deliveryEvents (t : Addr) (s : Server n W) (l : Label n W) (_ : Server n W) :
    List Delivery.Event :=
  match s.loop, l with
  | .events (.write _ u :: _), .loop (.next _) => if u = t then [.writeEvent] else []
  | .writing _ u _, .loop (.send r _) => if u = t then [.send r] else []
  | .writing _ u _, .loop .done => if u = t then [.shutdown] else []
  | _, _ => []

/-- What `send` accepts in a step of the response of the node at `t`. -/
def acceptedFor (t : Addr) (s : Server n W) (_ : Label n W) (s' : Server n W) : Bytes :=
  match s.loop with
  | .writing _ u _ =>
    if u = t then (s'.history.sends.drop s.history.sends.length).flatMap SendRecord.data else []
  | _ => []

/-- The delivery `d` of `resp` is as far as the server is with the node at `t`. -/
structure Delivering (t : Addr) (resp : Bytes) (s : Server n W) (d : Delivery) : Prop where
  lt : t < s.nextTnode
  answered : t ∉ s.unanswered
  resp : ∀ node, s.tnodes t = some node → node.completeResp = some resp
  waiting : t ∈ s.waiting → d.phase = .registered
  writing : ∀ es total, s.loop = .writing es t total → d.phase = .writing total
  freed : t ∈ s.history.freed → d.phase = .shut

/-- A node that is written is referenced nowhere else. -/
lemma Owned.not_waiting {s : Server n W} (hs : s.Owned) {es : List KEvent} {t : Addr} {total : ℕ}
    (hloop : s.loop = .writing es t total) : t ∉ s.waiting := by
  have hnodup := hs.nodup
  rw [refs_eq] at hnodup
  have hcurrent : t ∈ s.loop.current := by
    rw [hloop]
    exact Multiset.mem_singleton_self t
  intro ht
  exact Multiset.disjoint_left.mp (Multiset.nodup_add.mp hnodup).2.2
    (Multiset.mem_add.mpr (.inr ht)) hcurrent

/-- When `write_to_client` is done with the node, nobody waits for an event with it. -/
lemma Owned.not_waiting_of_left {s s' : Server n W} (hs : s.Owned) {es : List KEvent} {t : Addr}
    {total : ℕ} (hloop : s.loop = .writing es t total) (hbatched : s'.loop.batched = writes es)
    (hhandling : s'.handling = s.handling) (hconns : s'.conns.refs ≤ s.conns.refs) :
    t ∉ s'.waiting := by
  intro ht
  refine hs.not_waiting hloop ?_
  simp only [waiting, Multiset.mem_add] at ht ⊢
  rw [hbatched, hhandling] at ht
  rw [hloop]
  exact ht.imp_right (Multiset.mem_of_le hconns)

lemma mem_refs_of_writing {s : Server n W} {es : List KEvent} {t : Addr} {total : ℕ}
    (hloop : s.loop = .writing es t total) : t ∈ s.refs := by
  rw [refs_eq, hloop]
  exact Multiset.mem_add.mpr (.inr (Multiset.mem_singleton_self t))

lemma Owned.not_freed {s : Server n W} (hs : s.Owned) {t : Addr} (ht : t ∈ s.refs) :
    t ∉ s.history.freed := by
  intro hfreed
  have hlive := hs.live t ht
  rw [hs.freed_none t hfreed] at hlive
  cases hlive

/-- What is left of the relation after any step, besides the phase. -/
lemma Delivering.rule {app : App W} {s s' : Server n W} {l : Label n W} (hrule : Rule app s l s')
    {t : Addr} {resp : Bytes} {d d' : Delivery} (h : s.Delivering t resp d)
    (hwaiting : t ∈ s'.waiting → d'.phase = .registered)
    (hwriting : ∀ es total, s'.loop = .writing es t total → d'.phase = .writing total)
    (hfreed : t ∈ s'.history.freed → d'.phase = .shut) : s'.Delivering t resp d' where
  lt := by
    refine lt_of_lt_of_le h.lt ?_
    cases hrule.hands with
    | pass hrefs htnodes hnext hfreed => exact hnext.ge
    | alloc node hrefs htnodes hnext hfreed => exact hnext ▸ Nat.le_succ _
    | free u hrefs htnodes hnext hfreed => exact hnext.ge
  answered := fun ht => h.answered (hrule.mem_unanswered h.lt ht)
  resp := fun node hnode => h.resp node (hrule.tnodes_of_answered h.lt h.answered hnode)
  waiting := hwaiting
  writing := hwriting
  freed := hfreed

/-- A worker, or a signal, does not get into the loop. -/
lemma Rule.loop_of_other {app : App W} {s s' : Server n W} {l : Label n W} (h : Rule app s l s')
    (hl : ∀ a, l ≠ .loop a) : s'.loop = s.loop ∧ s'.history.sends = s.history.sends := by
  cases h with
  | signal => exact ⟨rfl, rfl⟩
  | fault => exact ⟨rfl, rfl⟩
  | enter => exact ⟨rfl, rfl⟩
  | wake => exact ⟨rfl, rfl⟩
  | handle => exact ⟨rfl, rfl⟩
  | generate => exact ⟨rfl, rfl⟩
  | register => exact ⟨rfl, rfl⟩
  | finish => exact ⟨rfl, rfl⟩
  | _ => exact absurd rfl (hl _)

/-- `write_to_client` goes on with a node, or is entered with the node of the next event. -/
lemma Rule.writing_cases {app : App W} {s s' : Server n W} {l : Label n W} (h : Rule app s l s')
    {es : List KEvent} {t : Addr} {total : ℕ} (hloop' : s'.loop = .writing es t total) :
    (∃ total', s.loop = .writing es t total') ∨
      ∃ ident, s.loop = .events (.write ident t :: es) := by
  cases h with
  | move a p hp =>
    have hloop' : p = .writing es t total := hloop'
    cases hp with
    | listened ok h => cases ok <;> cases hloop'
    | tested h => cases hs : s.shutdownSignal <;> simp [hs] at hloop'
    | toWrite ident u es' node h hnode =>
      cases hloop'
      exact .inr ⟨ident, h⟩
    | _ => cases hloop'
  | sent a es' u node resp total' k c hloop hnode hresp hc hk hle =>
    cases hloop'
    exact .inl ⟨_, hloop⟩
  | signal => exact .inl ⟨total, hloop'⟩
  | fault => exact .inl ⟨total, hloop'⟩
  | accept => exact .inl ⟨total, hloop'⟩
  | enter => exact .inl ⟨total, hloop'⟩
  | wake => exact .inl ⟨total, hloop'⟩
  | handle => exact .inl ⟨total, hloop'⟩
  | generate => exact .inl ⟨total, hloop'⟩
  | register => exact .inl ⟨total, hloop'⟩
  | finish => exact .inl ⟨total, hloop'⟩
  | _ => cases hloop'

/-- A node is freed by `write_to_client`, which has it in its hands. -/
lemma Rule.freed_cases {app : App W} {s s' : Server n W} {l : Label n W} (h : Rule app s l s')
    {t : Addr} (ht : t ∈ s'.history.freed) :
    t ∈ s.history.freed ∨ ∃ es total, s.loop = .writing es t total := by
  cases h with
  | done es u node resp total hloop hnode hresp hle =>
    rcases List.mem_append.mp ht with hold | hnew
    · exact .inl hold
    · obtain rfl := List.mem_singleton.mp hnew
      exact .inr ⟨es, total, hloop⟩
  | _ => exact .inl ht

/-- A step that is none of the delivery. -/
lemma Delivering.quiet {app : App W} {s s' : Server n W} {l : Label n W} (hreach : Reachable app s)
    (hrule : Rule app s l s') {t : Addr} {resp : Bytes} {d : Delivery} (h : s.Delivering t resp d)
    (hcur : ∀ es total, s.loop ≠ .writing es t total)
    (hcur' : ∀ es total, s'.loop ≠ .writing es t total) : s'.Delivering t resp d := by
  refine h.rule hrule (fun ht => h.waiting ?_) (fun es total hloop => absurd hloop (hcur' es total))
    fun ht => h.freed ?_
  · have hrefs' : t ∈ s'.refs := by
      rw [refs_eq]
      exact Multiset.mem_add.mpr (.inl (Multiset.mem_add.mpr (.inr ht)))
    obtain ⟨node, hnode⟩ :=
      Option.isSome_iff_exists.mp ((hreach.owned.hands hrule.hands).live t hrefs')
    have hold := hrule.tnodes_of_answered h.lt h.answered hnode
    have hrefs := hrule.hands.mem_refs hreach.owned hrefs' (by rw [hold]; rfl)
    rw [refs_eq, Multiset.mem_add, Multiset.mem_add] at hrefs
    rcases hrefs with (hun | hwaiting) | hcurrent
    · exact absurd hun h.answered
    · exact hwaiting
    · cases hloop : s.loop with
      | writing es u total =>
        rw [hloop, LoopPoint.current, Multiset.mem_singleton] at hcurrent
        exact absurd (hcurrent ▸ hloop) (hcur es total)
      | _ =>
        rw [hloop] at hcurrent
        exact absurd hcurrent (Multiset.notMem_zero t)
  · rcases hrule.freed_cases ht with hold | ⟨es, total, hloop⟩
    · exact hold
    · exact absurd hloop (hcur es total)

/-- A step of a worker while `write_to_client` has the node. -/
lemma Delivering.other {app : App W} {s s' : Server n W} {l : Label n W} (hreach : Reachable app s)
    (hrule : Rule app s l s') {t : Addr} {resp : Bytes} {d : Delivery} (h : s.Delivering t resp d)
    {es : List KEvent} {total : ℕ} (hloop : s.loop = .writing es t total) (hloop' : s'.loop = s.loop) :
    s'.Delivering t resp d := by
  have howned' := hreach.owned.hands hrule.hands
  have hwriting' := hloop'.trans hloop
  refine h.rule hrule (fun ht => absurd ht (howned'.not_waiting hwriting')) ?_ fun ht => ?_
  · intro es' total' hloop''
    exact h.writing es' total' (hloop'.symm.trans hloop'')
  · exact absurd ht (howned'.not_freed (mem_refs_of_writing hwriting'))

/-- A pass of the loop in `write_to_client` is one of the delivery. -/
lemma Delivering.send {app : App W} {s s' : Server n W} {l : Label n W} (hreach : Reachable app s)
    (hrule : Rule app s l s') {t : Addr} {resp : Bytes} {d : Delivery} (h : s.Delivering t resp d)
    {es : List KEvent} {total : ℕ} (hloop : s.loop = .writing es t total) {node : ThreadNode}
    (hlt : total < resp.length) {r : SendResult} {registered : Bool}
    (hs : s.send es t node resp total r registered = some s') :
    ∃ d', Delivery.step resp d (.send r) = some d' ∧
      d'.accepted = d.accepted ++
        (s'.history.sends.drop s.history.sends.length).flatMap SendRecord.data ∧
      s'.Delivering t resp d' := by
  have hphase := h.writing es total hloop
  have hfreed : t ∉ s.history.freed := hreach.owned.not_freed (mem_refs_of_writing hloop)
  unfold Server.send at hs
  split at hs
  · -- bytes are accepted
    rename_i total' c hpass hc
    cases hs
    refine ⟨⟨.writing total', d.accepted ++ (resp.drop total).take (total' - total)⟩,
      by simp [Delivery.step, hphase, hlt, hpass], by simp, ?_⟩
    refine h.rule hrule (fun ht => ?_) (fun es' total'' hloop' => ?_) fun ht => absurd ht hfreed
    · exact absurd ht ((hreach.owned.hands hrule.hands).not_waiting rfl)
    · cases hloop'
      rfl
  · -- `EAGAIN`
    rename_i c hpass hc
    cases hs
    refine ⟨⟨.registered, d.accepted⟩, by simp [Delivery.step, hphase, hlt, hpass], by simp, ?_⟩
    exact h.rule hrule (fun _ => rfl) (fun es' total' hloop' => by cases hloop')
      fun ht => absurd ht hfreed
  · -- an error
    rename_i hpass
    cases hs
    refine ⟨⟨.removed, d.accepted⟩, by simp [Delivery.step, hphase, hlt, hpass],
      by simp [removeFor], ?_⟩
    refine h.rule hrule (fun ht => absurd ht ?_) (fun es' total' hloop' => by cases hloop')
      fun ht => absurd ht hfreed
    exact hreach.owned.not_waiting_of_left hloop rfl rfl
      (s.conns.removeClient_refs node.client.fd)
  · cases hs

/-- The end of `write_to_client` is the end of the delivery. -/
lemma Delivering.done {app : App W} {s : Server n W} (hreach : Reachable app s) {t : Addr}
    {resp : Bytes} {d : Delivery} (h : s.Delivering t resp d) {es : List KEvent} {total : ℕ}
    (hloop : s.loop = .writing es t total) {node : ThreadNode} (hnode : s.tnodes t = some node)
    (hresp : node.completeResp = some resp) (hle : resp.length ≤ total) :
    ∃ d', Delivery.step resp d .shutdown = some d' ∧ d'.accepted = d.accepted ∧
      (s.done es t node).Delivering t resp d' := by
  have hphase := h.writing es total hloop
  have hrule : Rule app s (.loop .done) (s.done es t node) :=
    .done es t node resp total hloop hnode hresp hle
  refine ⟨⟨.shut, d.accepted⟩, ?_, rfl, ?_⟩
  · simp [Delivery.step, hphase, Nat.not_lt.mpr hle]
  · refine h.rule hrule (fun ht => absurd ht ?_) (fun es' total' hloop' => by cases hloop')
      fun _ => rfl
    exact hreach.owned.not_waiting_of_left hloop rfl rfl
      (s.conns.removeClient_refs node.client.fd)

/-- `write_to_client` is called for the node of the next event. -/
lemma Delivering.next {app : App W} {s s' : Server n W} {l : Label n W} (hreach : Reachable app s)
    (hrule : Rule app s l s') {t : Addr} {resp : Bytes} {d : Delivery} (h : s.Delivering t resp d)
    {ident : Fd} {es : List KEvent} (hloop : s.loop = .events (.write ident t :: es))
    (hs' : s' = { s with loop := .writing es t 0 }) :
    ∃ d', Delivery.step resp d .writeEvent = some d' ∧ d'.accepted = d.accepted ∧
      s'.Delivering t resp d' := by
  have hbatched : t ∈ s.waiting := by
    simp [Server.waiting, hloop]
  have hphase := h.waiting hbatched
  have hwriting' : s'.loop = .writing es t 0 := by rw [hs']
  have howned' := hreach.owned.hands hrule.hands
  refine ⟨⟨.writing 0, d.accepted⟩, by simp [Delivery.step, hphase], rfl, ?_⟩
  refine h.rule hrule (fun ht => absurd ht (howned'.not_waiting hwriting')) ?_
    fun ht => absurd ht (howned'.not_freed (mem_refs_of_writing hwriting'))
  intro es' total hloop'
  rw [hwriting'] at hloop'
  cases hloop'
  rfl

/-- A step while `write_to_client` has the node. -/
lemma Delivering.step_writing {app : App W} {s s' : Server n W} {l : Label n W}
    (hreach : Reachable app s) {t : Addr} {resp : Bytes} {d : Delivery} (h : s.Delivering t resp d)
    (hstep : s.step app l = some s') {es : List KEvent} {total : ℕ}
    (hloop : s.loop = .writing es t total) :
    ∃ d', run (Delivery.step resp) d (deliveryEvents t s l s') = some d' ∧
      d'.accepted = d.accepted ++ acceptedFor t s l s' ∧ s'.Delivering t resp d' := by
  obtain ⟨hfault, hrule⟩ := Rule.of_step hstep
  have houtgoing : t ∈ s.outgoing := by
    rw [Server.mem_outgoing, hloop]
    exact .inl (.inr (Multiset.mem_singleton_self t))
  obtain ⟨node, resp', hnode, hresp⟩ := hreach.filled houtgoing
  obtain rfl : resp' = resp := Option.some.inj (hresp.symm.trans (h.resp node hnode))
  have hother : (∀ a, l ≠ .loop a) →
      acceptedFor t s l s' = [] ∧ s'.Delivering t resp' d := by
    intro hl
    obtain ⟨hloop', hsends⟩ := hrule.loop_of_other hl
    exact ⟨by simp [acceptedFor, hloop, hsends], h.other hreach hrule hloop hloop'⟩
  cases l with
  | signal =>
    obtain ⟨haccepted, h'⟩ := hother (by simp)
    exact ⟨d, by simp [deliveryEvents, hloop], by simp [haccepted], h'⟩
  | worker i a =>
    obtain ⟨haccepted, h'⟩ := hother (by simp)
    exact ⟨d, by simp [deliveryEvents, hloop], by simp [haccepted], h'⟩
  | loop a =>
    cases a with
    | send r registered =>
      simp only [Server.step, loopStep, hloop, hnode, hresp, hfault] at hstep
      split_ifs at hstep with hnone hlt
      obtain ⟨d', hd', haccepted, h'⟩ := h.send hreach hrule hloop hlt hstep
      exact ⟨d', by simp [deliveryEvents, hloop, run, hd'], by simp [acceptedFor, hloop, haccepted],
        h'⟩
    | done =>
      simp only [Server.step, loopStep, hloop, hnode, hresp, hfault] at hstep
      split_ifs at hstep with hnone hlt
      cases hstep
      obtain ⟨d', hd', haccepted, h'⟩ := h.done hreach hloop hnode hresp (Nat.le_of_not_lt hlt)
      refine ⟨d', by simp [deliveryEvents, hloop, run, hd'], ?_, h'⟩
      simp [acceptedFor, hloop, haccepted, Server.done, removeFor]
    | _ => simp [Server.step, hfault, loopStep, hloop] at hstep

/-- The other steps; the node may be that of the next event. -/
lemma Delivering.step_other {app : App W} {s s' : Server n W} {l : Label n W}
    (hreach : Reachable app s) {t : Addr} {resp : Bytes} {d : Delivery} (h : s.Delivering t resp d)
    (hstep : s.step app l = some s') (hcur : ∀ es total, s.loop ≠ .writing es t total) :
    ∃ d', run (Delivery.step resp) d (deliveryEvents t s l s') = some d' ∧
      d'.accepted = d.accepted ++ acceptedFor t s l s' ∧ s'.Delivering t resp d' := by
  obtain ⟨hfault, hrule⟩ := Rule.of_step hstep
  have haccepted : acceptedFor t s l s' = [] := by
    unfold acceptedFor
    split
    · rename_i es u total hloop
      refine if_neg ?_
      rintro rfl
      exact hcur es total hloop
    · rfl
  by_cases hnext : ∃ ident es mem, s.loop = .events (.write ident t :: es) ∧ l = .loop (.next mem)
  · obtain ⟨ident, es, mem, hloop, rfl⟩ := hnext
    have hbatched : t ∈ s.outgoing := by
      rw [Server.mem_outgoing, hloop]
      exact .inl (.inl (Multiset.mem_cons_self t _))
    obtain ⟨node, resp', hnode, -⟩ := hreach.filled hbatched
    have hs' : s' = { s with loop := .writing es t 0 } := by
      simp only [Server.step, loopStep, hloop, nextEvent, hnode] at hstep
      split_ifs at hstep
      exact (Option.some.inj hstep).symm
    obtain ⟨d', hd', hacc, h'⟩ := h.next hreach hrule hloop hs'
    exact ⟨d', by simp [deliveryEvents, hloop, run, hd'], by rw [hacc, haccepted, List.append_nil],
      h'⟩
  · have hevents : deliveryEvents t s l s' = [] := by
      unfold deliveryEvents
      split
      · rename_i ident u es mem hloop
        refine if_neg ?_
        rintro rfl
        exact hnext ⟨ident, es, mem, hloop, rfl⟩
      · rename_i es u total r registered hloop
        refine if_neg ?_
        rintro rfl
        exact hcur es total hloop
      · rename_i es u total hloop
        refine if_neg ?_
        rintro rfl
        exact hcur es total hloop
      · rfl
    refine ⟨d, by rw [hevents]; rfl, by rw [haccepted, List.append_nil],
      h.quiet hreach hrule hcur fun es total hloop' => ?_⟩
    rcases hrule.writing_cases hloop' with ⟨total', hloop⟩ | ⟨ident, hloop⟩
    · exact hcur es total' hloop
    · cases l with
      | loop a =>
        cases a with
        | next mem => exact hnext ⟨ident, es, mem, hloop, rfl⟩
        | _ => simp [Server.step, hfault, loopStep, hloop] at hstep
      | signal =>
        rw [(hrule.loop_of_other (by simp)).1, hloop] at hloop'
        cases hloop'
      | worker i a =>
        rw [(hrule.loop_of_other (by simp)).1, hloop] at hloop'
        cases hloop'

/-- A step of the server is a step of the delivery, or none of it. -/
lemma Delivering.step {app : App W} {s s' : Server n W} {l : Label n W} (hreach : Reachable app s)
    {t : Addr} {resp : Bytes} {d : Delivery} (h : s.Delivering t resp d)
    (hstep : s.step app l = some s') :
    ∃ d', run (Delivery.step resp) d (deliveryEvents t s l s') = some d' ∧
      d'.accepted = d.accepted ++ acceptedFor t s l s' ∧ s'.Delivering t resp d' := by
  by_cases hcur : ∃ es total, s.loop = .writing es t total
  · obtain ⟨es, total, hloop⟩ := hcur
    exact h.step_writing hreach hstep hloop
  · exact h.step_other hreach hstep fun es total hloop => hcur ⟨es, total, hloop⟩

/-! ### Runs -/

/-- A run of the server is a run of the delivery. -/
lemma Delivering.run {app : App W} {s s' : Server n W} (hreach : Reachable app s) {t : Addr}
    {resp : Bytes} {d : Delivery} (h : s.Delivering t resp d) {ls : List (Label n W)}
    (hrun : Trace.run (Server.step app) s ls = some s') :
    ∃ d', Trace.run (Delivery.step resp) d (observed (Server.step app) (deliveryEvents t) s ls) =
        some d' ∧
      d'.accepted = d.accepted ++ observed (Server.step app) (acceptedFor t) s ls ∧
      s'.Delivering t resp d' := by
  have hmatch : ∀ (s : Server n W) (l : Label n W) (s' : Server n W) (d : Delivery),
      Reachable app s ∧ s.Delivering t resp d → Server.step app s l = some s' →
      ∃ d', Trace.run (Delivery.step resp) d (deliveryEvents t s l s') = some d' ∧
        d'.accepted = d.accepted ++ acceptedFor t s l s' ∧
        Reachable app s' ∧ s'.Delivering t resp d' := by
    rintro s l s' d ⟨hreach, hs⟩ hstep
    obtain ⟨d', hd', hacc, hs'⟩ := hs.step hreach hstep
    exact ⟨d', hd', hacc, hreach.trans (.of_step hstep), hs'⟩
  obtain ⟨d', hd', hacc, -, hs'⟩ := observed_simulation hmatch hrun ⟨hreach, h⟩
  exact ⟨d', hd', hacc, hs'⟩

/-- When a worker is about to register the response, its delivery has not begun. -/
lemma delivering_of_register {app : App W} {s : Server n W} (h : Reachable app s) {i : Fin n}
    {t : Addr} {client : Client} (hi : s.handling i = .register t client) {node : ThreadNode}
    {resp : Bytes} (hnode : s.tnodes t = some node) (hresp : node.completeResp = some resp) :
    s.Delivering t resp ⟨.registered, []⟩ := by
  have hregistering : t ∈ (s.handling i).registering := by
    rw [hi]
    exact Multiset.mem_singleton_self t
  have hwaiting : t ∈ s.waiting := by
    simp only [waiting, Multiset.mem_add, mem_total]
    exact .inl (.inr ⟨i, hregistering⟩)
  have houtgoing : t ∈ s.outgoing := Multiset.mem_add.mpr (.inl hwaiting)
  have hrefs := mem_refs_of_outgoing houtgoing
  refine ⟨h.owned.lt t (h.owned.live t hrefs), h.owned.not_unanswered houtgoing, ?_, fun _ => rfl,
    fun es total hloop => absurd hwaiting (h.owned.not_waiting hloop),
    fun ht => absurd ht (h.owned.not_freed hrefs)⟩
  intro node' hnode'
  rwa [← Option.some.inj (hnode.symm.trans hnode')]

/-- What the server does with the response that a worker has generated, in a run from where the
WRITE event is about to be registered, is a run of the delivery of this response: with the same
results of `send`, and the same bytes accepted. Where the node is freed, the delivery is at its
end. -/
theorem delivery_refined {app : App W} {s : Server n W} (h : Reachable app s) {i : Fin n} {t : Addr}
    {client : Client} (hi : s.handling i = .register t client) {node : ThreadNode} {resp : Bytes}
    (hnode : s.tnodes t = some node) (hresp : node.completeResp = some resp)
    {ls : List (Label n W)} {s' : Server n W} (hrun : run (step app) s ls = some s') :
    ∃ d, run (Delivery.step resp) ⟨.registered, []⟩ (observed (step app) (deliveryEvents t) s ls) =
        some d ∧
      d.accepted = observed (step app) (acceptedFor t) s ls ∧
      (∀ es total, s'.loop = .writing es t total → d.phase = .writing total) ∧
      (t ∈ s'.history.freed → d.phase = .shut) := by
  obtain ⟨d, hd, hacc, hdelivering⟩ := (delivering_of_register h hi hnode hresp).run h hrun
  exact ⟨d, hd, by simpa using hacc, hdelivering.writing, hdelivering.freed⟩

/-- A response of 20 bytes is sent in two parts. -/
theorem delivery_refined_parts :
    ∃ (s s' : Server 1 Unit) (ls : List (Label 1 Unit)) (resp : Bytes) (d : Delivery),
      run (step Demo.app) s ls = some s' ∧ s'.history.freed = [0] ∧
      observed (step Demo.app) (deliveryEvents 0) s ls =
        [.writeEvent, .send (.sent 7), .send (.sent 13), .shutdown] ∧
      run (Delivery.step resp) ⟨.registered, []⟩
        (observed (step Demo.app) (deliveryEvents 0) s ls) = some d ∧
      d.accepted = observed (step Demo.app) (acceptedFor 0) s ls ∧ d.phase = .shut := by
  let answered : List (Label 1 Unit) := Demo.start ++ Demo.poll [.read 3 none false] ++
    Demo.accept 5 ++ Demo.next ++ Demo.poll [.read 5 (some 0) false] ++ Demo.read Demo.request ++
    Demo.next ++ Demo.answer
  let ls : List (Label 1 Unit) := Demo.register ++ Demo.poll [.write 5 0] ++
    Demo.writeTwo 7 13
  have hrun : ((run (step Demo.app) (init 1 Unit) answered).map fun s =>
      (match s.handling 0 with | .register t _ => some t | _ => none,
        (s.tnodes 0).any fun node => node.completeResp.isSome,
        (run (step Demo.app) s ls).map fun s' => s'.history.freed,
        observed (step Demo.app) (deliveryEvents 0) s ls)) =
      some (some 0, true, some [0],
        [.writeEvent, .send (.sent 7), .send (.sent 13), .shutdown]) := by
    decide +kernel
  obtain ⟨s, hs, heq⟩ := Option.map_eq_some_iff.mp hrun
  simp only [Prod.mk.injEq] at heq
  obtain ⟨hregister, hresp, hnext, hevents⟩ := heq
  obtain ⟨s', hs', hfreed⟩ := Option.map_eq_some_iff.mp hnext
  rw [Option.any_eq_true] at hresp
  obtain ⟨node, hnode, hresp⟩ := hresp
  obtain ⟨resp, hresp⟩ := Option.isSome_iff_exists.mp hresp
  obtain ⟨client, hi⟩ : ∃ client, s.handling 0 = .register 0 client := by
    cases hpoint : s.handling 0 with
    | register t client =>
      rw [hpoint] at hregister
      exact ⟨client, by rw [Option.some.inj hregister]⟩
    | _ => simp [hpoint] at hregister
  obtain ⟨d, hd, hacc, -, hshut⟩ := delivery_refined ⟨_, hs⟩ hi hnode hresp hs'
  exact ⟨s, s', ls, resp, d, hs', hfreed, hevents, hd, hacc, hshut (by simp [hfreed])⟩

end Server

end Ccybe
