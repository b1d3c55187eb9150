import Ccybe.Http.Provenance

/-!
# Requests that arrive in pieces

Each READ event gives a task node of its own, and what was received in it is parsed as if it were
a whole request. A response is generated for each piece that the parser accepts, so that a request
is answered as often as the parser accepts a piece of it.
-/

namespace Ccybe

open CSem Trace Tally

/-- The task node that `read_from_client` is about to hand over. -/
def LoopPoint.handed : LoopPoint → Multiset Addr
  | .handing _ t => {t}
  | _ => 0

/-- What was received, before there is a task node for it. -/
def LoopPoint.received : LoopPoint → Multiset (ConnId × List Bytes)
  | .building _ _ _ chunks conn => {(conn, chunks)}
  | _ => 0

/-- The task node of a worker that has not generated the response yet. -/
def HandlePoint.unanswered : HandlePoint → Multiset Addr
  | .entered t => {t}
  | .lookup t _ _ => {t}
  | .generate t _ _ => {t}
  | _ => 0

lemma HandlePoint.unanswered_ofWorker (w : Worker TaskFunc Addr) :
    (HandlePoint.ofWorker w).unanswered = (HandlePoint.ofWorker w).refs := by
  cases w <;> rfl

lemma HandlePoint.mem_refs_of_unanswered {p : HandlePoint} {t : Addr} (h : t ∈ p.unanswered) :
    t ∈ p.refs := by
  cases p with
  | register u client => exact absurd h (Multiset.notMem_zero t)
  | _ => exact h

namespace Server

variable {n : ℕ} {W : Type}

/-! ### Workers in `handle_conn` run a task -/

/-- A worker that is in `handle_conn` runs a task. -/
def Busy (s : Server n W) : Prop :=
  ∀ i, s.handling i ≠ .away → ∃ task, s.pool.thread i = .running task

lemma HandleMoves.ne_away {app : App W} {s : Server n W} {i : Fin n} {p : HandlePoint}
    (h : s.HandleMoves app i p) : s.handling i ≠ .away := by
  cases h with
  | badRequest t node h => simp [h]
  | parsedGet t node text ok req h => simp [h]
  | parsedOther t node text ok req method h => simp [h]
  | found t client req h => simp [h]
  | registerFailed t client h => simp [h]

lemma Rule.busy {app : App W} {s s' : Server n W} {l : Label n W} (h : Rule app s l s')
    (hs : s.Busy) : s'.Busy := by
  intro i hi
  have hkeep : s.handling i ≠ .away → ∃ task, s'.pool.thread i = .running task := by
    intro hne
    obtain ⟨task, htask⟩ := hs i hne
    refine ⟨task, ?_⟩
    rcases h.pool with heq | ⟨e, he, hfinish⟩
    · rw [heq]
      exact htask
    · exact Pool.running_of_step he htask fun hfin => hne (hfinish i hfin)
  cases h.places i with
  | stays heq => exact hkeep (heq ▸ hi)
  | enters hpool heq =>
    rw [heq] at hi
    cases hthread : s'.pool.thread i with
    | running task => exact ⟨task, rfl⟩
    | _ => simp [hthread, HandlePoint.ofWorker] at hi
  | moves hmove => exact hkeep hmove.ne_away
  | generates t client req heq => exact hkeep (by simp [heq])
  | registers t client heq => exact hkeep (by simp [heq])

/-! ### What is pending -/

/-- The task nodes whose responses are to be generated. -/
def unanswered (s : Server n W) : Multiset Addr :=
  s.loop.handed + s.pool.refs + total HandlePoint.unanswered s.handling

/-- What was received for the task node at `t`. -/
def pieceAt (s : Server n W) (t : Addr) : Multiset (ConnId × List Bytes) :=
  match s.tnodes t with
  | none => 0
  | some node => {(node.conn, node.chunks)}

/-- What was received and is still to be answered. -/
def pending (s : Server n W) : Multiset (ConnId × List Bytes) :=
  s.loop.received + s.unanswered.bind s.pieceAt

/-- What was answered. -/
def answered (s : Server n W) : Multiset (ConnId × List Bytes) :=
  (s.history.generated.map fun g => (g.origin, g.chunks) : List (ConnId × List Bytes))

/-- The part of what was received that the parser accepts. -/
def due (app : App W) (m : Multiset (ConnId × List Bytes)) : Multiset (ConnId × List Bytes) :=
  m.filter fun x => app.accepts (textOf x.2) = true

/-- There is memory for the task node, and `push_task` takes it. -/
def noLoss (s : Server n W) (l : Label n W) : Bool :=
  match s.loop, l with
  | .building _ _ _ _ _, .loop (.build memTnode memBuffer memReq memResp) =>
    memTnode && memBuffer && memReq && memResp
  | .handing _ t, .loop (.push mem ws) =>
    (s.pool.pushTask (some .handleConn) (some t) mem ws).all Prod.fst
  | _, _ => true

lemma mem_refs_of_unanswered {s : Server n W} {t : Addr} (h : t ∈ s.unanswered) : t ∈ s.refs := by
  rw [unanswered, Multiset.mem_add, Multiset.mem_add] at h
  rcases h with (h | h) | h
  · apply mem_refs_of_loop
    cases hloop : s.loop with
    | handing es u =>
      rw [hloop, LoopPoint.handed, Multiset.mem_singleton] at h
      rw [h]
      exact Multiset.mem_cons_self u _
    | _ =>
      rw [hloop] at h
      exact absurd h (Multiset.notMem_zero t)
  · simp [refs, h]
  · obtain ⟨i, hi⟩ := mem_total.mp h
    exact mem_refs_of_handling (HandlePoint.mem_refs_of_unanswered hi)

lemma pieceAt_of_node {s : Server n W} {t : Addr} {node : ThreadNode}
    (h : s.tnodes t = some node) : s.pieceAt t = {(node.conn, node.chunks)} := by
  simp [pieceAt, h]

lemma pieceAt_congr {s s' : Server n W} {t : Addr}
    (h : (s'.tnodes t).map ThreadNode.fixed = (s.tnodes t).map ThreadNode.fixed) :
    s'.pieceAt t = s.pieceAt t := by
  have hpiece : ∀ s : Server n W, s.pieceAt t =
      ((s.tnodes t).map ThreadNode.fixed).elim 0 fun x => {(x.2.2.1, x.2.2.2)} := by
    intro s
    unfold pieceAt
    cases s.tnodes t <;> rfl
  rw [hpiece, hpiece, h]

/-- Task nodes that were referenced before the step are for the same as before it. -/
lemma Hands.pending_eq {s s' : Server n W} (h : Hands s s') (hs : s.Owned)
    (hsub : ∀ t ∈ s'.unanswered, t ∈ s.refs) :
    s'.pending = s'.loop.received + s'.unanswered.bind s.pieceAt := by
  rw [pending]
  congr 1
  apply Multiset.bind_congr
  intro t ht
  exact pieceAt_congr (h.fixed hs (hsub t ht) (mem_refs_of_unanswered ht))

/-- A worker goes on in `handle_conn`. -/
lemma unanswered_setHandling (s : Server n W) (i : Fin n) (p : HandlePoint) :
    (s.setHandling i p).unanswered + (s.handling i).unanswered =
      s.unanswered + p.unanswered := by
  have hupdate := total_update HandlePoint.unanswered s.handling i p
  simp only [unanswered, setHandling_handling, add_assoc, hupdate]
  rfl

/-! ### What a step does with what was received -/

/-- A step leaves what was received as it is, adds to it, drops a part of it, or answers it. What
is dropped is rejected by the parser, or lost. -/
inductive Turn (app : App W) (s : Server n W) (l : Label n W) (s' : Server n W) : Prop where
  | pass (hpending : s'.pending = s.pending)
      (hreceived : s'.history.received = s.history.received)
      (hgenerated : s'.history.generated = s.history.generated)
  | receive (x : ConnId × List Bytes) (hpending : s'.pending = x ::ₘ s.pending)
      (hreceived : s'.history.received = s.history.received ++ [x])
      (hgenerated : s'.history.generated = s.history.generated)
  | drop (x : ConnId × List Bytes) (hpending : x ::ₘ s'.pending = s.pending)
      (hlost : s.noLoss l = true → app.accepts (textOf x.2) = false)
      (hreceived : s'.history.received = s.history.received)
      (hgenerated : s'.history.generated = s.history.generated)
  | answer (g : Generated W) (hpending : (g.origin, g.chunks) ::ₘ s'.pending = s.pending)
      (haccepts : app.accepts (textOf g.chunks) = true)
      (hreceived : s'.history.received = s.history.received)
      (hgenerated : s'.history.generated = s.history.generated ++ [g])

/-- Nothing is handed over and nothing is left unanswered. -/
lemma pending_of_unanswered {s s' : Server n W} (h : Hands s s') (hs : s.Owned)
    (hloop : s'.loop.received = s.loop.received) (hun : s'.unanswered = s.unanswered) :
    s'.pending = s.pending := by
  rw [h.pending_eq hs fun t ht => mem_refs_of_unanswered (hun ▸ ht), hloop, hun]
  rfl

/-- The task node at `t` is no longer to be answered. -/
lemma pending_of_cons {s s' : Server n W} (h : Hands s s') (hs : s.Owned)
    (hloop : s'.loop.received = s.loop.received) {t : Addr} {node : ThreadNode}
    (hnode : s.tnodes t = some node) (hun : t ::ₘ s'.unanswered = s.unanswered) :
    (node.conn, node.chunks) ::ₘ s'.pending = s.pending := by
  have hsub : ∀ u ∈ s'.unanswered, u ∈ s.refs := fun u hu =>
    mem_refs_of_unanswered (hun ▸ Multiset.mem_cons_of_mem hu)
  rw [h.pending_eq hs hsub, hloop, pending, ← hun, Multiset.cons_bind, pieceAt_of_node hnode,
    ← Multiset.singleton_add]
  abel

/-- There is a task node for what was received. -/
lemma pending_of_built {s s' : Server n W} (hs : s.Owned) {node : ThreadNode}
    (htnodes : s'.tnodes = Function.update s.tnodes s.nextTnode (some node))
    (hloop : s.loop.received = {(node.conn, node.chunks)}) (hloop' : s'.loop.received = 0)
    (hun : s'.unanswered = s.nextTnode ::ₘ s.unanswered) : s'.pending = s.pending := by
  have hnew : s'.pieceAt s.nextTnode = {(node.conn, node.chunks)} :=
    pieceAt_of_node (by rw [htnodes, Function.update_self])
  have hold : s.unanswered.bind s'.pieceAt = s.unanswered.bind s.pieceAt := by
    apply Multiset.bind_congr
    intro t ht
    have hne : t ≠ s.nextTnode := (hs.lt t (hs.live t (mem_refs_of_unanswered ht))).ne
    apply pieceAt_congr
    rw [htnodes, Function.update_of_ne hne]
  rw [pending, pending, hloop', hloop, hun, Multiset.cons_bind, hnew, hold, zero_add]

lemma Moves.handed {app : App W} {s : Server n W} {p : LoopPoint} (h : s.Moves app p) :
    p.received = s.loop.received ∧ p.handed = s.loop.handed := by
  cases h with
  | listened ok h => cases ok <;> simp [h, LoopPoint.received, LoopPoint.handed]
  | tested h => cases s.shutdownSignal <;> simp [h, LoopPoint.received, LoopPoint.handed]
  | interrupted h => simp [h, LoopPoint.received, LoopPoint.handed]
  | pollFailed h => simp [h, LoopPoint.received, LoopPoint.handed]
  | batchEnd h => simp [h, LoopPoint.received, LoopPoint.handed]
  | toAccept udata es h => simp [h, LoopPoint.received, LoopPoint.handed]
  | toRead ident a es node mem buf h => simp [h, LoopPoint.received, LoopPoint.handed]
  | toWrite ident t es node h => simp [h, LoopPoint.received, LoopPoint.handed]
  | accepted es h => simp [h, LoopPoint.received, LoopPoint.handed]
  | received es client buf buf' chunks chunk mem h =>
    simp [h, LoopPoint.received, LoopPoint.handed]
  | dropReading es client buf chunks h => simp [h, LoopPoint.received, LoopPoint.handed]
  | closedListener h => simp [h, LoopPoint.received, LoopPoint.handed]
  | joined h hexit => simp [h, LoopPoint.received, LoopPoint.handed]

/-- A request that the parser rejects is dropped; otherwise the worker keeps it. -/
lemma HandleMoves.turn {app : App W} {s : Server n W} {i : Fin n} {p : HandlePoint}
    {a : WorkerStep W} (h : s.HandleMoves app i p) (howned : s.Owned) (htraced : s.Traced app) :
    Turn app s (.worker i a) (s.setHandling i p) := by
  have hrule : Rule app s (.worker i a) (s.setHandling i p) := .handle i a p h
  have hands := hrule.hands
  have hun := s.unanswered_setHandling i p
  have hkeep : p.unanswered = (s.handling i).unanswered →
      Turn app s (.worker i a) (s.setHandling i p) := by
    intro heq
    rw [heq] at hun
    exact .pass (pending_of_unanswered hands howned rfl (add_right_cancel hun)) rfl rfl
  cases h with
  | badRequest t node h hnode hbad =>
    have hbuffer := (htraced.nodes t node hnode).buffer
    have hrejects : app.accepts (textOf node.chunks) = false := by
      rcases hbad with hnone | ⟨text, req, htext, hparse⟩
      · rw [hbuffer.data] at hnone
        cases hnone
      · rw [hbuffer.bytes_eq] at htext
        cases htext
        simp [App.accepts, hparse]
    refine .drop (node.conn, node.chunks) ?_ (fun _ => hrejects) rfl rfl
    apply pending_of_cons hands howned rfl hnode
    rw [h] at hun
    simpa [HandlePoint.unanswered, ← Multiset.singleton_add, add_comm] using hun
  | parsedGet t node text ok req h => exact hkeep (by simp [h, HandlePoint.unanswered])
  | parsedOther t node text ok req method h => exact hkeep (by simp [h, HandlePoint.unanswered])
  | found t client req h => exact hkeep (by simp [h, HandlePoint.unanswered])
  | registerFailed t client h => exact hkeep (by simp [h, HandlePoint.unanswered])

/-- The step is none of those that have to do with requests. -/
lemma Turn.of_same {app : App W} {s s' : Server n W} {l : Label n W} (h : Hands s s')
    (hs : s.Owned) (hloop : s'.loop.received = s.loop.received)
    (hhanded : s'.loop.handed = s.loop.handed) (hpool : s'.pool.refs = s.pool.refs)
    (hhandling : s'.handling = s.handling)
    (hreceived : s'.history.received = s.history.received)
    (hgenerated : s'.history.generated = s.history.generated) : Turn app s l s' := by
  refine .pass (pending_of_unanswered h hs hloop ?_) hreceived hgenerated
  rw [unanswered, unanswered, hhanded, hpool, hhandling]

/-- `push_task` takes the task node over, or refuses it. -/
lemma turn_of_push {app : App W} {s : Server n W} {es : List KEvent} {t : Addr} {mem : Bool}
    {ws : List (Fin n)} {r : Bool × Pool n TaskFunc Addr} (howned : s.Owned)
    (h : s.loop = .handing es t)
    (hr : s.pool.pushTask (some .handleConn) (some t) mem ws = some r) :
    Turn app s (.loop (.push mem ws)) { s with pool := r.2, loop := .events es } := by
  have hrule : Rule app s (.loop (.push mem ws)) { s with pool := r.2, loop := .events es } :=
    .push es t mem ws r h hr
  have hands := hrule.hands
  obtain ⟨node, hnode⟩ := Option.isSome_iff_exists.mp
    (howned.live t (mem_refs_of_loop (by simp [h, LoopPoint.refs])))
  obtain ⟨ok, p⟩ := r
  rcases Pool.pushTask_cases hr with ⟨rfl, rfl⟩ | ⟨-, f, a, q, -, ha, hq, -, -, rfl⟩
  · refine .drop (node.conn, node.chunks) ?_ (fun hl => ?_) rfl rfl
    · apply pending_of_cons hands howned (by simp [h, LoopPoint.received]) hnode
      simp only [unanswered, h, LoopPoint.handed, ← Multiset.singleton_add, zero_add, add_assoc]
      rfl
    · simp [noLoss, h, hr] at hl
  · cases ha
    refine .pass ?_ rfl rfl
    apply pending_of_unanswered hands howned (by simp [h, LoopPoint.received])
    simp only [unanswered, h, LoopPoint.handed, Pool.refs, hq, List.map_append, List.map_cons,
      List.map_nil, ← Multiset.coe_add, Multiset.coe_singleton]
    abel

/-- The worker has the task that it took out of the queue. -/
lemma unanswered_of_enter {s : Server n W} (hbusy : s.Busy) {i : Fin n}
    {p : Pool n TaskFunc Addr} (hp : s.pool.step (.enter i) = some p) :
    unanswered { s.setHandling i (HandlePoint.ofWorker (p.thread i)) with pool := p } =
      s.unanswered := by
  have haway : s.handling i = .away := by
    by_contra hne
    obtain ⟨task, htask⟩ := hbusy i hne
    rcases (Pool.step_enter hp).1 with hready | hwoken
    · rw [hready] at htask
      cases htask
    · rw [hwoken] at htask
      cases htask
  have hupdate := total_update_of_zero (f := HandlePoint.unanswered) (s := s.handling) (i := i)
    (HandlePoint.ofWorker (p.thread i)) (by simp [haway, HandlePoint.unanswered])
  have hmove := Pool.refs_of_enter hp
  rw [← HandlePoint.unanswered_ofWorker] at hmove
  calc s.loop.handed + p.refs + total HandlePoint.unanswered
        (Function.update s.handling i (HandlePoint.ofWorker (p.thread i)))
      = s.loop.handed + (p.refs + (HandlePoint.ofWorker (p.thread i)).unanswered) +
        total HandlePoint.unanswered s.handling := by rw [hupdate]; abel
    _ = s.unanswered := by rw [hmove]; rfl

lemma Rule.turn {app : App W} {s s' : Server n W} {l : Label n W} (h : Rule app s l s')
    (howned : s.Owned) (htraced : s.Traced app) (hbusy : s.Busy) : Turn app s l s' := by
  have hands := h.hands
  cases h with
  | signal => exact .of_same hands howned rfl rfl rfl rfl rfl rfl
  | move a p hp =>
    obtain ⟨hreceived, hhanded⟩ := hp.handed
    exact .of_same hands howned hreceived hhanded rfl rfl rfl rfl
  | fault l f hf => exact .of_same hands howned rfl rfl rfl rfl rfl rfl
  | notBuilt es client buf chunks conn memTnode memBuffer memReq memResp h hmem =>
    refine .drop (conn, chunks) ?_ (fun hl => ?_) rfl rfl
    · have hun : unanswered { s with loop := .events es } = s.unanswered := by
        simp [unanswered, h, LoopPoint.handed]
      rw [hands.pending_eq howned fun t ht => mem_refs_of_unanswered (hun ▸ ht), hun, pending, h]
      simp [LoopPoint.received]
    · simp only [noLoss, h] at hl
      rw [hmem] at hl
      cases hl
  | fetch a es h hes =>
    exact .of_same hands howned (by simp [h, LoopPoint.received]) (by simp [h, LoopPoint.handed])
      rfl rfl rfl rfl
  | eof a ident udata es h =>
    exact .of_same hands howned (by simp [h, LoopPoint.received]) (by simp [h, LoopPoint.handed])
      rfl rfl rfl rfl
  | disconnected a es client buf chunks h =>
    exact .of_same hands howned (by simp [h, LoopPoint.received]) (by simp [h, LoopPoint.handed])
      rfl rfl rfl rfl
  | accept => exact .of_same hands howned rfl rfl rfl rfl rfl rfl
  | drained a es client buf chunks c h hc =>
    refine .receive (c, chunks) ?_ rfl rfl
    have hun : unanswered { s with
        loop := .building es client buf chunks c
        history := { s.history with received := s.history.received ++ [(c, chunks)] } } =
        s.unanswered := by
      simp [unanswered, h, LoopPoint.handed]
    rw [hands.pending_eq howned fun t ht => mem_refs_of_unanswered (hun ▸ ht), hun, pending, h]
    simp [LoopPoint.received]
  | built a es client buf chunks conn mem buffer h hcopy hdata =>
    refine .pass (pending_of_built howned rfl ?_ rfl ?_) rfl rfl
    · simp [h, LoopPoint.received]
    · simp only [unanswered, h, LoopPoint.handed, ← Multiset.singleton_add, zero_add, add_assoc]
  | push es t mem ws r h hr => exact turn_of_push howned h hr
  | sent a es t node resp total k c h hnode hresp hc hk hle =>
    exact .of_same hands howned (by simp [h, LoopPoint.received]) (by simp [h, LoopPoint.handed])
      rfl rfl rfl rfl
  | again a es t node total registered h hnode =>
    exact .of_same hands howned (by simp [h, LoopPoint.received]) (by simp [h, LoopPoint.handed])
      rfl rfl rfl rfl
  | gaveUp es t node resp total r registered h hnode hresp hr =>
    exact .of_same hands howned (by simp [h, LoopPoint.received]) (by simp [h, LoopPoint.handed])
      rfl rfl rfl rfl
  | done es t node resp total h hnode hresp hle =>
    exact .of_same hands howned (by simp [h, Server.done, LoopPoint.received])
      (by simp [h, Server.done, LoopPoint.handed]) rfl rfl rfl rfl
  | destroyRoute h =>
    exact .of_same hands howned (by simp [h, LoopPoint.received]) (by simp [h, LoopPoint.handed])
      rfl rfl rfl rfl
  | destroyPool h =>
    exact .of_same hands howned (by simp [h, LoopPoint.received]) (by simp [h, LoopPoint.handed])
      rfl rfl rfl rfl
  | freeList h =>
    exact .of_same hands howned (by simp [h, LoopPoint.received]) (by simp [h, LoopPoint.handed])
      rfl rfl rfl rfl
  | enter i p hp =>
    exact .pass (pending_of_unanswered hands howned rfl (unanswered_of_enter hbusy hp)) rfl rfl
  | wake i p hp => exact .of_same hands howned rfl rfl (Pool.refs_of_wake hp) rfl rfl rfl
  | handle i a p hp => exact hp.turn howned htraced
  | generate i t client req w node h hnode =>
    have hun := s.unanswered_setHandling i (.register t client)
    have hparses := htraced.handling i t req (by rw [h]; rfl) node hnode
    refine .answer ⟨node.conn, node.chunks, w, app.respond w req⟩ ?_ hparses.accepts rfl rfl
    apply pending_of_cons hands howned rfl hnode
    have hmove : t ::ₘ (s.setHandling i (.register t client)).unanswered = s.unanswered := by
      rw [h] at hun
      simpa [HandlePoint.unanswered, ← Multiset.singleton_add, add_comm] using hun
    exact hmove
  | register i t client h hopen =>
    have hun := s.unanswered_setHandling i .away
    rw [h] at hun
    exact .pass (pending_of_unanswered hands howned rfl (add_right_cancel hun)) rfl rfl
  | finish i p h hp => exact .of_same hands howned rfl rfl (Pool.refs_of_finish hp) rfl rfl rfl

/-! ### The balance of what was received -/

lemma due_cons (app : App W) (x : ConnId × List Bytes) (m : Multiset (ConnId × List Bytes)) :
    due app (x ::ₘ m) = due app {x} + due app m := by
  rw [← Multiset.singleton_add, due, Multiset.filter_add]
  rfl

/-- What a step adds to what was received, it adds to what is pending or answered, unless it
loses some. -/
lemma Turn.balance {app : App W} {s s' : Server n W} {l : Label n W} (h : Turn app s l s') :
    ∃ new lost, due app s'.history.received = due app s.history.received + new ∧
      due app s'.pending + s'.answered + lost = due app s.pending + s.answered + new ∧
      (s.noLoss l = true → lost = 0) := by
  cases h with
  | pass hpending hreceived hgenerated =>
    refine ⟨0, 0, by rw [hreceived, add_zero], ?_, fun _ => rfl⟩
    rw [hpending, answered, hgenerated]
    rfl
  | receive x hpending hreceived hgenerated =>
    refine ⟨due app {x}, 0, ?_, ?_, fun _ => rfl⟩
    · rw [hreceived, ← Multiset.coe_add, Multiset.coe_singleton, due, Multiset.filter_add]
      rfl
    · rw [hpending, due_cons, answered, hgenerated, answered]
      abel
  | drop x hpending hlost hreceived hgenerated =>
    refine ⟨0, due app {x}, by rw [hreceived, add_zero], ?_, fun hl => ?_⟩
    · rw [← hpending, due_cons, answered, hgenerated, answered]
      abel
    · simp [due, hlost hl]
  | answer g hpending haccepts hreceived hgenerated =>
    refine ⟨0, 0, by rw [hreceived, add_zero], ?_, fun _ => rfl⟩
    have hdue : due app {(g.origin, g.chunks)} = {(g.origin, g.chunks)} := by
      simp [due, Multiset.filter_singleton, haccepts]
    have hanswered : s'.answered = s.answered + {(g.origin, g.chunks)} := by
      rw [answered, hgenerated, List.map_append, ← Multiset.coe_add]
      rfl
    rw [← hpending, due_cons, hdue, hanswered]
    abel

lemma balance_init (app : App W) :
    due app (init n W).pending + (init n W).answered = due app (init n W).history.received := by
  simp [init, pending, answered, unanswered, LoopPoint.received, LoopPoint.handed, Pool.refs,
    Pool.create, total, HandlePoint.unanswered, due]

lemma Reachable.busy {app : App W} {s : Server n W} (h : Reachable app s) : s.Busy :=
  h.invariant (fun _ hi => absurd rfl hi) fun _ _ _ _ hs hrule => hrule.busy hs

lemma Reachable.turn {app : App W} {s s' : Server n W} {l : Label n W} (h : Reachable app s)
    (hrule : Rule app s l s') : Turn app s l s' :=
  hrule.turn h.owned h.traced h.busy

/-- No more is pending or answered than was received. -/
lemma Reachable.balance_le {app : App W} {s : Server n W} (h : Reachable app s) :
    due app s.pending + s.answered ≤ due app s.history.received := by
  refine h.invariant (P := fun s => due app s.pending + s.answered ≤ due app s.history.received)
    (balance_init app).le fun s l s' hreach hle hrule => ?_
  obtain ⟨new, lost, hreceived, hbalance, -⟩ := (hreach.turn hrule).balance
  calc due app s'.pending + s'.answered
      ≤ due app s'.pending + s'.answered + lost := Multiset.le_add_right _ _
    _ = due app s.pending + s.answered + new := hbalance
    _ ≤ due app s.history.received + new := add_le_add_left hle _
    _ = due app s'.history.received := hreceived.symm

/-- If nothing is lost, what was received is pending or answered. -/
lemma balance_along {app : App W} {ls : List (Label n W)} {s : Server n W}
    (hls : Along (step app) (fun s l => s.noLoss l = true) (init n W) ls)
    (h : run (step app) (init n W) ls = some s) :
    due app s.pending + s.answered = due app s.history.received := by
  refine invariant_along
    (P := fun s => due app s.pending + s.answered = due app s.history.received)
    (balance_init app) (fun s l s' hreach heq hl hrule => ?_) hls h
  obtain ⟨new, lost, hreceived, hbalance, hlost⟩ := (hreach.turn hrule).balance
  rw [hlost hl, add_zero] at hbalance
  rw [hbalance, heq, hreceived]

/-! ### Pieces of a request -/

/-- What was received on the connection, a piece for each READ event. -/
def receivedOn (s : Server n W) (c : ConnId) : List Bytes :=
  (s.history.received.filter fun x => x.1 = c).map fun x => x.2.flatten

/-- The responses that were generated for what was received on the connection. -/
def generatedOn (s : Server n W) (c : ConnId) : List (Generated W) :=
  s.history.generated.filter fun g => g.origin = c

/-- Nothing that was received on the connection is still to be answered. -/
def idleOn (s : Server n W) (c : ConnId) : Prop := ∀ x ∈ s.pending, x.1 ≠ c

/-- There is one response, and it is the one to `r`. -/
def AnsweredOnce (app : App W) (s : Server n W) (c : ConnId) (r : Bytes) : Prop :=
  ∃ g, s.generatedOn c = [g] ∧ app.Answers r g.world g.resp

lemma card_answered (s : Server n W) (c : ConnId) :
    (s.answered.filter fun x => x.1 = c).card = (s.generatedOn c).length := by
  rw [answered, Multiset.filter_coe, Multiset.coe_card, List.filter_map, List.length_map]
  rfl

/-- Pieces without zero bytes are parsed as they were received. -/
lemma card_due_received {app : App W} {s : Server n W} {c : ConnId}
    (hnul : ∀ p ∈ s.receivedOn c, (0 : UInt8) ∉ p) :
    ((due app s.history.received).filter fun x => x.1 = c).card =
      ((s.receivedOn c).filter app.accepts).length := by
  rw [due, Multiset.filter_filter, Multiset.filter_coe, Multiset.coe_card, receivedOn,
    List.filter_map, List.length_map, List.filter_filter]
  congr 1
  apply List.filter_congr
  intro x hx
  by_cases hc : x.1 = c
  · have hmem : x.2.flatten ∈ s.receivedOn c :=
      List.mem_map.mpr ⟨x, List.mem_filter.mpr ⟨hx, by simpa using hc⟩, rfl⟩
    simp [hc, textOf_eq_flatten (hnul _ hmem)]
  · simp [hc]

lemma notMem_of_piece {ps : List Bytes} (hnul : (0 : UInt8) ∉ ps.flatten) {p : Bytes}
    (hp : p ∈ ps) : (0 : UInt8) ∉ p :=
  fun h0 => hnul (List.mem_flatten.mpr ⟨p, hp, h0⟩)

/-- There are at most as many responses as accepted pieces. -/
lemma length_generatedOn_le {app : App W} {s : Server n W} {c : ConnId} {ps : List Bytes}
    (hs : Reachable app s) (hnul : (0 : UInt8) ∉ ps.flatten) (hpre : s.receivedOn c <+: ps) :
    (s.generatedOn c).length ≤ (ps.filter app.accepts).length := by
  have hle : s.answered ≤ due app s.history.received :=
    (Multiset.le_add_left _ _).trans hs.balance_le
  have hcard := Multiset.card_le_card (Multiset.filter_le_filter (fun x => x.1 = c) hle)
  rw [card_answered, card_due_received fun p hp => notMem_of_piece hnul (hpre.subset hp)] at hcard
  exact hcard.trans (hpre.filter app.accepts).length_le

/-- If nothing is lost or pending, there are as many responses as accepted pieces. -/
lemma length_generatedOn {app : App W} {s : Server n W} {c : ConnId}
    (heq : due app s.pending + s.answered = due app s.history.received)
    (hnul : (0 : UInt8) ∉ (s.receivedOn c).flatten) (hidle : s.idleOn c) :
    (s.generatedOn c).length = ((s.receivedOn c).filter app.accepts).length := by
  have hnone : (due app s.pending).filter (fun x => x.1 = c) = 0 := by
    rw [Multiset.filter_eq_nil]
    intro x hx
    exact hidle x (Multiset.mem_of_mem_filter hx)
  have hcard := congrArg (fun m => (Multiset.filter (fun x => x.1 = c) m).card) heq
  simp only [Multiset.filter_add, hnone, zero_add, card_answered] at hcard
  rw [hcard, card_due_received fun p hp => notMem_of_piece hnul hp]

/-- The response was generated for an accepted piece. -/
lemma piece_of_generated {app : App W} {s : Server n W} {c : ConnId} {ps : List Bytes}
    (hs : Reachable app s) (hnul : (0 : UInt8) ∉ ps.flatten) (hpre : s.receivedOn c <+: ps)
    {g : Generated W} (hg : g ∈ s.generatedOn c) :
    ∃ p ∈ ps.filter app.accepts, app.Answers p g.world g.resp := by
  obtain ⟨hmem, horigin⟩ := List.mem_filter.mp hg
  obtain ⟨hreceived, req, hparses, hresp⟩ := hs.traced.generated g hmem
  have hpiece : g.chunks.flatten ∈ ps := by
    apply hpre.subset
    exact List.mem_map.mpr ⟨_, List.mem_filter.mpr ⟨hreceived, horigin⟩, rfl⟩
  rw [textOf_eq_flatten (notMem_of_piece hnul hpiece)] at hparses
  exact ⟨_, List.mem_filter.mpr ⟨hpiece, hparses.accepts⟩, req, hparses, hresp⟩

end Server

/-- One of the pieces is accepted, and the handlers make of the request that is parsed from it
what they make of the request of the whole. -/
def App.OnePiece {W : Type} (app : App W) (ps : List Bytes) : Prop :=
  ∃ p req req', ps.filter app.accepts = [p] ∧ app.Parses p req ∧ app.Parses ps.flatten req' ∧
    ∀ w, app.respond w req = app.respond w req'

lemma App.Parses.unique {W : Type} {app : App W} {text : Bytes} {req req' : HttpRequest}
    (h : app.Parses text req) (h' : app.Parses text req') : req = req' := by
  obtain ⟨ok, hparse, -⟩ := h
  obtain ⟨ok', hparse', -⟩ := h'
  rw [hparse] at hparse'
  cases hparse'
  rfl

/-- A request that arrives in one READ event. -/
lemma App.onePiece_singleton {W : Type} {app : App W} {r : Bytes} (h : app.accepts r = true) :
    app.OnePiece [r] := by
  obtain ⟨req, hreq⟩ := App.accepts_iff.mp h
  refine ⟨r, req, req, by simp [h], hreq, ?_, fun _ => rfl⟩
  rwa [List.flatten_singleton]

namespace Server

variable {n : ℕ} {W : Type}

end Server

end Ccybe
