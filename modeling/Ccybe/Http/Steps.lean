import Ccybe.Http.Server
import Ccybe.Lib.Tally

/-!
# What the server can do in one step

`Rule.of_step` is the inversion of `Server.step`. Invariants are derived from the rules and not
from the definition of the step.
-/

namespace Ccybe

open CSem Trace Tally

/-! ### Task nodes in use -/

/-- The task nodes of the WRITE events in a batch. -/
def writes : List KEvent → Multiset Addr
  | [] => 0
  | .read _ _ _ :: es => writes es
  | .write _ t :: es => t ::ₘ writes es

@[simp] lemma writes_nil : writes [] = 0 := rfl
@[simp] lemma writes_read (ident : Fd) (udata : Option Addr) (eof : Bool) (es : List KEvent) :
    writes (.read ident udata eof :: es) = writes es := rfl
@[simp] lemma writes_write (ident : Fd) (t : Addr) (es : List KEvent) :
    writes (.write ident t :: es) = t ::ₘ writes es := rfl

/-- The task nodes that the loop is going to use. -/
def LoopPoint.refs : LoopPoint → Multiset Addr
  | .events es => writes es
  | .accepting es => writes es
  | .reading es _ _ _ => writes es
  | .building es _ _ _ _ => writes es
  | .handing es t => t ::ₘ writes es
  | .writing es t _ => t ::ₘ writes es
  | _ => 0

/-- The task node that a worker is going to use. -/
def HandlePoint.refs : HandlePoint → Multiset Addr
  | .away => 0
  | .entered t => {t}
  | .lookup t _ _ => {t}
  | .generate t _ _ => {t}
  | .register t _ => {t}

/-- The task nodes of the WRITE events in the kqueue. -/
def Conns.refs (c : Conns) : Multiset Addr := (c.writeReg.map Prod.snd : List Addr)

/-- The task nodes in the queue of the pool. -/
def Pool.refs {n : ℕ} (p : Pool n TaskFunc Addr) : Multiset Addr :=
  (p.q.items.map TaskNode.args : List Addr)

namespace Server

variable {n : ℕ} {W : Type}

/-- The task nodes that are referenced for use: by the loop, by the queue, by a worker, and by
the kqueue, each counted as often as it is referenced. -/
def refs (s : Server n W) : Multiset Addr :=
  s.loop.refs + s.pool.refs + total HandlePoint.refs s.handling + s.conns.refs

lemma mem_refs_of_loop {s : Server n W} {t : Addr} (h : t ∈ s.loop.refs) : t ∈ s.refs := by
  simp [refs, h]

lemma mem_refs_of_handling {s : Server n W} {i : Fin n} {t : Addr}
    (h : t ∈ (s.handling i).refs) : t ∈ s.refs := by
  have htotal : t ∈ total HandlePoint.refs s.handling := mem_total.mpr ⟨i, h⟩
  simp [refs, htotal]

/-! ### Rules -/

/-- The moves of the loop that change nothing else. -/
inductive Moves (app : App W) (s : Server n W) : LoopPoint → Prop where
  | listened (ok : Bool) (h : s.loop = .listening) : Moves app s (if ok then .test else .sClose)
  | tested (h : s.loop = .test) : Moves app s (if s.shutdownSignal then .sClose else .polling)
  | interrupted (h : s.loop = .polling) : Moves app s .test
  | pollFailed (h : s.loop = .polling) : Moves app s .sClose
  | batchEnd (h : s.loop = .events []) : Moves app s .test
  | toAccept (udata : Option Addr) (es : List KEvent)
      (h : s.loop = .events (.read app.lnFd udata false :: es)) : Moves app s (.accepting es)
  | toRead (ident : Fd) (a : Addr) (es : List KEvent) (node : LNode) (mem : Bool) (buf : StringT)
      (h : s.loop = .events (.read ident (some a) false :: es)) (hne : ident ≠ app.lnFd)
      (hnode : s.conns.clients.find a = some node)
      (hbuf : StringT.newString (some (terminated [])) mem = .ok buf) :
      Moves app s (.reading es node.client buf [])
  | toWrite (ident : Fd) (t : Addr) (es : List KEvent) (node : ThreadNode)
      (h : s.loop = .events (.write ident t :: es)) (hnode : s.tnodes t = some node) :
      Moves app s (.writing es t 0)
  | accepted (es : List KEvent) (h : s.loop = .accepting es) : Moves app s (.events es)
  | received (es : List KEvent) (client : Client) (buf buf' : StringT) (chunks : List Bytes)
      (chunk : Bytes) (mem : Bool) (h : s.loop = .reading es client buf chunks)
      (hbuf : buf.appendStringCstr (some (terminated chunk)) mem = .ok (true, buf')) :
      Moves app s (.reading es client buf' (chunks ++ [chunk]))
  | dropReading (es : List KEvent) (client : Client) (buf : StringT) (chunks : List Bytes)
      (h : s.loop = .reading es client buf chunks) : Moves app s (.events es)
  | closedListener (h : s.loop = .sClose) : Moves app s .destroyRoute
  | joined (h : s.loop = .joining) (hexit : ∀ i, s.pool.thread i = .exited) :
      Moves app s .freeList

/-- The faults. -/
inductive Faults (app : App W) (s : Server n W) : Fault → Prop where
  | staleNode (ident : Fd) (a : Addr) (es : List KEvent)
      (h : s.loop = .events (.read ident (some a) false :: es)) (hne : ident ≠ app.lnFd)
      (hnode : s.conns.clients.find a = none) : Faults app s .staleNode
  | freedTnode (t : Addr) (ht : t ∈ s.refs) (hnode : s.tnodes t = none) :
      Faults app s .freedTnode
  | destroyedRoute (i : Fin n) (t : Addr) (client : Client) (req : HttpRequest)
      (h : s.handling i = .lookup t client req) (hroute : s.route = false) :
      Faults app s .destroyedRoute
  | undefined (u : Undefined) : Faults app s (.undefined u)

/-- The moves of worker `i` in `handle_conn` that change nothing else. -/
inductive HandleMoves (app : App W) (s : Server n W) (i : Fin n) : HandlePoint → Prop where
  | badRequest (t : Addr) (node : ThreadNode) (h : s.handling i = .entered t)
      (hnode : s.tnodes t = some node)
      (hbad : node.buffer.data = none ∨ ∃ text req, node.buffer.bytes = .ok text ∧
        parseHttpRequest app.llhttp text = .ok (1, req)) : HandleMoves app s i .away
  | parsedGet (t : Addr) (node : ThreadNode) (text : Bytes) (ok : Int) (req : HttpRequest)
      (h : s.handling i = .entered t) (hnode : s.tnodes t = some node)
      (htext : node.buffer.bytes = .ok text)
      (hparse : parseHttpRequest app.llhttp text = .ok (ok, req)) (hok : ok ≠ 1)
      (hget : getMothodType req.method = .ok .get) :
      HandleMoves app s i (.lookup t node.client req)
  | parsedOther (t : Addr) (node : ThreadNode) (text : Bytes) (ok : Int) (req : HttpRequest)
      (method : MethodType) (h : s.handling i = .entered t) (hnode : s.tnodes t = some node)
      (htext : node.buffer.bytes = .ok text)
      (hparse : parseHttpRequest app.llhttp text = .ok (ok, req)) (hok : ok ≠ 1)
      (hmethod : getMothodType req.method = .ok method) (hget : method ≠ .get) :
      HandleMoves app s i (.generate t node.client req)
  | found (t : Addr) (client : Client) (req : HttpRequest)
      (h : s.handling i = .lookup t client req) (hroute : s.route = true) :
      HandleMoves app s i (.generate t client req)
  | registerFailed (t : Addr) (client : Client) (h : s.handling i = .register t client) :
      HandleMoves app s i .away

/-- The steps of the server, one constructor for each outcome. -/
inductive Rule (app : App W) (s : Server n W) : Label n W → Server n W → Prop where
  | signal : Rule app s .signal { s with shutdownSignal := true }
  | move (a : LoopStep n) (p : LoopPoint) (hp : s.Moves app p) :
      Rule app s (.loop a) { s with loop := p }
  | fault (l : Label n W) (f : Fault) (hf : s.Faults app f) : Rule app s l (s.fail f)
  | notBuilt (es : List KEvent) (client : Client) (buf : StringT) (chunks : List Bytes)
      (conn : ConnId) (memTnode memBuffer memReq memResp : Bool)
      (h : s.loop = .building es client buf chunks conn)
      (hmem : (memTnode && memBuffer && memReq && memResp) = false) :
      Rule app s (.loop (.build memTnode memBuffer memReq memResp)) { s with loop := .events es }
  | fetch (a : LoopStep n) (es : List KEvent) (h : s.loop = .polling)
      (hes : s.conns.batch app.lnFd es = true) :
      Rule app s (.loop a) { s with conns := s.conns.fetch es, loop := .events es }
  | eof (a : LoopStep n) (ident : Fd) (udata : Option Addr) (es : List KEvent)
      (h : s.loop = .events (.read ident udata true :: es)) :
      Rule app s (.loop a) { s with conns := s.conns.removeClient ident, loop := .events es }
  | disconnected (a : LoopStep n) (es : List KEvent) (client : Client) (buf : StringT)
      (chunks : List Bytes) (h : s.loop = .reading es client buf chunks) :
      Rule app s (.loop a) { s with conns := s.conns.removeClient client.fd, loop := .events es }
  | accept (es : List KEvent) (fd : Fd) (nonblock mem registered : Bool)
      (h : s.loop = .accepting es) (hfree : s.conns.fds fd = none) (hne : fd ≠ app.lnFd)
      (hmem : nonblock = true → mem = true) :
      Rule app s (.loop (.accept (.conn fd nonblock mem registered)))
        { s with conns := s.conns.acceptClient fd nonblock registered }
  | drained (a : LoopStep n) (es : List KEvent) (client : Client) (buf : StringT)
      (chunks : List Bytes) (c : ConnId) (h : s.loop = .reading es client buf chunks)
      (hc : s.conns.fds client.fd = some c) :
      Rule app s (.loop a) { s with
        loop := .building es client buf chunks c
        history := { s.history with received := s.history.received ++ [(c, chunks)] } }
  | built (a : LoopStep n) (es : List KEvent) (client : Client) (buf : StringT)
      (chunks : List Bytes) (conn : ConnId) (mem : Bool) (buffer : StringT)
      (h : s.loop = .building es client buf chunks conn)
      (hcopy : buf.copyString mem = .ok buffer) (hdata : buffer.data ≠ none) :
      Rule app s (.loop a) { s with
        tnodes := Function.update s.tnodes s.nextTnode (some ⟨client, buffer, none, conn, chunks⟩)
        nextTnode := s.nextTnode + 1
        loop := .handing es s.nextTnode }
  | push (es : List KEvent) (t : Addr) (mem : Bool) (ws : List (Fin n))
      (r : Bool × Pool n TaskFunc Addr) (h : s.loop = .handing es t)
      (hr : s.pool.pushTask (some .handleConn) (some t) mem ws = some r) :
      Rule app s (.loop (.push mem ws)) { s with pool := r.2, loop := .events es }
  | sent (a : LoopStep n) (es : List KEvent) (t : Addr) (node : ThreadNode) (resp : Bytes)
      (total k : ℕ) (c : ConnId) (h : s.loop = .writing es t total)
      (hnode : s.tnodes t = some node) (hresp : node.completeResp = some resp)
      (hc : s.conns.fds node.client.fd = some c) (hk : 0 < k) (hle : total + k ≤ resp.length) :
      Rule app s (.loop a) { s with
        loop := .writing es t (total + k)
        history := { s.history with
          sends := s.history.sends ++
            [⟨c, node.conn, node.chunks, (resp.drop total).take k⟩] } }
  | again (a : LoopStep n) (es : List KEvent) (t : Addr) (node : ThreadNode) (total : ℕ)
      (registered : Bool) (h : s.loop = .writing es t total) (hnode : s.tnodes t = some node) :
      Rule app s (.loop a) { s with
        conns := if registered then s.conns.addWrite node.client.fd t else s.conns
        loop := .events es }
  | gaveUp (es : List KEvent) (t : Addr) (node : ThreadNode) (resp : Bytes) (total : ℕ)
      (r : SendResult) (registered : Bool) (h : s.loop = .writing es t total)
      (hnode : s.tnodes t = some node) (hresp : node.completeResp = some resp)
      (hr : r ≠ .again ∧ ∀ k, r = .sent k → k = 0) :
      Rule app s (.loop (.send r registered)) { s.removeFor node with loop := .events es }
  | done (es : List KEvent) (t : Addr) (node : ThreadNode) (resp : Bytes) (total : ℕ)
      (h : s.loop = .writing es t total) (hnode : s.tnodes t = some node)
      (hresp : node.completeResp = some resp) (hle : resp.length ≤ total) :
      Rule app s (.loop .done) (s.done es t node)
  | destroyRoute (h : s.loop = .destroyRoute) :
      Rule app s (.loop .close) { s with route := false, loop := .destroyPool }
  | destroyPool (h : s.loop = .destroyPool) :
      Rule app s (.loop .close) { s with pool := s.pool.destroy, loop := .joining }
  | freeList (h : s.loop = .freeList) :
      Rule app s (.loop .close)
        { s with conns := s.conns.freeList, loop := .returned s.conns.clients.freeList.2 }
  | enter (i : Fin n) (p : Pool n TaskFunc Addr) (hp : s.pool.step (.enter i) = some p) :
      Rule app s (.worker i .enter)
        { s.setHandling i (HandlePoint.ofWorker (p.thread i)) with pool := p }
  | wake (i : Fin n) (p : Pool n TaskFunc Addr) (hp : s.pool.step (.wake i) = some p) :
      Rule app s (.worker i .wake) { s with pool := p }
  | handle (i : Fin n) (a : WorkerStep W) (p : HandlePoint) (hp : s.HandleMoves app i p) :
      Rule app s (.worker i a) (s.setHandling i p)
  | generate (i : Fin n) (t : Addr) (client : Client) (req : HttpRequest) (w : W)
      (node : ThreadNode) (h : s.handling i = .generate t client req)
      (hnode : s.tnodes t = some node) :
      Rule app s (.worker i (.generate w))
        { s.setHandling i (.register t client) with
          tnodes := Function.update s.tnodes t
            (some { node with completeResp := some (app.respond w req) })
          history := { s.history with
            generated := s.history.generated ++
              [⟨node.conn, node.chunks, w, app.respond w req⟩] } }
  | register (i : Fin n) (t : Addr) (client : Client) (h : s.handling i = .register t client)
      (hopen : (s.conns.fds client.fd).isSome) :
      Rule app s (.worker i (.register true))
        { s.setHandling i .away with conns := s.conns.addWrite client.fd t }
  | finish (i : Fin n) (p : Pool n TaskFunc Addr) (h : s.handling i = .away)
      (hp : s.pool.step (.finish i) = some p) :
      Rule app s (.worker i .finish) { s with pool := p }

/-! ### The steps follow the rules -/

lemma Rule.of_nextEvent {app : App W} {s : Server n W} {es : List KEvent} (mem : Bool)
    (h : s.loop = .events es) : Rule app s (.loop (.next mem)) (s.nextEvent app mem es) := by
  cases es with
  | nil => exact .move _ _ (.batchEnd h)
  | cons e es =>
    cases e with
    | write ident t =>
      have ht : t ∈ s.refs := mem_refs_of_loop (by simp [h, LoopPoint.refs])
      cases hnode : s.tnodes t with
      | none =>
        simp only [nextEvent, hnode]
        exact .fault _ _ (.freedTnode t ht hnode)
      | some node =>
        simp only [nextEvent, hnode]
        exact .move _ _ (.toWrite ident t es node h hnode)
    | read ident udata eof =>
      cases eof with
      | true => exact .eof _ ident udata es h
      | false =>
        by_cases hne : ident = app.lnFd
        · subst hne
          simp only [nextEvent, Bool.false_eq_true, if_false, if_true]
          exact .move _ _ (.toAccept udata es h)
        · cases udata with
          | none =>
            simp only [nextEvent, Bool.false_eq_true, if_false, if_neg hne]
            exact .fault _ _ (.undefined _)
          | some a =>
            cases hnode : s.conns.clients.find a with
            | none =>
              simp only [nextEvent, Bool.false_eq_true, if_false, if_neg hne, hnode]
              exact .fault _ _ (.staleNode ident a es h hne hnode)
            | some node =>
              cases hbuf : StringT.newString (some (terminated [])) mem with
              | error u =>
                simp only [nextEvent, Bool.false_eq_true, if_false, if_neg hne, hnode, hbuf]
                exact .fault _ _ (.undefined u)
              | ok buf =>
                simp only [nextEvent, Bool.false_eq_true, if_false, if_neg hne, hnode, hbuf]
                exact .move _ _ (.toRead ident a es node mem buf h hne hnode hbuf)

lemma Rule.of_recv {app : App W} {s s' : Server n W} {es : List KEvent} {client : Client}
    {buf : StringT} {chunks : List Bytes} {r : RecvResult}
    (h : s.loop = .reading es client buf chunks) (hs : s.recv es client buf chunks r = some s') :
    Rule app s (.loop (.recv r)) s' := by
  cases r with
  | failed =>
    cases hs
    exact .move _ _ (.dropReading es client buf chunks h)
  | again =>
    obtain ⟨c, hc, rfl⟩ := Option.map_eq_some_iff.mp hs
    exact .drained _ es client buf chunks c h hc
  | closed =>
    simp only [recv] at hs
    split_ifs at hs
    cases hs
    exact .disconnected _ es client buf chunks h
  | data chunk mem =>
    simp only [recv] at hs
    split_ifs at hs
    split at hs
    · cases hs
      exact .fault _ _ (.undefined _)
    · rename_i buf' hbuf
      cases hs
      exact .move _ _ (.received es client buf buf' chunks chunk mem h hbuf)
    · cases hs
      exact .move _ _ (.dropReading es client buf chunks h)

lemma Rule.of_build {app : App W} {s : Server n W} {es : List KEvent} {client : Client}
    {buf : StringT} {chunks : List Bytes} {conn : ConnId}
    (memTnode memBuffer memReq memResp : Bool)
    (h : s.loop = .building es client buf chunks conn) :
    Rule app s (.loop (.build memTnode memBuffer memReq memResp))
      (s.build es client buf chunks conn memTnode memBuffer memReq memResp) := by
  unfold build
  split_ifs with hmem
  · exact .notBuilt es client buf chunks conn _ _ _ _ h (by simp_all)
  · cases hcopy : buf.copyString memBuffer with
    | error u => exact .fault _ _ (.undefined u)
    | ok buffer =>
      simp only
      split_ifs with hfail
      · refine .notBuilt es client buf chunks conn _ _ _ _ h ?_
        cases memBuffer with
        | false => simp
        | true =>
          have hdata : buffer.data.isNone = false := by
            simpa [Option.isSome_iff_ne_none] using StringT.copyString_data hcopy
          rw [hdata, Bool.false_or, Bool.or_eq_true, Bool.not_eq_true', Bool.not_eq_true'] at hfail
          rcases hfail with hreq | hresp
          · simp [hreq]
          · simp [hresp]
      · refine .built _ es client buf chunks conn memBuffer buffer h hcopy fun hnone => hfail ?_
        simp [hnone]

lemma Rule.of_send {app : App W} {s s' : Server n W} {es : List KEvent} {t : Addr}
    {node : ThreadNode} {resp : Bytes} {total : ℕ} {r : SendResult} {registered : Bool}
    (h : s.loop = .writing es t total) (hnode : s.tnodes t = some node)
    (hresp : node.completeResp = some resp) (hlt : total < resp.length)
    (hs : s.send es t node resp total r registered = some s') :
    Rule app s (.loop (.send r registered)) s' := by
  cases r with
  | sent k =>
    by_cases hle : k ≤ resp.length - total
    · by_cases hk : k = 0
      · subst hk
        simp [send, writePass] at hs
        subst hs
        exact .gaveUp es t node resp total _ registered h hnode hresp ⟨by simp, by simp⟩
      · cases hc : s.conns.fds node.client.fd with
        | none => simp [send, writePass, hle, hk, hc] at hs
        | some c =>
          simp only [send, writePass, hle, hk, hc, if_true, if_false, Nat.add_sub_cancel_left]
            at hs
          cases hs
          exact .sent _ es t node resp total k c h hnode hresp hc (Nat.pos_of_ne_zero hk) (by omega)
    · simp [send, writePass, hle] at hs
  | again =>
    cases hc : s.conns.fds node.client.fd with
    | none => simp [send, writePass, hc] at hs
    | some c =>
      simp only [send, writePass, hc] at hs
      cases hs
      exact .again _ es t node total registered h hnode
  | error =>
    simp [send, writePass] at hs
    subst hs
    exact .gaveUp es t node resp total _ registered h hnode hresp ⟨by simp, by simp⟩

lemma Rule.of_parse {app : App W} {s : Server n W} {i : Fin n} {t : Addr}
    (h : s.handling i = .entered t) : Rule app s (.worker i .parse) (s.parse app i t) := by
  have ht : t ∈ s.refs := mem_refs_of_handling (i := i) (by simp [h, HandlePoint.refs])
  unfold parse
  cases hnode : s.tnodes t with
  | none => exact .fault _ _ (.freedTnode t ht hnode)
  | some node =>
    simp only
    split_ifs with hdata
    · exact .handle i _ _ (.badRequest t node h hnode (.inl (by simpa using hdata)))
    · cases htext : node.buffer.bytes with
      | error u => exact .fault _ _ (.undefined u)
      | ok text =>
        simp only [ok_bind]
        cases hparse : parseHttpRequest app.llhttp text with
        | error u => exact .fault _ _ (.undefined u)
        | ok r =>
          obtain ⟨ok, req⟩ := r
          simp only
          split_ifs with hok
          · subst hok
            exact .handle i _ _ (.badRequest t node h hnode (.inr ⟨text, req, htext, hparse⟩))
          · cases hmethod : getMothodType req.method with
            | error u => exact .fault _ _ (.undefined u)
            | ok method =>
              cases method with
              | get => exact .handle i _ _ (.parsedGet t node text ok req h hnode htext hparse hok
                  hmethod)
              | post => exact .handle i _ _ (.parsedOther t node text ok req _ h hnode htext hparse
                  hok hmethod (by simp))
              | unknown => exact .handle i _ _ (.parsedOther t node text ok req _ h hnode htext
                  hparse hok hmethod (by simp))

lemma Rule.of_loopStep {app : App W} {s s' : Server n W} {a : LoopStep n}
    (hs : s.loopStep app a = some s') : Rule app s (.loop a) s' := by
  cases a with
  | listen ok =>
    simp only [loopStep] at hs
    split at hs
    · rename_i h
      cases hs
      exact .move _ _ (.listened ok h)
    · cases hs
  | test =>
    simp only [loopStep] at hs
    split at hs
    · rename_i h
      cases hs
      exact .move _ _ (.tested h)
    · cases hs
  | poll r =>
    simp only [loopStep] at hs
    split at hs
    · rename_i h
      cases hs
      exact .move _ _ (.interrupted h)
    · rename_i h
      cases hs
      exact .move _ _ (.pollFailed h)
    · rename_i es h
      split_ifs at hs with hes
      cases hs
      exact .fetch _ es h hes
    · cases hs
  | next mem =>
    simp only [loopStep] at hs
    split at hs
    · rename_i es h
      cases hs
      exact .of_nextEvent mem h
    · cases hs
  | accept r =>
    simp only [loopStep] at hs
    split at hs
    · rename_i es h
      cases hs
      exact .move _ _ (.accepted es h)
    · rename_i es fd nonblock mem registered h
      split_ifs at hs with hfd
      cases hs
      rw [Bool.and_eq_true, Option.isNone_iff_eq_none, bne_iff_ne] at hfd
      unfold acceptClient
      split_ifs with hmem
      · exact .fault _ _ (.undefined _)
      · exact .accept es fd nonblock mem registered h hfd.1 hfd.2 (by simpa using hmem)
    · cases hs
  | recv r =>
    simp only [loopStep] at hs
    split at hs
    · rename_i es client buf chunks h
      exact .of_recv h hs
    · cases hs
  | build memTnode memBuffer memReq memResp =>
    simp only [loopStep] at hs
    split at hs
    · rename_i es client buf chunks conn h
      cases hs
      exact .of_build memTnode memBuffer memReq memResp h
    · cases hs
  | push mem ws =>
    simp only [loopStep] at hs
    split at hs
    · rename_i es t h
      obtain ⟨r, hr, rfl⟩ := Option.map_eq_some_iff.mp hs
      exact .push es t mem ws r h hr
    · cases hs
  | send r registered =>
    simp only [loopStep] at hs
    split at hs
    · rename_i es t total h
      have ht : t ∈ s.refs := mem_refs_of_loop (by simp [h, LoopPoint.refs])
      split at hs
      · rename_i hnode
        cases hs
        exact .fault _ _ (.freedTnode t ht hnode)
      · rename_i node hnode
        split at hs
        · cases hs
          exact .fault _ _ (.undefined _)
        · rename_i resp hresp
          split_ifs at hs with hlt
          exact .of_send h hnode hresp hlt hs
    · cases hs
  | done =>
    simp only [loopStep] at hs
    split at hs
    · rename_i es t total h
      have ht : t ∈ s.refs := mem_refs_of_loop (by simp [h, LoopPoint.refs])
      split at hs
      · rename_i hnode
        cases hs
        exact .fault _ _ (.freedTnode t ht hnode)
      · rename_i node hnode
        split at hs
        · cases hs
          exact .fault _ _ (.undefined _)
        · rename_i resp hresp
          split_ifs at hs with hlt
          cases hs
          exact .done es t node resp total h hnode hresp (Nat.le_of_not_lt hlt)
    · cases hs
  | close =>
    simp only [loopStep] at hs
    split at hs
    · rename_i h
      cases hs
      exact .move _ _ (.closedListener h)
    · rename_i h
      cases hs
      exact .destroyRoute h
    · rename_i h
      cases hs
      exact .destroyPool h
    · rename_i h
      split_ifs at hs with hexit
      cases hs
      exact .move _ _ (.joined h hexit)
    · rename_i h
      cases hs
      exact .freeList h
    · cases hs

lemma Rule.of_workerStep {app : App W} {s s' : Server n W} {i : Fin n} {a : WorkerStep W}
    (hs : s.workerStep app i a = some s') : Rule app s (.worker i a) s' := by
  cases a with
  | enter =>
    obtain ⟨p, hp, rfl⟩ := Option.map_eq_some_iff.mp hs
    exact .enter i p hp
  | wake =>
    obtain ⟨p, hp, rfl⟩ := Option.map_eq_some_iff.mp hs
    exact .wake i p hp
  | parse =>
    simp only [workerStep] at hs
    split at hs
    · rename_i t h
      cases hs
      exact .of_parse h
    · cases hs
  | lookup =>
    simp only [workerStep] at hs
    split at hs
    · rename_i t client req h
      split_ifs at hs with hroute
      · cases hs
        exact .handle i _ _ (.found t client req h hroute)
      · cases hs
        exact .fault _ _ (.destroyedRoute i t client req h (by simpa using hroute))
    · cases hs
  | generate w =>
    simp only [workerStep] at hs
    split at hs
    · rename_i t client req h
      have ht : t ∈ s.refs := mem_refs_of_handling (i := i) (by simp [h, HandlePoint.refs])
      cases hs
      unfold Server.generate
      cases hnode : s.tnodes t with
      | none => exact .fault _ _ (.freedTnode t ht hnode)
      | some node => exact .generate i t client req w node h hnode
    · cases hs
  | register ok =>
    simp only [workerStep] at hs
    split at hs
    · rename_i t client h
      split_ifs at hs with hok hopen
      · subst hok
        cases hs
        exact .register i t client h hopen
      · cases hs
        exact .handle i _ _ (.registerFailed t client h)
    · cases hs
  | finish =>
    simp only [workerStep] at hs
    split at hs
    · rename_i h
      obtain ⟨p, hp, rfl⟩ := Option.map_eq_some_iff.mp hs
      exact .finish i p h hp
    · cases hs

lemma Rule.of_step {app : App W} {s s' : Server n W} {l : Label n W}
    (hs : s.step app l = some s') : s.fault = none ∧ Rule app s l s' := by
  unfold step at hs
  split_ifs at hs with hfault
  refine ⟨by simpa using hfault, ?_⟩
  cases l with
  | signal =>
    cases hs
    exact .signal
  | loop a => exact .of_loopStep hs
  | worker i a => exact .of_workerStep hs

/-- What holds at the start and is kept by every rule holds in every reachable state. -/
lemma Reachable.invariant {app : App W} {P : Server n W → Prop} (hinit : P (init n W))
    (hrule : ∀ s l s', Reachable app s → P s → Rule app s l s' → P s') {s : Server n W}
    (h : Reachable app s) : P s := by
  have hboth : Reachable app s ∧ P s := by
    refine Reaches.invariant (P := fun s => Reachable app s ∧ P s) ?_ h ⟨Reaches.refl _, hinit⟩
    rintro s l s' ⟨hreach, hs⟩ hstep
    exact ⟨hreach.trans (.of_step hstep), hrule s l s' hreach hs (Rule.of_step hstep).2⟩
  exact hboth.2

/-- The same along a run whose steps meet the condition `C`. -/
lemma invariant_along {app : App W} {P : Server n W → Prop} {C : Server n W → Label n W → Prop}
    (hinit : P (init n W))
    (hrule : ∀ s l s', Reachable app s → P s → C s l → Rule app s l s' → P s')
    {s : Server n W} {ls : List (Label n W)} (hC : Along (step app) C (init n W) ls)
    (h : run (step app) (init n W) ls = some s) : P s := by
  have hboth : Reachable app s ∧ P s := by
    refine run_invariant_along (P := fun s => Reachable app s ∧ P s) ?_ hC h
      ⟨Reaches.refl _, hinit⟩
    rintro s l s' ⟨hreach, hs⟩ hl hstep
    exact ⟨hreach.trans (.of_step hstep), hrule s l s' hreach hs hl (Rule.of_step hstep).2⟩
  exact hboth.2

/-! ### What a step does to a worker -/

/-- A step leaves worker `i` where it is, takes it into `handle_conn`, or moves it on there. -/
inductive Places (app : App W) (s s' : Server n W) (i : Fin n) : Prop where
  | stays (h : s'.handling i = s.handling i)
  | enters (hpool : s.pool.step (.enter i) = some s'.pool)
      (h : s'.handling i = HandlePoint.ofWorker (s'.pool.thread i))
  | moves (h : s.HandleMoves app i (s'.handling i)) (htnodes : s'.tnodes = s.tnodes)
  | generates (t : Addr) (client : Client) (req : HttpRequest)
      (h : s.handling i = .generate t client req) (h' : s'.handling i = .register t client)
  | registers (t : Addr) (client : Client) (h : s.handling i = .register t client)
      (h' : s'.handling i = .away)

lemma Rule.places {app : App W} {s s' : Server n W} {l : Label n W} (h : Rule app s l s')
    (i : Fin n) : Places app s s' i := by
  cases h with
  | enter j p hp =>
    by_cases hj : i = j
    · subst hj
      exact .enters hp (by simp)
    · exact .stays (by simp [hj])
  | handle j a p hp =>
    by_cases hj : i = j
    · subst hj
      exact .moves (by simpa using hp) rfl
    · exact .stays (by simp [hj])
  | generate j t client req w node h hnode =>
    by_cases hj : i = j
    · subst hj
      exact .generates t client req h (by simp)
    · exact .stays (by simp [hj])
  | register j t client h hopen =>
    by_cases hj : i = j
    · subst hj
      exact .registers t client h (by simp)
    · exact .stays (by simp [hj])
  | _ => exact .stays rfl

/-! ### The pool of the server is the pool -/

/-- A step of the server is a step of its pool, or leaves the pool alone. A worker finishes its
task at the end of `handle_conn`. -/
lemma Rule.pool {app : App W} {s s' : Server n W} {l : Label n W} (h : Rule app s l s') :
    s'.pool = s.pool ∨
      ∃ e, s.pool.step e = some s'.pool ∧ ∀ i, e = .finish i → s.handling i = .away := by
  cases h with
  | push es t mem ws r h hr =>
    refine .inr ⟨.push (some .handleConn) (some t) mem ws, by simp [Pool.step, hr], ?_⟩
    rintro i ⟨⟩
  | destroyPool h =>
    refine .inr ⟨.destroy, rfl, ?_⟩
    rintro i ⟨⟩
  | enter i p hp =>
    refine .inr ⟨.enter i, hp, ?_⟩
    rintro j ⟨⟩
  | wake i p hp =>
    refine .inr ⟨.wake i, hp, ?_⟩
    rintro j ⟨⟩
  | finish i p h hp =>
    refine .inr ⟨.finish i, hp, ?_⟩
    rintro j ⟨⟩
    exact h
  | _ => exact .inl rfl

/-- What was proved of pools holds of the pool of the server. -/
lemma Reachable.pool {app : App W} {s : Server n W} (h : Reachable app s) :
    s.pool.Reachable := by
  refine ⟨128, Reaches.simulation (f := Server.pool) (fun u l v huv => ?_) h⟩
  rcases (Rule.of_step huv).2.pool with hpool | ⟨e, he, -⟩
  · rw [hpool]
    exact .refl _
  · exact .of_step he

end Server

end Ccybe
