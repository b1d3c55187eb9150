import Ccybe.Http.Delivered
import Ccybe.Http.Joined
import Ccybe.Http.Registered

/-!
# The ledger of the task nodes

A task node that was made is referred to, or it was freed, or it was dropped: nothing refers to it any
more, and it will never be freed. `drops` says what a step drops, and with it the references, the
freed nodes and the dropped nodes are together the nodes that were made, each of them once.
-/

namespace Ccybe

open CSem Trace Tally

/-! ### References in the kqueue -/

namespace Conns

/-- The task nodes of the WRITE events of a descriptor. -/
def writesOf (c : Conns) (fd : Fd) : List Addr := (c.writeReg.filter fun x => x.1 = fd).map Prod.snd

/-- The task nodes of the WRITE events that `remove_client` makes the kqueue forget. -/
def removed (c : Conns) (fd : Fd) : List Addr :=
  if (c.clients.search fd).isSome then c.writesOf fd else []

lemma filter_refs (c : Conns) (fd : Fd) :
    (((c.writeReg.filter fun x => x.1 ≠ fd).map Prod.snd : List Addr) : Multiset Addr) +
      (c.writesOf fd : Multiset Addr) = c.refs := by
  have hsplit := Multiset.filter_add_not (fun x : Fd × Addr => x.1 ≠ fd) (c.writeReg : Multiset (Fd × Addr))
  have hmap := congrArg (Multiset.map Prod.snd) hsplit
  simpa [Conns.refs, writesOf, Multiset.map_add] using hmap

lemma connClose_refs_add (c : Conns) (fd : Fd) :
    (c.connClose fd).refs + (c.writesOf fd : Multiset Addr) = c.refs := c.filter_refs fd

lemma removeClient_refs_add (c : Conns) (fd : Fd) :
    (c.removeClient fd).refs + (c.removed fd : Multiset Addr) = c.refs := by
  rcases c.removeClient_cases fd with ⟨hsearch, h⟩ | ⟨node, hsearch, h⟩
  · rw [h, removed, hsearch]
    exact add_zero _
  · rw [h, removed, hsearch]
    exact c.connClose_refs_add fd

/-- What was registered for the descriptor is replaced. -/
lemma addWrite_refs_add (c : Conns) (fd : Fd) (t : Addr) :
    (c.addWrite fd t).refs + (c.writesOf fd : Multiset Addr) = t ::ₘ c.refs := by
  rw [← c.filter_refs fd, ← Multiset.cons_add]
  rfl

/-- `kevent` hands over all references of the WRITE events that it returns. -/
lemma fetch_refs_add {c : Conns} (hc : c.Registered) {lnFd : Fd} {es : List KEvent}
    (h : c.batch lnFd es = true) : writes es + (c.fetch es).refs = c.refs := by
  simp only [batch, Bool.and_eq_true, decide_eq_true_eq, List.all_eq_true] at h
  obtain ⟨⟨-, hnd⟩, hreg⟩ := h
  have hpairs : (pairs es : Multiset (Fd × Addr)) =
      Multiset.filter (fun x => KEvent.write x.1 x.2 ∈ es) c.writeReg := by
    have hfilter : (Multiset.filter (fun x => KEvent.write x.1 x.2 ∈ es)
        (c.writeReg : Multiset (Fd × Addr))).Nodup :=
      Multiset.Nodup.filter _ (Multiset.coe_nodup.mpr (List.Nodup.of_map _ hc.writeOnce))
    refine (Multiset.Nodup.ext (Multiset.coe_nodup.mpr (nodup_pairs hnd)) hfilter).mpr fun x => ?_
    rw [Multiset.mem_coe, mem_pairs, Multiset.mem_filter, Multiset.mem_coe]
    refine ⟨fun hmem => ⟨?_, hmem⟩, And.right⟩
    have hx := hreg _ hmem
    simpa using hx
  have hfetch : ((c.fetch es).writeReg : Multiset (Fd × Addr)) =
      Multiset.filter (fun x => KEvent.write x.1 x.2 ∉ es) c.writeReg := by
    simp [fetch]
  have hsplit := Multiset.filter_add_not (fun x => KEvent.write x.1 x.2 ∈ es)
    (c.writeReg : Multiset (Fd × Addr))
  rw [← hpairs, ← hfetch] at hsplit
  have hmap := congrArg (Multiset.map Prod.snd) hsplit
  rw [Multiset.map_add] at hmap
  rw [writes_eq]
  exact hmap

/-- A connection that was just accepted has no WRITE event. -/
lemma acceptClient_refs_eq {c : Conns} (hc : c.Registered) {fd : Fd} (hfree : c.fds fd = none)
    (nonblock registered : Bool) : (c.acceptClient fd nonblock registered).refs = c.refs := by
  obtain ⟨-, hwrite⟩ := hc.filter_eq hfree
  have hsame : (c.acceptClient fd nonblock registered).writeReg = c.writeReg := by
    rcases c.acceptClient_cases fd nonblock registered with ⟨-, h⟩ | ⟨-, -, h⟩ | ⟨-, -, h⟩
    · rw [h]
      exact hwrite
    · rw [h]
      rfl
    · rw [h]
      exact hwrite
  rw [Conns.refs, hsame, Conns.refs]

end Conns

/-- The request in the task node is refused with 400. -/
def ThreadNode.refused {W : Type} (app : App W) (node : ThreadNode) : Bool :=
  node.buffer.data.isNone || match node.buffer.bytes >>= parseHttpRequest app.llhttp with
    | .ok (ok, _) => ok == 1
    | .error _ => false

namespace Server

variable {n : ℕ} {W : Type}

/-! ### What is dropped -/

/-- The task nodes that a step of the loop drops: `push_task` refuses, a registration fails or
replaces another one, the client is given up, or the descriptor is closed. -/
def loopDrops (s : Server n W) (a : LoopStep n) : List Addr :=
  match s.loop, a with
  | .events (.read ident _ true :: _), .next _ => s.conns.removed ident
  | .reading _ client _ _, .recv .closed => s.conns.removed client.fd
  | .handing _ t, .push mem ws =>
    if (s.pool.pushTask (some .handleConn) (some t) mem ws).any Prod.fst then [] else [t]
  | .writing _ t totalSend, .send r registered =>
    match s.tnodes t with
    | none => []
    | some node =>
      match writePass (node.completeResp.getD []).length totalSend r with
      | some .register => if registered then s.conns.writesOf node.client.fd else [t]
      | some .remove => t :: s.conns.removed node.client.fd
      | _ => []
  | .writing _ t _, .done =>
    match s.tnodes t with
    | none => []
    | some node => s.conns.removed node.client.fd
  | .freeList, .close => s.conns.writeReg.map Prod.snd
  | _, _ => []

/-- Those that a step of a worker drops: the request is refused, or a registration fails or replaces
another one. -/
def workerDrops (app : App W) (s : Server n W) (i : Fin n) (a : WorkerStep W) : List Addr :=
  match s.handling i, a with
  | .entered t, .parse => if (s.tnodes t).any (ThreadNode.refused app) then [t] else []
  | .register t client, .register ok => if ok then s.conns.writesOf client.fd else [t]
  | _, _ => []

def drops (app : App W) (s : Server n W) : Label n W → List Addr
  | .signal => []
  | .loop a => s.loopDrops a
  | .worker i a => s.workerDrops app i a

attribute [local simp] loopDrops workerDrops

/-- What is made in the step is referred to, freed or dropped, as is what was referred to before. -/
def Balanced (s s' : Server n W) (dropped : List Addr) : Prop :=
  s'.refs + (dropped : Multiset Addr) + (s'.history.freed : Multiset Addr) +
      Multiset.range s.nextTnode =
    s.refs + (s.history.freed : Multiset Addr) + Multiset.range s'.nextTnode

lemma balanced_of_refs {s s' : Server n W} {dropped : List Addr}
    (hrefs : s'.refs + (dropped : Multiset Addr) = s.refs) (hnext : s'.nextTnode = s.nextTnode)
    (hfreed : s'.history.freed = s.history.freed) : Balanced s s' dropped := by
  rw [Balanced, hrefs, hnext, hfreed]

/-- Only the loop and the kqueue change. -/
lemma balanced_of_loop {s s' : Server n W} {dropped : List Addr}
    (hrefs : s'.loop.refs + s'.conns.refs + (dropped : Multiset Addr) = s.loop.refs + s.conns.refs)
    (hpool : s'.pool = s.pool) (hhandling : s'.handling = s.handling)
    (hnext : s'.nextTnode = s.nextTnode) (hfreed : s'.history.freed = s.history.freed) :
    Balanced s s' dropped := by
  refine balanced_of_refs ?_ hnext hfreed
  calc s'.loop.refs + s'.pool.refs + total HandlePoint.refs s'.handling + s'.conns.refs +
        (dropped : Multiset Addr)
      = s'.pool.refs + total HandlePoint.refs s'.handling +
          (s'.loop.refs + s'.conns.refs + (dropped : Multiset Addr)) := by abel
    _ = s.pool.refs + total HandlePoint.refs s.handling + (s.loop.refs + s.conns.refs) := by
        rw [hrefs, hpool, hhandling]
    _ = s.refs := by
        rw [Server.refs]
        abel

/-- A worker goes on, and the rest of the references changes with it. -/
lemma balanced_of_handling {s s' : Server n W} {dropped : List Addr} {i : Fin n} {p : HandlePoint}
    (hhandling : s'.handling = Function.update s.handling i p)
    (hrefs : s'.pool.refs + p.refs + s'.conns.refs + (dropped : Multiset Addr) =
      s.pool.refs + (s.handling i).refs + s.conns.refs)
    (hloop : s'.loop = s.loop) (hnext : s'.nextTnode = s.nextTnode)
    (hfreed : s'.history.freed = s.history.freed) : Balanced s s' dropped := by
  refine balanced_of_refs (add_right_cancel (b := (s.handling i).refs) ?_) hnext hfreed
  have hupdate := total_update HandlePoint.refs s.handling i p
  calc s'.loop.refs + s'.pool.refs + total HandlePoint.refs s'.handling + s'.conns.refs +
        (dropped : Multiset Addr) + (s.handling i).refs
      = s.loop.refs + s'.pool.refs + s'.conns.refs + (dropped : Multiset Addr) +
          (total HandlePoint.refs (Function.update s.handling i p) + (s.handling i).refs) := by
        rw [hloop, hhandling]
        abel
    _ = s.loop.refs + total HandlePoint.refs s.handling +
          (s'.pool.refs + p.refs + s'.conns.refs + (dropped : Multiset Addr)) := by
        rw [hupdate]
        abel
    _ = s.refs + (s.handling i).refs := by
        rw [hrefs, Server.refs]
        abel

/-! ### Steps -/

lemma nextEvent_balanced {app : App W} {s : Server n W} {es : List KEvent} (hloop : s.loop = .events es)
    (mem : Bool) : Balanced s (s.nextEvent app mem es) (s.loopDrops (.next mem)) := by
  have hsame : s.loopDrops (.next mem : LoopStep n) = [] → ∀ p : LoopPoint, p.refs = s.loop.refs →
      Balanced s { s with loop := p } (s.loopDrops (.next mem)) := by
    intro hdrops p hp
    refine balanced_of_loop ?_ rfl rfl rfl rfl
    rw [hdrops, ← hp, Multiset.coe_nil, add_zero]
  have hfail : s.loopDrops (.next mem : LoopStep n) = [] → ∀ f,
      Balanced s (s.fail f) (s.loopDrops (.next mem)) := by
    intro hdrops f
    exact hsame hdrops s.loop rfl
  cases es with
  | nil => exact hsame (by simp [hloop]) .test (by simp [hloop, LoopPoint.refs])
  | cons e es =>
    cases e with
    | write ident t =>
      have hdrops : s.loopDrops (.next mem : LoopStep n) = [] := by simp [hloop]
      rw [nextEvent]
      split
      · exact hfail hdrops _
      · exact hsame hdrops _ (by simp [hloop, LoopPoint.refs])
    | read ident udata eof =>
      cases eof with
      | true =>
        have hdrops : s.loopDrops (.next mem : LoopStep n) = s.conns.removed ident := by
          simp [hloop]
        refine balanced_of_loop ?_ rfl rfl rfl rfl
        rw [hdrops, hloop]
        exact (add_assoc _ _ _).trans (congrArg _ (s.conns.removeClient_refs_add ident))
      | false =>
        have hdrops : s.loopDrops (.next mem : LoopStep n) = [] := by simp [hloop]
        simp only [nextEvent, Bool.false_eq_true, if_false]
        split_ifs with hln
        · exact hsame hdrops _ (by simp [hloop, LoopPoint.refs])
        · split
          · exact hfail hdrops _
          · split
            · exact hfail hdrops _
            · split
              · exact hfail hdrops _
              · exact hsame hdrops _ (by simp [hloop, LoopPoint.refs])

lemma recv_balanced {s s' : Server n W} {es : List KEvent} {client : Client} {buf : StringT}
    {chunks : List Bytes} {r : RecvResult} (hloop : s.loop = .reading es client buf chunks)
    (h : s.recv es client buf chunks r = some s') : Balanced s s' (s.loopDrops (.recv r)) := by
  cases r with
  | failed =>
    cases h
    refine balanced_of_loop ?_ rfl rfl rfl rfl
    simp [hloop, LoopPoint.refs]
  | again =>
    obtain ⟨c, -, rfl⟩ := Option.map_eq_some_iff.mp h
    refine balanced_of_loop ?_ rfl rfl rfl rfl
    simp [hloop, LoopPoint.refs]
  | closed =>
    have hdrops : s.loopDrops (.recv .closed : LoopStep n) = s.conns.removed client.fd := by
      simp [hloop]
    simp only [recv] at h
    split_ifs at h
    cases h
    refine balanced_of_loop ?_ rfl rfl rfl rfl
    rw [hdrops, hloop]
    exact (add_assoc _ _ _).trans (congrArg _ (s.conns.removeClient_refs_add client.fd))
  | data chunk mem =>
    have hdrops : s.loopDrops (.recv (.data chunk mem) : LoopStep n) = [] := by simp [hloop]
    rw [hdrops]
    simp only [recv] at h
    split_ifs at h
    split at h <;> cases h <;> refine balanced_of_loop ?_ rfl rfl rfl rfl
    · simp [fail]
    · simp [hloop, LoopPoint.refs]
    · simp [hloop, LoopPoint.refs]

lemma build_balanced {s : Server n W} {es : List KEvent} {client : Client} {buf : StringT}
    {chunks : List Bytes} {conn : ConnId} (hloop : s.loop = .building es client buf chunks conn)
    (memTnode memBuffer memReq memResp : Bool) :
    Balanced s (s.build es client buf chunks conn memTnode memBuffer memReq memResp)
      (s.loopDrops (.build memTnode memBuffer memReq memResp)) := by
  have hdrops : s.loopDrops (.build memTnode memBuffer memReq memResp : LoopStep n) = [] := by
    simp [hloop]
  have hleave : Balanced s { s with loop := .events es } [] := by
    refine balanced_of_loop ?_ rfl rfl rfl rfl
    simp [hloop, LoopPoint.refs]
  rw [hdrops, build]
  split_ifs
  · exact hleave
  · split
    · exact balanced_of_loop (by simp [fail]) rfl rfl rfl rfl
    · split_ifs
      · exact hleave
      · simp only [Balanced, Server.refs, hloop, LoopPoint.refs, Multiset.range_succ, Multiset.coe_nil,
          add_zero, ← Multiset.singleton_add]
        abel

lemma push_balanced {s : Server n W} {es : List KEvent} {t : Addr} {mem : Bool} {ws : List (Fin n)}
    {r : Bool × Pool n TaskFunc Addr} (hloop : s.loop = .handing es t)
    (h : s.pool.pushTask (some .handleConn) (some t) mem ws = some r) :
    Balanced s { s with pool := r.2, loop := .events es } (s.loopDrops (.push mem ws)) := by
  refine balanced_of_refs ?_ rfl rfl
  have hpool : r.2.refs + (s.loopDrops (.push mem ws : LoopStep n) : Multiset Addr) =
      t ::ₘ s.pool.refs := by
    obtain ⟨ok, p'⟩ := r
    rcases Pool.pushTask_cases h with ⟨rfl, rfl⟩ | ⟨rfl, f, a, q, -, ha, hq, -, -, rfl⟩
    · simp only [loopDrops, hloop, h, Option.any_some, Bool.false_eq_true, if_false,
        Multiset.coe_singleton]
      rw [add_comm, Multiset.singleton_add]
      rfl
    · cases ha
      simp [hloop, h, Pool.refs, hq]
  calc writes es + r.2.refs + total HandlePoint.refs s.handling + s.conns.refs +
        (s.loopDrops (.push mem ws : LoopStep n) : Multiset Addr)
      = writes es + total HandlePoint.refs s.handling + s.conns.refs +
          (r.2.refs + (s.loopDrops (.push mem ws : LoopStep n) : Multiset Addr)) := by abel
    _ = s.refs := by
        rw [hpool, Server.refs, hloop, LoopPoint.refs, ← Multiset.singleton_add, ← Multiset.singleton_add]
        abel

lemma send_balanced {s s' : Server n W} {es : List KEvent} {t : Addr} {node : ThreadNode} {resp : Bytes}
    {totalSend : ℕ} {r : SendResult} {registered : Bool} (hloop : s.loop = .writing es t totalSend)
    (hnode : s.tnodes t = some node) (hresp : node.completeResp = some resp)
    (h : s.send es t node resp totalSend r registered = some s') :
    Balanced s s' (s.loopDrops (.send r registered)) := by
  have hdrops : s.loopDrops (.send r registered : LoopStep n) =
      match writePass resp.length totalSend r with
      | some .register => if registered then s.conns.writesOf node.client.fd else [t]
      | some .remove => t :: s.conns.removed node.client.fd
      | _ => [] := by
    simp [hloop, hnode, hresp]
  simp only [send] at h
  split at h
  · rename_i total c hpass hc
    cases h
    refine balanced_of_loop ?_ rfl rfl rfl rfl
    rw [hdrops, hpass, hloop]
    exact add_zero _
  · rename_i c hpass hc
    cases h
    refine balanced_of_loop ?_ rfl rfl rfl rfl
    have hadd := s.conns.addWrite_refs_add node.client.fd t
    rw [hdrops, hpass, hloop]
    cases registered with
    | true =>
      calc writes es + (s.conns.addWrite node.client.fd t).refs +
            (s.conns.writesOf node.client.fd : Multiset Addr)
          = writes es + t ::ₘ s.conns.refs := by rw [add_assoc, hadd]
        _ = t ::ₘ writes es + s.conns.refs := by rw [Multiset.add_cons, Multiset.cons_add]
    | false =>
      have hcons : writes es + s.conns.refs + {t} = t ::ₘ writes es + s.conns.refs := by
        rw [add_comm, Multiset.singleton_add, Multiset.cons_add]
      exact hcons
  · rename_i hpass
    cases h
    refine balanced_of_loop ?_ rfl rfl rfl rfl
    have hremove := s.conns.removeClient_refs_add node.client.fd
    rw [hdrops, hpass, hloop]
    calc writes es + (s.conns.removeClient node.client.fd).refs +
          (t :: s.conns.removed node.client.fd : List Addr)
        = writes es + t ::ₘ ((s.conns.removeClient node.client.fd).refs +
            (s.conns.removed node.client.fd : Multiset Addr)) := by
          rw [← Multiset.cons_coe, add_assoc, Multiset.add_cons]
      _ = t ::ₘ writes es + s.conns.refs := by
          rw [hremove, Multiset.add_cons, Multiset.cons_add]
  · cases h

lemma done_balanced {s : Server n W} {es : List KEvent} {t : Addr} {node : ThreadNode} {totalSend : ℕ}
    (hloop : s.loop = .writing es t totalSend) (hnode : s.tnodes t = some node) :
    Balanced s (s.done es t node) (s.loopDrops .done) := by
  have hdrops : s.loopDrops (.done : LoopStep n) = s.conns.removed node.client.fd := by
    simp [hloop, hnode]
  have hremove := s.conns.removeClient_refs_add node.client.fd
  rw [hdrops]
  simp only [Balanced, done, removeFor, Server.refs, hloop, LoopPoint.refs, ← Multiset.coe_add,
    Multiset.coe_singleton, ← Multiset.singleton_add]
  rw [← hremove]
  abel

lemma loopStep_balanced {app : App W} {s s' : Server n W} {a : LoopStep n} (hreach : Reachable app s)
    (h : s.loopStep app a = some s') : Balanced s s' (s.loopDrops a) := by
  obtain ⟨hreg, -⟩ := hreach.connsRight
  cases a with
  | listen ok =>
    simp only [loopStep] at h
    split at h <;> cases h
    rename_i hloop
    refine balanced_of_loop ?_ rfl rfl rfl rfl
    cases ok <;> simp [hloop, LoopPoint.refs]
  | test =>
    simp only [loopStep] at h
    split at h <;> cases h
    rename_i hloop
    refine balanced_of_loop ?_ rfl rfl rfl rfl
    cases hsignal : s.shutdownSignal <;> simp [hloop, LoopPoint.refs]
  | poll r =>
    simp only [loopStep] at h
    split at h
    · rename_i hloop
      cases h
      refine balanced_of_loop ?_ rfl rfl rfl rfl
      simp [hloop, LoopPoint.refs]
    · rename_i hloop
      cases h
      refine balanced_of_loop ?_ rfl rfl rfl rfl
      simp [hloop, LoopPoint.refs]
    · rename_i es hloop
      split_ifs at h with hes
      cases h
      refine balanced_of_loop ?_ rfl rfl rfl rfl
      simp [hloop, LoopPoint.refs, Conns.fetch_refs_add hreg hes]
    · cases h
  | next mem =>
    simp only [loopStep] at h
    split at h
    · rename_i es hloop
      cases h
      exact nextEvent_balanced hloop mem
    · cases h
  | accept r =>
    simp only [loopStep] at h
    split at h
    · rename_i es hloop
      cases h
      refine balanced_of_loop ?_ rfl rfl rfl rfl
      simp [hloop, LoopPoint.refs]
    · rename_i es fd nonblock mem registered hloop
      split_ifs at h with hfree
      cases h
      simp only [Bool.and_eq_true, Option.isNone_iff_eq_none] at hfree
      have hdrops : s.loopDrops (.accept (.conn fd nonblock mem registered) : LoopStep n) = [] := by
        simp [hloop]
      rw [hdrops, acceptClient]
      split_ifs
      · exact balanced_of_loop (by simp [fail]) rfl rfl rfl rfl
      · refine balanced_of_loop ?_ rfl rfl rfl rfl
        simp [Conns.acceptClient_refs_eq hreg hfree.1]
    · cases h
  | recv r =>
    simp only [loopStep] at h
    split at h
    · rename_i es client buf chunks hloop
      exact recv_balanced hloop h
    · cases h
  | build memTnode memBuffer memReq memResp =>
    simp only [loopStep] at h
    split at h
    · rename_i es client buf chunks conn hloop
      cases h
      exact build_balanced hloop _ _ _ _
    · cases h
  | push mem ws =>
    simp only [loopStep] at h
    split at h
    · rename_i es t hloop
      obtain ⟨r, hr, rfl⟩ := Option.map_eq_some_iff.mp h
      exact push_balanced hloop hr
    · cases h
  | send r registered =>
    simp only [loopStep] at h
    split at h
    · rename_i es t total hloop
      obtain ⟨node, resp, hnode, hresp⟩ := hreach.filled (t := t)
        (mem_outgoing.mpr (.inl (.inr (by simp [hloop, LoopPoint.current]))))
      simp only [hnode, hresp] at h
      split_ifs at h
      exact send_balanced hloop hnode hresp h
    · cases h
  | done =>
    simp only [loopStep] at h
    split at h
    · rename_i es t total hloop
      obtain ⟨node, resp, hnode, hresp⟩ := hreach.filled (t := t)
        (mem_outgoing.mpr (.inl (.inr (by simp [hloop, LoopPoint.current]))))
      simp only [hnode, hresp] at h
      split_ifs at h
      cases h
      exact done_balanced hloop hnode
    · cases h
  | close =>
    simp only [loopStep] at h
    split at h
    · rename_i hloop
      cases h
      refine balanced_of_loop ?_ rfl rfl rfl rfl
      simp [hloop, LoopPoint.refs]
    · rename_i hloop
      cases h
      refine balanced_of_loop ?_ rfl rfl rfl rfl
      simp [hloop, LoopPoint.refs]
    · rename_i hloop
      cases h
      refine balanced_of_refs ?_ rfl rfl
      simp [hloop, LoopPoint.refs, Server.refs, Pool.refs, Pool.destroy]
    · rename_i hloop
      split_ifs at h
      cases h
      refine balanced_of_loop ?_ rfl rfl rfl rfl
      simp [hloop, LoopPoint.refs]
    · rename_i hloop
      cases h
      refine balanced_of_loop ?_ rfl rfl rfl rfl
      obtain ⟨-, -, hwrite⟩ := hreg.freeList
      simp [hloop, LoopPoint.refs, Conns.refs, hwrite]
    · cases h

lemma parse_balanced {app : App W} {s : Server n W} {i : Fin n} {t : Addr}
    (hi : s.handling i = .entered t) : Balanced s (s.parse app i t) (s.workerDrops app i .parse) := by
  have hfail : ∀ f, Balanced s (s.fail f) [] := by
    intro f
    exact balanced_of_loop (by simp [fail]) rfl rfl rfl rfl
  have hkeep : ∀ p : HandlePoint, p.refs = {t} → Balanced s (s.setHandling i p) [] := by
    intro p hp
    refine balanced_of_handling (i := i) (p := p) rfl ?_ rfl rfl rfl
    rw [hp, hi]
    exact add_zero _
  have hrefuse : Balanced s (s.setHandling i .away) [t] := by
    refine balanced_of_handling (i := i) (p := .away) rfl ?_ rfl rfl rfl
    simp only [setHandling, hi, HandlePoint.refs, Multiset.coe_singleton]
    abel
  have hdrops : s.workerDrops app i .parse =
      if (s.tnodes t).any (ThreadNode.refused app) then [t] else [] := by
    simp [hi]
  rw [hdrops]
  cases hnode : s.tnodes t with
  | none => simpa [parse, hnode] using hfail _
  | some node =>
    have hany : (some node).any (ThreadNode.refused app) = node.refused app := rfl
    rw [hany, ThreadNode.refused, parse, hnode]
    simp only
    by_cases hdata : node.buffer.data.isNone = true
    · rw [if_pos hdata, hdata]
      exact hrefuse
    · rw [if_neg hdata, Bool.eq_false_of_not_eq_true hdata, Bool.false_or]
      rcases node.buffer.bytes >>= parseHttpRequest app.llhttp with u | ⟨ok, req⟩
      · exact hfail _
      · by_cases hok : ok = 1
        · simp only [hok, if_true, beq_self_eq_true]
          exact hrefuse
        · simp only [hok, if_false, beq_iff_eq]
          split
          · exact hfail _
          · exact hkeep _ rfl
          · exact hkeep _ rfl

lemma workerStep_balanced {app : App W} {s s' : Server n W} {i : Fin n} {a : WorkerStep W}
    (hreach : Reachable app s) (h : s.workerStep app i a = some s') :
    Balanced s s' (s.workerDrops app i a) := by
  have hnone : a ≠ .parse → (∀ ok, a ≠ .register ok) → s.workerDrops app i a = [] := by
    intro hparse hregister
    cases a <;> cases hi : s.handling i <;> simp_all
  cases a with
  | enter =>
    obtain ⟨p, hp, rfl⟩ := Option.map_eq_some_iff.mp h
    rw [hnone (by simp) (by simp)]
    have haway : s.handling i = .away := hreach.busy.away (Pool.step_enter hp).1
    refine balanced_of_handling (i := i) (p := HandlePoint.ofWorker (p.thread i)) rfl ?_ rfl rfl rfl
    have hmove := Pool.refs_of_enter hp
    rw [haway, ← hmove]
    simp [HandlePoint.refs, setHandling]
  | wake =>
    obtain ⟨p, hp, rfl⟩ := Option.map_eq_some_iff.mp h
    rw [hnone (by simp) (by simp)]
    refine balanced_of_refs ?_ rfl rfl
    simp [Server.refs, Pool.refs_of_wake hp]
  | parse =>
    simp only [workerStep] at h
    split at h
    · rename_i t hi
      cases h
      exact parse_balanced hi
    · cases h
  | lookup =>
    rw [hnone (by simp) (by simp)]
    simp only [workerStep] at h
    split at h
    · rename_i t client req hi
      split_ifs at h <;> cases h
      · refine balanced_of_handling (i := i) rfl ?_ rfl rfl rfl
        simp [setHandling, hi, HandlePoint.refs]
      · exact balanced_of_loop (by simp [fail]) rfl rfl rfl rfl
    · cases h
  | generate w =>
    rw [hnone (by simp) (by simp)]
    simp only [workerStep] at h
    split at h
    · rename_i t client req hi
      cases h
      rw [generate]
      split
      · exact balanced_of_loop (by simp [fail]) rfl rfl rfl rfl
      · refine balanced_of_handling (i := i) rfl ?_ rfl rfl rfl
        simp [setHandling, hi, HandlePoint.refs]
    · cases h
  | register ok =>
    simp only [workerStep] at h
    split at h
    · rename_i t client hi
      have hdrops : s.workerDrops app i (.register ok) =
          if ok then s.conns.writesOf client.fd else [t] := by
        simp [hi]
      rw [hdrops]
      split_ifs at h with hok hopen
      · cases h
        refine balanced_of_handling (i := i) (p := .away) rfl ?_ rfl rfl rfl
        have hadd := s.conns.addWrite_refs_add client.fd t
        rw [if_pos hok, hi]
        simp only [HandlePoint.refs, setHandling, add_zero, add_assoc, hadd, Multiset.singleton_add]
      · cases h
        refine balanced_of_handling (i := i) (p := .away) rfl ?_ rfl rfl rfl
        rw [if_neg hok, hi]
        simp only [HandlePoint.refs, setHandling, Multiset.coe_singleton]
        abel
    · cases h
  | finish =>
    rw [hnone (by simp) (by simp)]
    simp only [workerStep] at h
    split at h
    · obtain ⟨p, hp, rfl⟩ := Option.map_eq_some_iff.mp h
      refine balanced_of_refs ?_ rfl rfl
      simp [Server.refs, Pool.refs_of_finish hp]
    · cases h

lemma Reachable.step_balanced {app : App W} {s s' : Server n W} {l : Label n W}
    (hreach : Reachable app s) (h : s.step app l = some s') : Balanced s s' (s.drops app l) := by
  unfold step at h
  split_ifs at h
  cases l with
  | signal =>
    cases h
    exact balanced_of_loop (by simp [drops]) rfl rfl rfl rfl
  | loop a => exact loopStep_balanced hreach h
  | worker i a => exact workerStep_balanced hreach h

/-! ### Runs -/

/-- The task nodes that are dropped along a run. -/
def dropped (app : App W) (ls : List (Label n W)) : List Addr :=
  observed (step app) (fun s l _ => s.drops app l) (init n W) ls

/-- The references, the freed nodes and the dropped ones are the nodes that were made. -/
lemma refs_freed_dropped {app : App W} {ls : List (Label n W)} {s : Server n W}
    (h : run (step app) (init n W) ls = some s) :
    s.refs + (s.history.freed : Multiset Addr) + (dropped app ls : Multiset Addr) =
      Multiset.range s.nextTnode := by
  have hstart : Reachable app (init n W) ∧ (init n W).refs + ((init n W).history.freed : Multiset Addr) +
      (([] : List Addr) : Multiset Addr) = Multiset.range (init n W).nextTnode := by
    refine ⟨Reaches.refl _, ?_⟩
    simp [init, Server.refs, LoopPoint.refs, Pool.refs, Pool.create, Conns.refs, Conns.init, total,
      HandlePoint.refs]
  refine (observed_invariant (f := fun (s : Server n W) l _ => s.drops app l)
    (P := fun seen s => Reachable app s ∧ s.refs + (s.history.freed : Multiset Addr) +
      (seen : Multiset Addr) = Multiset.range s.nextTnode) ?_ h hstart).2
  rintro seen s l s' ⟨hreach, hs⟩ hstep
  refine ⟨hreach.trans (Reaches.of_step hstep), ?_⟩
  have hbalanced := hreach.step_balanced hstep
  rw [Balanced, ← hs] at hbalanced
  refine add_left_cancel (a := s.refs + (s.history.freed : Multiset Addr)) ?_
  rw [← hbalanced, ← Multiset.coe_add]
  abel

/-- A task node that was made and not freed is allocated. -/
lemma Reachable.kept {app : App W} {s : Server n W} (h : Reachable app s) {t : Addr}
    (ht : t < s.nextTnode) (hfreed : t ∉ s.history.freed) : (s.tnodes t).isSome := by
  refine h.invariant (P := fun s => ∀ t < s.nextTnode, t ∉ s.history.freed → (s.tnodes t).isSome)
    ?_ ?_ t ht hfreed
  · intro t ht
    exact absurd ht (Nat.not_lt_zero t)
  · intro s l s' _ hs hrule t ht hfreed
    cases hrule.hands with
    | pass hrefs htnodes hnext hfreed' =>
      rw [hnext] at ht
      rw [hfreed'] at hfreed
      have hsame := congrArg Option.isSome (htnodes t)
      rw [Option.isSome_map, Option.isSome_map] at hsame
      rw [hsame]
      exact hs t ht hfreed
    | alloc node hrefs htnodes hnext hfreed' =>
      rw [hfreed'] at hfreed
      by_cases hnew : t = s.nextTnode
      · rw [htnodes, hnew, Function.update_self]
        rfl
      · rw [htnodes, Function.update_of_ne hnew]
        rw [hnext] at ht
        exact hs t (Nat.lt_of_le_of_ne (Nat.le_of_lt_succ ht) hnew) hfreed
    | free u hrefs htnodes hnext hfreed' =>
      rw [hfreed', List.mem_append, List.mem_singleton, not_or] at hfreed
      rw [htnodes, Function.update_of_ne hfreed.2]
      rw [hnext] at ht
      exact hs t ht hfreed.1

/-- In all runs, each task node that was made is at one of three places, and at one only: it is
referred to once, it was freed once, or it was dropped once. What was dropped is never freed. -/
theorem ledger {app : App W} {ls : List (Label n W)} {s : Server n W}
    (h : run (step app) (init n W) ls = some s) :
    (s.refs + (s.history.freed : Multiset Addr) + (dropped app ls : Multiset Addr)).Nodup ∧
      (∀ t, t < s.nextTnode ↔ t ∈ s.refs ∨ t ∈ s.history.freed ∨ t ∈ dropped app ls) ∧
      ∀ t, (s.tnodes t).isSome ↔ t ∈ s.refs ∨ t ∈ dropped app ls := by
  have hsum := refs_freed_dropped h
  have howned := @Reachable.owned _ _ app _ ⟨ls, h⟩
  have hmem : ∀ t, t < s.nextTnode ↔ t ∈ s.refs ∨ t ∈ s.history.freed ∨ t ∈ dropped app ls := by
    intro t
    rw [← Multiset.mem_range, ← hsum, Multiset.mem_add, Multiset.mem_add, Multiset.mem_coe,
      Multiset.mem_coe, or_assoc]
  have hnodup : (s.refs + (s.history.freed : Multiset Addr) +
      (dropped app ls : Multiset Addr)).Nodup := by
    rw [hsum]
    exact Multiset.nodup_range _
  refine ⟨hnodup, hmem, fun t => ⟨fun hsome => ?_, ?_⟩⟩
  · rcases (hmem t).mp (howned.lt t hsome) with href | hfreed | hdropped
    · exact .inl href
    · rw [howned.freed_none t hfreed] at hsome
      cases hsome
    · exact .inr hdropped
  · rintro (href | hdropped)
    · exact howned.live t href
    · refine @Reachable.kept _ _ app _ ⟨ls, h⟩ t ((hmem t).mpr (.inr (.inr hdropped))) fun hfreed => ?_
      exact Multiset.disjoint_left.mp (Multiset.nodup_add.mp hnodup).2.2
        (Multiset.mem_add.mpr (.inr hfreed)) hdropped

/-- A client is answered; the request of another one is refused, and its task node dropped. -/
theorem ledger_refused :
    ∃ (s : Server 1 Unit) (ls : List (Label 1 Unit)), run (step Demo.app) (init 1 Unit) ls = some s ∧
      s.nextTnode = 2 ∧ s.history.freed = [0] ∧ dropped Demo.app ls = [1] ∧
      (s.refs + (s.history.freed : Multiset Addr) + (dropped Demo.app ls : Multiset Addr)).Nodup ∧
      (s.tnodes 1).isSome := by
  let ls : List (Label 1 Unit) := Demo.start ++ Demo.poll [.read 3 none false] ++ Demo.accept 5 ++
    Demo.next ++ Demo.poll [.read 5 (some 0) false, .read 3 none false] ++ Demo.read Demo.request ++
    Demo.accept 6 ++ Demo.next ++ Demo.answer ++ Demo.register ++
    Demo.poll [.write 5 0, .read 6 (some 1) false] ++ Demo.write 20 ++ Demo.read [65] ++
    Demo.parse
  have hrun : ((run (step Demo.app) (init 1 Unit) ls).map fun s =>
      (s.nextTnode, s.history.freed, dropped Demo.app ls)) = some (2, [0], [1]) := by
    decide +kernel
  obtain ⟨s, hs, heq⟩ := Option.map_eq_some_iff.mp hrun
  simp only [Prod.mk.injEq] at heq
  obtain ⟨hnext, hfreed, hdropped⟩ := heq
  obtain ⟨hnodup, -, hkept⟩ := ledger hs
  exact ⟨s, ls, hs, hnext, hfreed, hdropped, hnodup, (hkept 1).mpr (.inr (by simp [hdropped]))⟩

/-! ### When the server has returned -/

/-- When `serve_and_listen` has returned, with one thread or more, nothing refers to a task node. -/
lemma refs_of_returned (hn : 1 ≤ n) {app : App W} {s : Server n W} {list : LList}
    (h : Reachable app s) (hloop : s.loop = .returned list) : s.refs = 0 := by
  have hjoined : s.loop.joined = true := by
    rw [hloop]
    rfl
  have haway : total HandlePoint.refs s.handling = 0 := by
    refine total_eq_zero fun i => ?_
    rw [away_of_joined h hjoined i]
    rfl
  obtain ⟨hreg, hreturned⟩ := h.connsRight
  obtain ⟨-, hwrite⟩ := events_of_closed hreg (hreturned list hloop)
  rw [Server.refs, hloop, haway, Pool.refs, items_of_joined hn h hjoined, Conns.refs, hwrite]
  rfl

/-- With one thread or more, when `serve_and_listen` has returned, all task nodes are freed if and
only if no step has dropped one. -/
theorem all_freed_iff (hn : 1 ≤ n) {app : App W} {ls : List (Label n W)} {s : Server n W}
    {list : LList} (h : run (step app) (init n W) ls = some s) (hloop : s.loop = .returned list) :
    (∀ t, s.tnodes t = none) ↔ Along (step app) (fun s l => s.drops app l = []) (init n W) ls := by
  have hreach : Reachable app s := ⟨ls, h⟩
  have hsum := refs_freed_dropped h
  rw [refs_of_returned hn hreach hloop, zero_add] at hsum
  have hnodup : ((s.history.freed : Multiset Addr) + (dropped app ls : Multiset Addr)).Nodup := by
    rw [hsum]
    exact Multiset.nodup_range _
  have hmem : ∀ t, t < s.nextTnode ↔ t ∈ s.history.freed ∨ t ∈ dropped app ls := by
    intro t
    rw [← Multiset.mem_range, ← hsum, Multiset.mem_add, Multiset.mem_coe, Multiset.mem_coe]
  rw [← observed_eq_nil_iff (g := drops app) h, List.eq_nil_iff_forall_not_mem]
  constructor
  · intro hnone t hdropped
    have hsome := hreach.kept ((hmem t).mpr (.inr hdropped)) fun hfreed =>
      Multiset.disjoint_left.mp (Multiset.nodup_add.mp hnodup).2.2 hfreed hdropped
    rw [hnone t] at hsome
    cases hsome
  · intro hdropped t
    by_contra hne
    have hsome := Option.isSome_iff_ne_none.mpr hne
    rcases (hmem t).mp (hreach.owned.lt t hsome) with hfreed | hmem
    · exact hne (hreach.owned.freed_none t hfreed)
    · exact hdropped t hmem

/-- A request is answered, then the server is shut down. -/
theorem all_freed_iff_answered :
    ∃ s : Server 1 Unit, s.nextTnode = 1 ∧ s.loop matches .returned _ ∧ ∀ t, s.tnodes t = none := by
  let ls : List (Label 1 Unit) := Demo.start ++ Demo.poll [.read 3 none false] ++ Demo.accept 5 ++
    Demo.next ++ Demo.poll [.read 5 (some 0) false] ++ Demo.read Demo.request ++ Demo.next ++
    Demo.answer ++ Demo.register ++ Demo.poll [.write 5 0] ++ Demo.write 20 ++ Demo.stop ++
    Demo.join ++ Demo.freeList
  have hrun : ((run (step Demo.app) (init 1 Unit) ls).map fun s =>
      (s.nextTnode, s.loop matches .returned _)) = some (1, true) := by
    decide +kernel
  obtain ⟨s, hs, heq⟩ := Option.map_eq_some_iff.mp hrun
  rw [Prod.mk.injEq] at heq
  refine ⟨s, heq.1, heq.2, ?_⟩
  cases hpoint : s.loop with
  | returned list => exact (all_freed_iff (le_refl 1) hs hpoint).mpr (by decide +kernel)
  | _ => simp [hpoint] at heq

end Server

end Ccybe
