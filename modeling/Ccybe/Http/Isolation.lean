import Ccybe.Http.Provenance

/-!
# Responses and the connections they are sent on

A task node knows its client by the number of the descriptor. While the node is in use the client
may be closed, and `accept` may return the same number for another client; then the response is
sent to that one, and it is the one that is removed. This cannot happen as long as `accept`
returns no number that is still in use for a request to be answered or for a node of the list.
-/

namespace Ccybe

open CSem Trace Tally

/-! ### Descriptors of connections -/

namespace Conns

/-- The descriptor is that of the connection `conn` if it is open, and the nodes of the list with
this descriptor are for `conn`. -/
structure Keeps (c : Conns) (fd : Fd) (conn : ConnId) : Prop where
  fds : ∀ x, c.fds fd = some x → x = conn
  nodes : ∀ x ∈ c.clients.nodes, x.2.fd = fd → c.serial x.1 = conn

/-- Each open descriptor is kept for its connection. -/
def Listed (c : Conns) : Prop := ∀ fd conn, c.fds fd = some conn → c.Keeps fd conn

/-- Nothing is opened and nothing comes into the list. -/
structure Shrinks (c c' : Conns) : Prop where
  fds : ∀ fd conn, c'.fds fd = some conn → c.fds fd = some conn
  nodes : c'.clients.nodes ⊆ c.clients.nodes
  serial : c'.serial = c.serial

lemma Shrinks.refl (c : Conns) : Shrinks c c := ⟨fun _ _ h => h, fun _ h => h, rfl⟩

lemma Shrinks.trans {c c' c'' : Conns} (h : Shrinks c c') (h' : Shrinks c' c'') :
    Shrinks c c'' :=
  ⟨fun fd conn hfd => h.fds fd conn (h'.fds fd conn hfd), fun _ hx => h.nodes (h'.nodes hx),
    h'.serial.trans h.serial⟩

lemma shrinks_connClose (c : Conns) (fd : Fd) : Shrinks c (c.connClose fd) := by
  refine ⟨fun g conn hg => ?_, fun _ hx => hx, rfl⟩
  by_cases hgfd : g = fd
  · simp [hgfd] at hg
  · simpa [hgfd] using hg

lemma shrinks_removeClient (c : Conns) (fd : Fd) : Shrinks c (c.removeClient fd) := by
  rcases c.removeClient_cases fd with ⟨-, h⟩ | ⟨a, -, h⟩
  · rw [h]
    exact .refl c
  · rw [h]
    have hclose := c.shrinks_connClose fd
    refine ⟨hclose.fds, fun x hx => ?_, hclose.serial⟩
    rw [ClientList.nodes_remove] at hx
    exact List.mem_of_mem_filter hx

lemma shrinks_foldl_connClose (c : Conns) (fds : List Fd) : Shrinks c (fds.foldl connClose c) := by
  induction fds generalizing c with
  | nil => exact .refl c
  | cons fd fds ih => exact (c.shrinks_connClose fd).trans (ih _)

lemma shrinks_freeList (c : Conns) : Shrinks c c.freeList := by
  have h := c.shrinks_foldl_connClose c.clients.freeList.1
  exact ⟨h.fds, fun x hx => absurd hx List.not_mem_nil, h.serial⟩

lemma Keeps.shrinks {c c' : Conns} {fd : Fd} {conn : ConnId} (h : c.Keeps fd conn)
    (hc : Shrinks c c') : c'.Keeps fd conn := by
  constructor
  · intro x hx
    exact h.fds x (hc.fds fd x hx)
  · intro x hx hxfd
    rw [hc.serial]
    exact h.nodes x (hc.nodes hx) hxfd

lemma Listed.shrinks {c c' : Conns} (h : c.Listed) (hc : Shrinks c c') : c'.Listed :=
  fun fd conn hfd => (h fd conn (hc.fds fd conn hfd)).shrinks hc

/-- What is known of the list and the descriptors before a `close` at the end of
`accept_client`. -/
lemma shrinks_acceptClient (c : Conns) (fd : Fd) (nonblock registered : Bool) :
    Shrinks ((c.accept fd).insertClient fd c.accepts) (c.acceptClient fd nonblock registered) ∨
      Shrinks (c.accept fd) (c.acceptClient fd nonblock registered) := by
  rcases c.acceptClient_cases fd nonblock registered with ⟨-, h⟩ | ⟨-, -, h⟩ | ⟨-, -, h⟩
  · rw [h]
    exact .inr (shrinks_connClose _ fd)
  · rw [h]
    exact .inl ⟨fun _ _ h => h, fun _ h => h, rfl⟩
  · rw [h]
    exact .inl (shrinks_connClose _ fd)

lemma Keeps.insertClient {c : Conns} {g : Fd} {conn : ConnId} (h : c.Keeps g conn) {fd : Fd}
    (hg : g ≠ fd) : ((c.accept fd).insertClient fd c.accepts).Keeps g conn := by
  have hnodes := ClientList.nodes_insert c.clients ⟨fd⟩
  constructor
  · intro x hx
    exact h.fds x (by simpa [accept, Conns.insertClient, hg] using hx)
  · intro x hx hxg
    have hmem : x ∈ c.clients.nodes ++ [(c.clients.next, ⟨fd⟩)] := hnodes ▸ hx
    rcases List.mem_append.mp hmem with hx | hx
    · have hne : x.1 ≠ c.clients.next := (c.clients.fresh x hx).ne
      have hserial : Function.update c.serial c.clients.next c.accepts x.1 = c.serial x.1 :=
        Function.update_of_ne hne _ _
      exact hserial.trans (h.nodes x hx hxg)
    · rw [List.mem_singleton] at hx
      subst hx
      exact absurd hxg.symm hg

lemma Keeps.accept {c : Conns} {g : Fd} {conn : ConnId} (h : c.Keeps g conn) {fd : Fd}
    (hg : g ≠ fd) : (c.accept fd).Keeps g conn :=
  ⟨fun x hx => h.fds x (by simpa [Conns.accept, hg] using hx), h.nodes⟩

/-- A descriptor other than the one that `accept` returns is kept. -/
lemma Keeps.acceptClient {c : Conns} {g : Fd} {conn : ConnId} (h : c.Keeps g conn) {fd : Fd}
    (hg : g ≠ fd) (nonblock registered : Bool) :
    (c.acceptClient fd nonblock registered).Keeps g conn := by
  rcases c.shrinks_acceptClient fd nonblock registered with hc | hc
  · exact (h.insertClient hg).shrinks hc
  · exact (h.accept hg).shrinks hc

/-- A new descriptor is kept for its connection, if no node of the list has it. -/
lemma keeps_insertClient {c : Conns} {fd : Fd} (hnew : ∀ x ∈ c.clients.nodes, x.2.fd ≠ fd) :
    ((c.accept fd).insertClient fd c.accepts).Keeps fd c.accepts := by
  have hnodes := ClientList.nodes_insert c.clients ⟨fd⟩
  constructor
  · intro x hx
    simpa [accept, Conns.insertClient, eq_comm] using hx
  · intro x hx hxfd
    have hmem : x ∈ c.clients.nodes ++ [(c.clients.next, ⟨fd⟩)] := hnodes ▸ hx
    rcases List.mem_append.mp hmem with hx | hx
    · exact absurd hxfd (hnew x hx)
    · rw [List.mem_singleton] at hx
      subst hx
      exact Function.update_self _ _ _

lemma Listed.acceptClient {c : Conns} (h : c.Listed) {fd : Fd}
    (hnew : ∀ x ∈ c.clients.nodes, x.2.fd ≠ fd) (nonblock registered : Bool) :
    (c.acceptClient fd nonblock registered).Listed := by
  intro g conn hg
  have hopen : (c.accept fd).fds g = some conn := by
    rcases c.shrinks_acceptClient fd nonblock registered with hc | hc
    · exact hc.fds g conn hg
    · exact hc.fds g conn hg
  by_cases hgfd : g = fd
  · subst hgfd
    have hconn : conn = c.accepts := by simpa [accept, eq_comm] using hopen
    rw [hconn]
    have haccept : (c.accept g).Keeps g c.accepts :=
      ⟨fun x hx => by simpa [accept, eq_comm] using hx, fun x hx hxfd => absurd hxfd (hnew x hx)⟩
    rcases c.shrinks_acceptClient g nonblock registered with hc | hc
    · exact (keeps_insertClient hnew).shrinks hc
    · exact haccept.shrinks hc
  · have hkeeps := h g conn (by simpa [accept, hgfd] using hopen)
    exact hkeeps.acceptClient hgfd nonblock registered

end Conns

/-! ### Nodes in use -/

namespace Server

variable {n : ℕ} {W : Type}

/-- No node of the list has the descriptor, and no task node in use whose request is accepted. -/
def unused (app : App W) (s : Server n W) (fd : Fd) : Bool :=
  s.conns.clients.nodes.all (fun x => x.2.fd != fd) &&
    decide (∀ t ∈ s.refs, !(s.tnodes t).any fun node =>
      node.client.fd == fd && app.accepts (textOf node.chunks))

/-- `accept` does not return a descriptor that is in use. -/
def acceptsUnused (app : App W) (s : Server n W) : Label n W → Bool
  | .loop (.accept (.conn fd _ _ _)) => s.unused app fd
  | _ => true

/-- The descriptors of the task nodes in use are kept for the connections that they were read
from. -/
structure Kept (app : App W) (s : Server n W) : Prop where
  nodes : ∀ t ∈ s.refs, ∀ node, s.tnodes t = some node → app.accepts (textOf node.chunks) = true →
    s.conns.Keeps node.client.fd node.conn
  building : ∀ es client buf chunks conn, s.loop = .building es client buf chunks conn →
    s.conns.Keeps client.fd conn
  listed : s.conns.Listed

lemma kept_init (app : App W) : (init n W).Kept app where
  nodes := fun t _ node hnode => by simp [init] at hnode
  building := by simp [init]
  listed := fun fd conn hfd => by simp [init, Conns.init] at hfd

/-- A step takes away from the list and the open descriptors, or it is in `accept_client`. -/
lemma Rule.conns_cases {app : App W} {s s' : Server n W} {l : Label n W} (h : Rule app s l s') :
    Conns.Shrinks s.conns s'.conns ∨
      ∃ es fd nonblock mem registered, s.loop = .accepting es ∧
        l = .loop (.accept (.conn fd nonblock mem registered)) ∧
        s' = { s with conns := s.conns.acceptClient fd nonblock registered } := by
  cases h with
  | eof a ident udata es h => exact .inl (s.conns.shrinks_removeClient ident)
  | disconnected a es client buf chunks h => exact .inl (s.conns.shrinks_removeClient client.fd)
  | accept es fd nonblock mem registered h hfree hne hmem =>
    exact .inr ⟨es, fd, nonblock, mem, registered, h, rfl, rfl⟩
  | gaveUp es t node resp total r registered h hnode hresp hr =>
    exact .inl (s.conns.shrinks_removeClient node.client.fd)
  | done es t node resp total h hnode hresp hle =>
    exact .inl (s.conns.shrinks_removeClient node.client.fd)
  | freeList h => exact .inl s.conns.shrinks_freeList
  | again a es t node total registered h hnode =>
    cases registered with
    | false => exact .inl (.refl _)
    | true => exact .inl ⟨fun _ _ h => h, fun _ h => h, rfl⟩
  | fetch a es h hes => exact .inl ⟨fun _ _ h => h, fun _ h => h, rfl⟩
  | register i t client h hopen => exact .inl ⟨fun _ _ h => h, fun _ h => h, rfl⟩
  | _ => exact .inl (.refl _)

/-- A task node that was there before a step and is referenced after it was so before it. -/
lemma Hands.mem_refs {s s' : Server n W} (h : Hands s s') (hs : s.Owned) {t : Addr}
    (ht : t ∈ s'.refs) (hlive : (s.tnodes t).isSome) : t ∈ s.refs := by
  cases h with
  | pass hrefs => exact Multiset.mem_of_le hrefs ht
  | alloc node hrefs =>
    rw [hrefs, Multiset.mem_cons] at ht
    exact ht.resolve_left (hs.lt t hlive).ne
  | free u hrefs => exact Multiset.mem_of_le hrefs (Multiset.mem_cons_of_mem ht)

/-- The descriptors of task nodes after a step are kept as before it. -/
lemma Rule.kept_nodes {app : App W} {s s' : Server n W} {l : Label n W} (h : Rule app s l s')
    (howned : s.Owned) (hs : s.Kept app) (t : Addr) (ht : t ∈ s'.refs) (node' : ThreadNode)
    (hnode' : s'.tnodes t = some node') (haccepts : app.accepts (textOf node'.chunks) = true) :
    s.conns.Keeps node'.client.fd node'.conn := by
  rcases h.tnodes_cases hnode' with hnode | ⟨es, client, buf, chunks, conn, mem, buffer, hloop,
    -, -, rfl⟩ | ⟨node, g, hnode, -, -, -, rfl⟩
  · have hmem := h.hands.mem_refs howned ht (by rw [hnode]; rfl)
    exact hs.nodes t hmem node' hnode haccepts
  · exact hs.building es client buf chunks conn hloop
  · have hmem := h.hands.mem_refs howned ht (by rw [hnode]; rfl)
    exact hs.nodes t hmem node hnode haccepts

/-- The task node that is built after a step is that of before it, or its descriptor is open. -/
lemma Rule.kept_building {app : App W} {s s' : Server n W} {l : Label n W} (h : Rule app s l s')
    (hs : s.Kept app) {es : List KEvent} {client : Client} {buf : StringT} {chunks : List Bytes}
    {conn : ConnId} (hloop : s'.loop = .building es client buf chunks conn) :
    s.conns.Keeps client.fd conn := by
  cases h with
  | move a p hp =>
    cases hp with
    | listened ok h => cases ok <;> cases hloop
    | tested h => cases hsignal : s.shutdownSignal <;> simp [hsignal] at hloop
    | _ => cases hloop
  | drained a es client buf chunks c h hc =>
    cases hloop
    exact hs.listed _ _ hc
  | signal => exact hs.building es client buf chunks conn hloop
  | fault => exact hs.building es client buf chunks conn hloop
  | accept => exact hs.building es client buf chunks conn hloop
  | enter => exact hs.building es client buf chunks conn hloop
  | wake => exact hs.building es client buf chunks conn hloop
  | handle => exact hs.building es client buf chunks conn hloop
  | generate => exact hs.building es client buf chunks conn hloop
  | register => exact hs.building es client buf chunks conn hloop
  | finish => exact hs.building es client buf chunks conn hloop
  | _ => cases hloop

lemma Rule.kept {app : App W} {s s' : Server n W} {l : Label n W} (h : Rule app s l s')
    (hl : s.acceptsUnused app l = true) (howned : s.Owned) (hs : s.Kept app) : s'.Kept app := by
  rcases h.conns_cases with hshrinks | ⟨es, fd, nonblock, mem, registered, hloop, rfl, rfl⟩
  · constructor
    · intro t ht node hnode haccepts
      exact (h.kept_nodes howned hs t ht node hnode haccepts).shrinks hshrinks
    · intro es client buf chunks conn hloop
      exact (h.kept_building hs hloop).shrinks hshrinks
    · exact hs.listed.shrinks hshrinks
  · simp only [acceptsUnused, unused, Bool.and_eq_true, List.all_eq_true, bne_iff_ne,
      decide_eq_true_eq] at hl
    obtain ⟨hlist, htasks⟩ := hl
    constructor
    · intro t ht node hnode haccepts
      have hnode' : s.tnodes t = some node := hnode
      have hmem : t ∈ s.refs := h.hands.mem_refs howned ht (by rw [hnode']; rfl)
      have hne : node.client.fd ≠ fd := by
        intro hfd
        have htask := htasks t hmem
        simp [hnode', hfd, haccepts] at htask
      exact (hs.nodes t hmem node hnode' haccepts).acceptClient hne nonblock registered
    · intro es' client buf chunks conn hbuilding
      have hbuilding' : s.loop = .building es' client buf chunks conn := hbuilding
      rw [hloop] at hbuilding'
      cases hbuilding'
    · exact hs.listed.acceptClient hlist nonblock registered

/-! ### Isolation -/

/-- What was sent on a connection is a part of a response that was generated from what was
received on the same connection. What `write_to_client` removed and closed is the connection that
its task node was read from. -/
structure Isolated (app : App W) (s : Server n W) : Prop where
  sends : ∀ r ∈ s.history.sends, ∃ g ∈ s.history.generated, g.origin = r.conn ∧
    g.Sound app s.history.received ∧ r.data <:+: g.resp
  removals : ∀ r ∈ s.history.removals, r.node = r.origin ∧ ∀ c, r.closed = some c → c = r.origin

/-- The task node of `write_to_client` has a response, so that its descriptor is kept. -/
lemma keeps_of_writing {app : App W} {s : Server n W} (htraced : s.Traced app) (hs : s.Kept app)
    {es : List KEvent} {t : Addr} {node : ThreadNode} {resp : Bytes} {total : ℕ}
    (h : s.loop = .writing es t total) (hnode : s.tnodes t = some node)
    (hresp : node.completeResp = some resp) : s.conns.Keeps node.client.fd node.conn := by
  obtain ⟨g, hg, -, hchunks, -⟩ := (htraced.nodes t node hnode).resp resp hresp
  obtain ⟨-, req, hparses, -⟩ := htraced.generated g hg
  have hmem : t ∈ s.refs := mem_refs_of_loop (by simp [h, LoopPoint.refs])
  exact hs.nodes t hmem node hnode (hchunks ▸ hparses.accepts)

/-- `send` is given the descriptor of the connection that the task node was read from. -/
lemma Rule.sends_conn {app : App W} {s s' : Server n W} {l : Label n W} (h : Rule app s l s')
    (htraced : s.Traced app) (hkept : s.Kept app)
    (hs : ∀ r ∈ s.history.sends, r.conn = r.origin) :
    ∀ r ∈ s'.history.sends, r.conn = r.origin := by
  intro r hr
  cases h with
  | sent a es t node resp total k c h hnode hresp hc hk hle =>
    rcases List.mem_append.mp hr with hr | hr
    · exact hs r hr
    · rw [List.mem_singleton] at hr
      subst hr
      exact (keeps_of_writing htraced hkept h hnode hresp).fds c hc
  | _ => exact hs r hr

/-- What `remove_client` finds for a task node whose descriptor is kept. -/
lemma removals_removeFor {s : Server n W} {node : ThreadNode}
    (hkeeps : s.conns.Keeps node.client.fd node.conn)
    (hs : ∀ r ∈ s.history.removals, r.node = r.origin ∧ ∀ c, r.closed = some c → c = r.origin)
    (r : Removal) (hr : r ∈ (s.removeFor node).history.removals) :
    r.node = r.origin ∧ ∀ c, r.closed = some c → c = r.origin := by
  rcases List.mem_append.mp hr with hr | hr
  · exact hs r hr
  · obtain ⟨a, ha, rfl⟩ := List.mem_map.mp hr
    rw [Option.mem_toList] at ha
    obtain ⟨client, hmem, hfd⟩ := ClientList.search_some ha
    exact ⟨hkeeps.nodes _ hmem hfd, fun c hc => hkeeps.fds c hc⟩

lemma Rule.removals_origin {app : App W} {s s' : Server n W} {l : Label n W}
    (h : Rule app s l s') (htraced : s.Traced app) (hkept : s.Kept app)
    (hs : ∀ r ∈ s.history.removals, r.node = r.origin ∧ ∀ c, r.closed = some c → c = r.origin) :
    ∀ r ∈ s'.history.removals, r.node = r.origin ∧ ∀ c, r.closed = some c → c = r.origin := by
  intro r hr
  cases h with
  | gaveUp es t node resp total result registered h hnode hresp hresult =>
    exact removals_removeFor (keeps_of_writing htraced hkept h hnode hresp) hs r hr
  | done es t node resp total h hnode hresp hle =>
    exact removals_removeFor (keeps_of_writing htraced hkept h hnode hresp) hs r hr
  | _ => exact hs r hr

/-- If `accept` never returns a descriptor that a node of the list still has, or a task node in
use whose request is accepted, then every response goes to the connection it was generated for,
and no other connection is removed for it. -/
theorem isolated {app : App W} {ls : List (Label n W)} {s : Server n W}
    (hls : Along (step app) (fun s l => s.acceptsUnused app l = true) (init n W) ls)
    (h : run (step app) (init n W) ls = some s) : s.Isolated app := by
  have hs : s.Kept app ∧ (∀ r ∈ s.history.sends, r.conn = r.origin) ∧
      ∀ r ∈ s.history.removals, r.node = r.origin ∧ ∀ c, r.closed = some c → c = r.origin := by
    refine invariant_along (P := fun s => s.Kept app ∧
      (∀ r ∈ s.history.sends, r.conn = r.origin) ∧
      ∀ r ∈ s.history.removals, r.node = r.origin ∧ ∀ c, r.closed = some c → c = r.origin)
      ⟨kept_init app, by simp [init], by simp [init]⟩ ?_ hls h
    rintro s l s' hreach ⟨hkept, hsends, hremovals⟩ hl hrule
    exact ⟨hrule.kept hl hreach.owned hkept, hrule.sends_conn hreach.traced hkept hsends,
      hrule.removals_origin hreach.traced hkept hremovals⟩
  obtain ⟨-, hsends, hremovals⟩ := hs
  have htraced : s.Traced app := Reachable.traced ⟨ls, h⟩
  refine ⟨fun r hr => ?_, hremovals⟩
  obtain ⟨g, hg, horigin, -, hdata⟩ := htraced.sends r hr
  exact ⟨g, hg, horigin.trans (hsends r hr).symm, htraced.generated g hg, hdata⟩

/-- A client is answered, and its descriptor is used again after that. -/
theorem isolated_in_turn :
    ∃ s : Server 1 Unit, s.history.sends.map SendRecord.conn = [0] ∧ s.conns.fds 5 = some 1 ∧
      s.Isolated Demo.app := by
  have hrun : ((run (step Demo.app) (init 1 Unit)
      (Demo.start ++ Demo.poll [.read 3 none false] ++ Demo.accept 5 ++ Demo.next ++
        Demo.poll [.read 5 (some 0) false] ++ Demo.read Demo.request ++ Demo.next ++
        Demo.answer ++ Demo.register ++ Demo.poll [.write 5 0] ++ Demo.write 20 ++ Demo.next ++
        Demo.poll [.read 3 none false] ++ Demo.accept 5)).map fun s =>
      (s.history.sends.map SendRecord.conn, s.conns.fds 5)) = some ([0], some 1) := by
    decide +kernel
  obtain ⟨s, hs, heq⟩ := Option.map_eq_some_iff.mp hrun
  rw [Prod.mk.injEq] at heq
  exact ⟨s, heq.1, heq.2, isolated (by decide +kernel) hs⟩

/-- A client disconnects while its request is handled, and `accept` returns its descriptor for
another client. The response is sent to the other client, which is then removed. -/
theorem sent_to_other_client :
    ∃ s : Server 1 Unit, run (step Demo.app) (init 1 Unit)
        (Demo.start ++ Demo.poll [.read 3 none false] ++ Demo.accept 5 ++ Demo.next ++
          Demo.poll [.read 5 (some 0) false] ++ Demo.read Demo.request ++ Demo.next ++
          Demo.answer ++ Demo.poll [.read 5 (some 0) true, .read 3 none false] ++ Demo.next ++
          Demo.accept 5 ++ Demo.next ++ Demo.register ++ Demo.poll [.write 5 0] ++
          Demo.write 20) = some s ∧
      s.history.received.map Prod.fst = [0] ∧ s.history.sends.map SendRecord.conn = [1] ∧
      s.history.removals = [⟨some 1, 1, 0⟩] ∧ ¬ s.Isolated Demo.app := by
  have hrun : ((run (step Demo.app) (init 1 Unit)
      (Demo.start ++ Demo.poll [.read 3 none false] ++ Demo.accept 5 ++ Demo.next ++
        Demo.poll [.read 5 (some 0) false] ++ Demo.read Demo.request ++ Demo.next ++
        Demo.answer ++ Demo.poll [.read 5 (some 0) true, .read 3 none false] ++ Demo.next ++
        Demo.accept 5 ++ Demo.next ++ Demo.register ++ Demo.poll [.write 5 0] ++
        Demo.write 20)).map fun s =>
      (s.history.received.map Prod.fst, s.history.sends.map SendRecord.conn,
        s.history.removals)) = some ([0], [1], [⟨some 1, 1, 0⟩]) := by
    decide +kernel
  obtain ⟨s, hs, heq⟩ := Option.map_eq_some_iff.mp hrun
  simp only [Prod.mk.injEq] at heq
  obtain ⟨hreceived, hsends, hremovals⟩ := heq
  refine ⟨s, hs, hreceived, hsends, hremovals, fun hiso => ?_⟩
  have horigin := (hiso.removals ⟨some 1, 1, 0⟩ (hremovals ▸ List.mem_singleton_self _)).1
  cases horigin

end Server

end Ccybe
