import Ccybe.Http.Isolation

/-!
# What becomes of a request

The processing of what was received on a connection ends in `read_from_client` or in
`handle_conn`. Some of the exits register a response or close the client; the others leave both as
they are, so that a client that was waiting for its response keeps waiting.
-/

namespace Ccybe

open CSem Trace Tally

/-! ### Numbers of connections -/

namespace Conns

/-- Connections are numbered one after the other, and an open one has one descriptor. -/
structure Numbered (c : Conns) : Prop where
  lt : ∀ fd conn, c.fds fd = some conn → conn < c.accepts
  inj : ∀ fd fd' conn, c.fds fd = some conn → c.fds fd' = some conn → fd = fd'

lemma numbered_init : init.Numbered := ⟨by simp [init], by simp [init]⟩

lemma Numbered.of_fds {c c' : Conns} (h : c.Numbered)
    (hfds : ∀ fd conn, c'.fds fd = some conn → c.fds fd = some conn)
    (haccepts : c.accepts ≤ c'.accepts) : c'.Numbered where
  lt := fun fd conn hfd => (h.lt fd conn (hfds fd conn hfd)).trans_le haccepts
  inj := fun fd fd' conn hfd hfd' => h.inj fd fd' conn (hfds fd conn hfd) (hfds fd' conn hfd')

lemma Numbered.accept {c : Conns} (h : c.Numbered) (fd : Fd) : (c.accept fd).Numbered := by
  have hcases : ∀ g conn, (c.accept fd).fds g = some conn →
      g = fd ∧ conn = c.accepts ∨ c.fds g = some conn := by
    intro g conn hg
    by_cases hgfd : g = fd
    · exact .inl ⟨hgfd, by simpa [Conns.accept, hgfd, eq_comm] using hg⟩
    · exact .inr (by simpa [Conns.accept, hgfd] using hg)
  constructor
  · intro g conn hg
    rcases hcases g conn hg with ⟨-, rfl⟩ | hold
    · exact Nat.lt_succ_self _
    · exact Nat.lt_succ_of_lt (h.lt g conn hold)
  · intro g g' conn hg hg'
    rcases hcases g conn hg with ⟨rfl, rfl⟩ | hold <;> rcases hcases g' _ hg' with ⟨rfl, hconn⟩ | hold'
    · rfl
    · exact absurd (h.lt g' _ hold') (lt_irrefl _)
    · rw [hconn] at hold
      exact absurd (h.lt g _ hold) (lt_irrefl _)
    · exact h.inj g g' conn hold hold'

lemma removeClient_accepts (c : Conns) (fd : Fd) : (c.removeClient fd).accepts = c.accepts := by
  rcases c.removeClient_cases fd with ⟨-, h⟩ | ⟨a, -, h⟩ <;> rw [h]
  rfl

lemma acceptClient_accepts (c : Conns) (fd : Fd) (nonblock registered : Bool) :
    (c.acceptClient fd nonblock registered).accepts = c.accepts + 1 := by
  rcases c.acceptClient_cases fd nonblock registered with ⟨-, h⟩ | ⟨-, -, h⟩ | ⟨-, -, h⟩ <;>
    rw [h] <;> rfl

lemma foldl_connClose_accepts (c : Conns) (fds : List Fd) :
    (fds.foldl connClose c).accepts = c.accepts := by
  induction fds generalizing c with
  | nil => rfl
  | cons fd fds ih => exact ih _

lemma Numbered.acceptClient {c : Conns} (h : c.Numbered) (fd : Fd) (nonblock registered : Bool) :
    (c.acceptClient fd nonblock registered).Numbered := by
  have hle : (c.accept fd).accepts ≤ (c.acceptClient fd nonblock registered).accepts :=
    (c.acceptClient_accepts fd nonblock registered).ge
  rcases c.shrinks_acceptClient fd nonblock registered with hc | hc
  · exact (h.accept fd).of_fds hc.fds hle
  · exact (h.accept fd).of_fds hc.fds hle

end Conns

namespace Server

variable {n : ℕ} {W : Type}

lemma Rule.accepts_le {app : App W} {s s' : Server n W} {l : Label n W} (h : Rule app s l s') :
    s.conns.accepts ≤ s'.conns.accepts := by
  cases h with
  | eof a ident udata es h => exact (s.conns.removeClient_accepts ident).ge
  | disconnected a es client buf chunks h => exact (s.conns.removeClient_accepts client.fd).ge
  | accept es fd nonblock mem registered h hfree hne hmem =>
    exact (Nat.le_succ _).trans (s.conns.acceptClient_accepts fd nonblock registered).ge
  | gaveUp es t node resp total r registered h hnode hresp hr =>
    exact (s.conns.removeClient_accepts node.client.fd).ge
  | done es t node resp total h hnode hresp hle =>
    exact (s.conns.removeClient_accepts node.client.fd).ge
  | freeList h => exact (Conns.foldl_connClose_accepts _ _).ge
  | again a es t node total registered h hnode => cases registered <;> exact le_refl _
  | _ => exact le_refl _

lemma Reachable.numbered {app : App W} {s : Server n W} (h : Reachable app s) : s.conns.Numbered := by
  refine h.invariant (P := fun s => s.conns.Numbered) Conns.numbered_init ?_
  intro s l s' _ hs hrule
  rcases hrule.conns_cases with hshrinks | ⟨es, fd, nonblock, mem, registered, -, -, rfl⟩
  · exact hs.of_fds hshrinks.fds hrule.accepts_le
  · exact hs.acceptClient fd nonblock registered

/-! ### The client that is read from -/

/-- The client that is read from is in the list. -/
def Present (s : Server n W) : Prop :=
  ∀ es client buf chunks, s.loop = .reading es client buf chunks →
    ∃ a, (a, client) ∈ s.conns.clients.nodes

lemma Moves.present {app : App W} {s : Server n W} {p : LoopPoint} (h : s.Moves app p) (hs : s.Present)
    {es : List KEvent} {client : Client} {buf : StringT} {chunks : List Bytes}
    (hp : p = .reading es client buf chunks) : ∃ a, (a, client) ∈ s.conns.clients.nodes := by
  cases h with
  | listened ok h => cases ok <;> cases hp
  | tested h => cases hsignal : s.shutdownSignal <;> simp [hsignal] at hp
  | toRead ident a es' node mem buf' h hne hnode hbuf =>
    cases hp
    exact ⟨a, ClientList.find_eq hnode⟩
  | received es' client' buf₁ buf₂ chunks' chunk mem h hbuf =>
    cases hp
    exact hs _ _ _ _ h
  | _ => cases hp

lemma Rule.present {app : App W} {s s' : Server n W} {l : Label n W} (h : Rule app s l s')
    (hs : s.Present) : s'.Present := by
  intro es client buf chunks hloop
  cases h with
  | move a p hp => exact hp.present hs hloop
  | signal => exact hs es client buf chunks hloop
  | fault => exact hs es client buf chunks hloop
  | accept es' fd nonblock mem registered h =>
    rw [show s.loop = .reading es client buf chunks from hloop] at h
    cases h
  | enter => exact hs es client buf chunks hloop
  | wake => exact hs es client buf chunks hloop
  | handle => exact hs es client buf chunks hloop
  | generate => exact hs es client buf chunks hloop
  | register => exact hs es client buf chunks hloop
  | finish => exact hs es client buf chunks hloop
  | _ => cases hloop

lemma Reachable.present {app : App W} {s : Server n W} (h : Reachable app s) : s.Present :=
  h.invariant (fun es client buf chunks hloop => by cases hloop)
    fun _ _ _ _ hs hrule => hrule.present hs

end Server

/-! ### What a worker holds -/

/-- A worker knows the client of its task node, which has a response when it is registered. -/
def HandlePoint.Knows (tnodes : Addr → Option ThreadNode) : HandlePoint → Prop
  | .lookup t client _ | .generate t client _ => ∀ node, tnodes t = some node → node.client = client
  | .register t client =>
    ∀ node, tnodes t = some node → node.client = client ∧ node.completeResp.isSome
  | _ => True

/-- `tnodes'` has the clients of `tnodes` at `t`, and its responses. -/
def KeptAt (tnodes tnodes' : Addr → Option ThreadNode) (t : Addr) : Prop :=
  ∀ node', tnodes' t = some node' → ∃ node, tnodes t = some node ∧ node'.client = node.client ∧
    (node.completeResp.isSome → node'.completeResp.isSome)

lemma HandlePoint.Knows.kept {tnodes tnodes' : Addr → Option ThreadNode} {p : HandlePoint}
    (h : p.Knows tnodes) (hkept : ∀ t ∈ p.refs, KeptAt tnodes tnodes' t) : p.Knows tnodes' := by
  cases p with
  | lookup t client req | generate t client req =>
    intro node' hnode'
    obtain ⟨node, hnode, hclient, -⟩ := hkept t (Multiset.mem_singleton_self t) node' hnode'
    exact hclient.trans (h node hnode)
  | register t client =>
    intro node' hnode'
    obtain ⟨node, hnode, hclient, hresp⟩ := hkept t (Multiset.mem_singleton_self t) node' hnode'
    exact ⟨hclient.trans (h node hnode).1, hresp (h node hnode).2⟩
  | _ => trivial

lemma knows_ofWorker (tnodes : Addr → Option ThreadNode) (w : Worker TaskFunc Addr) :
    (HandlePoint.ofWorker w).Knows tnodes := by
  cases w <;> trivial

namespace Server

variable {n : ℕ} {W : Type}

lemma Rule.keptAt {app : App W} {s s' : Server n W} {l : Label n W} (h : Rule app s l s') {t : Addr}
    (ht : t ≠ s.nextTnode) : KeptAt s.tnodes s'.tnodes t := by
  intro node' hnode'
  cases h with
  | built a es client buf chunks conn mem buffer h hcopy hdata =>
    exact ⟨node', (Function.update_of_ne ht _ _).symm.trans hnode', rfl, id⟩
  | done es u node resp total h hnode hresp hle =>
    have hupdate : Function.update s.tnodes u none t = some node' := hnode'
    by_cases htu : t = u
    · rw [htu, Function.update_self] at hupdate
      cases hupdate
    · rw [Function.update_of_ne htu] at hupdate
      exact ⟨node', hupdate, rfl, id⟩
  | generate i u client req w node h hnode =>
    have hupdate : Function.update s.tnodes u
        (some { node with completeResp := some (app.respond w req) }) t = some node' := hnode'
    by_cases htu : t = u
    · rw [htu, Function.update_self] at hupdate
      cases hupdate
      exact ⟨node, htu ▸ hnode, rfl, fun _ => rfl⟩
    · rw [Function.update_of_ne htu] at hupdate
      exact ⟨node', hupdate, rfl, id⟩
  | _ => exact ⟨node', hnode', rfl, id⟩

lemma HandleMoves.knows {app : App W} {s : Server n W} {i : Fin n} {p : HandlePoint}
    (h : s.HandleMoves app i p) (hs : (s.handling i).Knows s.tnodes) : p.Knows s.tnodes := by
  cases h with
  | parsedGet t node text ok req h hnode htext hparse hok hget =>
    intro node' hnode'
    rw [Option.some.inj (hnode'.symm.trans hnode)]
  | parsedOther t node text ok req method h hnode htext hparse hok hmethod hget =>
    intro node' hnode'
    rw [Option.some.inj (hnode'.symm.trans hnode)]
  | found t client req h hroute =>
    rw [h] at hs
    exact hs
  | _ => trivial

lemma Rule.knows {app : App W} {s s' : Server n W} {l : Label n W} (h : Rule app s l s')
    (howned : s.Owned) (hs : ∀ i, (s.handling i).Knows s.tnodes) (i : Fin n) :
    (s'.handling i).Knows s'.tnodes := by
  have hstays : s'.handling i = s.handling i → (s'.handling i).Knows s'.tnodes := by
    intro heq
    rw [heq]
    refine (hs i).kept fun t ht => h.keptAt ?_
    exact (howned.lt t (howned.live t (mem_refs_of_handling ht))).ne
  cases h with
  | enter j p hp =>
    by_cases hj : i = j
    · subst hj
      simp only [setHandling_handling, Function.update_self]
      exact knows_ofWorker _ (p.thread i)
    · exact hstays (by simp [hj])
  | handle j a p hp =>
    by_cases hj : i = j
    · subst hj
      simp only [setHandling_handling, Function.update_self]
      exact hp.knows (hs i)
    · exact hstays (by simp [hj])
  | generate j t client req w node h hnode =>
    by_cases hj : i = j
    · subst hj
      have hclient := hs i
      rw [h] at hclient
      simp only [setHandling_handling, Function.update_self]
      intro node' hnode'
      rw [Function.update_self, Option.some.injEq] at hnode'
      subst hnode'
      exact ⟨hclient node hnode, rfl⟩
    · exact hstays (by simp [hj])
  | register j t client h hopen =>
    by_cases hj : i = j
    · subst hj
      simp only [setHandling_handling, Function.update_self]
      trivial
    · exact hstays (by simp [hj])
  | _ => exact hstays rfl

lemma Reachable.knows {app : App W} {s : Server n W} (h : Reachable app s) (i : Fin n) :
    (s.handling i).Knows s.tnodes :=
  h.invariant (P := fun s => ∀ i, (s.handling i).Knows s.tnodes) (fun _ => trivial)
    (fun _ _ _ hreach hs hrule => hrule.knows hreach.owned hs) i

/-! ### How the processing ends -/

/-- A WRITE event with a response for the connection is registered. -/
def HasResponse (s : Server n W) (c : ConnId) : Prop :=
  ∃ fd t node, s.conns.fds fd = some c ∧ (fd, t) ∈ s.conns.writeReg ∧ s.tnodes t = some node ∧
    node.conn = c ∧ node.completeResp.isSome

/-- The connection is closed, and no node of the list is for it. -/
def Gone (s : Server n W) (c : ConnId) : Prop :=
  (∀ fd, s.conns.fds fd ≠ some c) ∧ ∀ x ∈ s.conns.clients.nodes, s.conns.serial x.1 ≠ c

/-- The client is going to get a response, or it was removed. -/
def Settled (s : Server n W) (c : ConnId) : Prop := s.HasResponse c ∨ s.Gone c

/-- With the step from `s` to the last state the processing of bytes that were received on the
connection is over: `read_from_client` returns without a task that was pushed, or `handle_conn`
returns. -/
inductive Ends (s : Server n W) : Label n W → Server n W → ConnId → Prop where
  | recv (es : List KEvent) (client : Client) (buf : StringT) (chunks : List Bytes) (r : RecvResult)
      (s' : Server n W) (c : ConnId) (h : s.loop = .reading es client buf chunks)
      (hc : s.conns.fds client.fd = some c)
      (hdata : chunks ≠ [] ∨ ∃ chunk mem, r = .data chunk mem) (hend : s'.loop = .events es) :
      Ends s (.loop (.recv r)) s' c
  | build (es : List KEvent) (client : Client) (buf : StringT) (chunks : List Bytes) (c : ConnId)
      (memTnode memBuffer memReq memResp : Bool) (s' : Server n W)
      (h : s.loop = .building es client buf chunks c) (hdata : chunks ≠ [])
      (hend : s'.loop = .events es) :
      Ends s (.loop (.build memTnode memBuffer memReq memResp)) s' c
  | push (es : List KEvent) (t : Addr) (node : ThreadNode) (mem : Bool) (ws : List (Fin n))
      (p : Pool n TaskFunc Addr) (s' : Server n W) (h : s.loop = .handing es t)
      (hnode : s.tnodes t = some node) (hdata : node.chunks ≠ [])
      (hend : s.pool.pushTask (some .handleConn) (some t) mem ws = some (false, p)) :
      Ends s (.loop (.push mem ws)) s' node.conn
  | parse (i : Fin n) (t : Addr) (node : ThreadNode) (s' : Server n W)
      (h : s.handling i = .entered t) (hnode : s.tnodes t = some node) (hdata : node.chunks ≠ [])
      (hend : s'.handling i = .away) : Ends s (.worker i .parse) s' node.conn
  | register (i : Fin n) (t : Addr) (client : Client) (node : ThreadNode) (ok : Bool)
      (s' : Server n W) (h : s.handling i = .register t client) (hnode : s.tnodes t = some node)
      (hdata : node.chunks ≠ []) : Ends s (.worker i (.register ok)) s' node.conn

/-- The processing may end here. At the end of the connection the node that is removed has to be
the only one for it; when the event is registered, the descriptor has to be the client's still. All
other exits are harmless only for a client with a response to another request, or one that was
removed meanwhile. -/
def MayEnd (s : Server n W) (c : ConnId) : Label n W → Prop
  | .loop (.recv .closed) => ∃ fd a, s.conns.fds fd = some c ∧ s.conns.clients.search fd = some a ∧
      ∀ x ∈ s.conns.clients.nodes, s.conns.serial x.1 = c → x.1 = a
  | .worker i (.register true) =>
    (∃ t client, s.handling i = .register t client ∧ s.conns.fds client.fd = some c) ∨ s.Settled c
  | _ => s.Settled c

/-- `remove_client` for an open connection removes its client if no other node is for it. -/
lemma settled_removeClient_iff {s : Server n W} (hs : s.conns.Numbered) {fd : Fd} {c : ConnId}
    (hc : s.conns.fds fd = some c) {a : Addr} (hsearch : s.conns.clients.search fd = some a)
    (p : LoopPoint) :
    ({ s with conns := s.conns.removeClient fd, loop := p } : Server n W).Settled c ↔
      ∀ x ∈ s.conns.clients.nodes, s.conns.serial x.1 = c → x.1 = a := by
  have hconns : s.conns.removeClient fd =
      { s.conns.connClose fd with clients := s.conns.clients.remove a } := by
    rw [Conns.removeClient, hsearch]
  have hclosed : ∀ g, (s.conns.connClose fd).fds g ≠ some c := by
    intro g hg
    obtain rfl := hs.inj g fd c ((s.conns.shrinks_connClose fd).fds g c hg) hc
    rw [Conns.connClose_fds, Function.update_self] at hg
    cases hg
  rw [hconns]
  constructor
  · rintro (⟨g, t, node, hg, -⟩ | ⟨-, hremoved⟩)
    · exact absurd hg (hclosed g)
    · intro x hx hserial
      by_contra hne
      refine hremoved x ?_ hserial
      rw [ClientList.nodes_remove, List.mem_filter]
      exact ⟨hx, decide_eq_true hne⟩
  · intro honly
    refine .inr ⟨hclosed, fun x hx hserial => ?_⟩
    rw [ClientList.nodes_remove, List.mem_filter, decide_eq_true_eq] at hx
    exact hx.2 (honly x hx.1 hserial)

/-- Registering an event with a response helps the connection that has the descriptor. -/
lemma settled_addWrite_iff {s : Server n W} {fd : Fd} {t : Addr} {node : ThreadNode}
    (hnode : s.tnodes t = some node) (hresp : node.completeResp.isSome) (i : Fin n) :
    ({ s.setHandling i .away with conns := s.conns.addWrite fd t } : Server n W).Settled node.conn ↔
      s.conns.fds fd = some node.conn ∨ s.Settled node.conn := by
  constructor
  · rintro (⟨g, u, node', hg, hmem, hnode', hconn, hresp'⟩ | ⟨hclosed, hremoved⟩)
    · rcases List.mem_cons.mp hmem with heq | hmem
      · cases heq
        exact .inl hg
      · exact .inr (.inl ⟨g, u, node', hg, List.mem_of_mem_filter hmem, hnode', hconn, hresp'⟩)
    · exact .inr (.inr ⟨hclosed, hremoved⟩)
  · rintro (hfd | ⟨g, u, node', hg, hmem, hnode', hconn, hresp'⟩ | ⟨hclosed, hremoved⟩)
    · exact .inl ⟨fd, t, node, hfd, List.mem_cons_self, hnode, rfl, hresp⟩
    · by_cases hgfd : g = fd
      · exact .inl ⟨fd, t, node, hgfd ▸ hg, List.mem_cons_self, hnode, rfl, hresp⟩
      · refine .inl ⟨g, u, node', hg, List.mem_cons_of_mem _ ?_, hnode', hconn, hresp'⟩
        exact List.mem_filter.mpr ⟨hmem, decide_eq_true hgfd⟩
    · exact .inr ⟨hclosed, hremoved⟩

/-- `read_from_client` returns in the loop over `recv`. -/
lemma recv_ends {app : App W} {s s' : Server n W} (hreach : Reachable app s) {es : List KEvent}
    {client : Client} {buf : StringT} {chunks : List Bytes} {r : RecvResult} {c : ConnId}
    (h : s.loop = .reading es client buf chunks) (hc : s.conns.fds client.fd = some c)
    (hs : s.recv es client buf chunks r = some s') (hend : s'.loop = .events es) :
    s'.Settled c ↔ s.MayEnd c (.loop (.recv r)) := by
  cases r with
  | failed =>
    cases hs
    exact Iff.rfl
  | again =>
    simp only [recv, hc, Option.map_some, Option.some.injEq] at hs
    subst hs
    cases hend
  | closed =>
    obtain ⟨a, hmem⟩ := hreach.present es client buf chunks h
    obtain ⟨a, hsearch⟩ := ClientList.search_of_mem hmem
    simp only [recv, hc, Option.isSome_some, if_true, Option.some.injEq] at hs
    subst hs
    rw [settled_removeClient_iff hreach.numbered hc hsearch]
    constructor
    · exact fun honly => ⟨client.fd, a, hc, hsearch, honly⟩
    · rintro ⟨fd, a', hfd, hsearch', honly⟩
      obtain rfl := hreach.numbered.inj fd client.fd c hfd hc
      rw [hsearch] at hsearch'
      cases hsearch'
      exact honly
  | data chunk mem =>
    simp only [recv] at hs
    split_ifs at hs
    split at hs
    · cases hs
      rw [show (s.fail _).loop = s.loop from rfl, h] at hend
      cases hend
    · cases hs
      cases hend
    · cases hs
      exact Iff.rfl

/-- `read_from_client` returns because there is no memory for the task node. -/
lemma build_ends {s : Server n W} {es : List KEvent} {client : Client} {buf : StringT}
    {chunks : List Bytes} {c : ConnId} {memTnode memBuffer memReq memResp : Bool}
    (hend : (s.build es client buf chunks c memTnode memBuffer memReq memResp).loop = .events es) :
    (s.build es client buf chunks c memTnode memBuffer memReq memResp).Settled c ↔ s.Settled c := by
  unfold build at hend ⊢
  split_ifs at hend ⊢
  · exact Iff.rfl
  · cases hcopy : buf.copyString memBuffer with
    | error u => exact Iff.rfl
    | ok buffer =>
      simp only [hcopy] at hend ⊢
      split_ifs at hend ⊢
      exact Iff.rfl

/-- A step with which the processing ends leaves the client settled if and only if the processing
may end with it. -/
lemma Ends.settles {app : App W} {s s' : Server n W} (hreach : Reachable app s) {l : Label n W}
    {c : ConnId} (hstep : s.step app l = some s') (h : s.Ends l s' c) :
    s'.Settled c ↔ s.MayEnd c l := by
  cases h with
  | recv es client buf chunks r s' c h hc hdata hend =>
    simp only [step, loopStep, h] at hstep
    split_ifs at hstep
    exact recv_ends hreach h hc hstep hend
  | build es client buf chunks c memTnode memBuffer memReq memResp s' h hdata hend =>
    simp only [step, loopStep, h] at hstep
    split_ifs at hstep
    cases hstep
    exact build_ends hend
  | push es t node mem ws p s' h hnode hdata hend =>
    simp only [step, loopStep, h, hend] at hstep
    split_ifs at hstep
    cases hstep
    exact Iff.rfl
  | parse i t node s' h hnode hdata hend =>
    cases (Rule.of_step hstep).2 with
    | fault l f hf =>
      rw [show (s.fail f).handling = s.handling from rfl, h] at hend
      cases hend
    | handle j a p hp => exact Iff.rfl
  | register i t client node ok s' h hnode hdata =>
    have hknows := hreach.knows i
    rw [h] at hknows
    obtain ⟨rfl, hresp⟩ := hknows node hnode
    simp only [step, workerStep, h] at hstep
    split_ifs at hstep with hfault hok hopen
    · cases hstep
      subst hok
      rw [settled_addWrite_iff hnode hresp]
      refine or_congr ⟨fun hfd => ⟨t, _, h, hfd⟩, ?_⟩ Iff.rfl
      rintro ⟨t', client, h', hfd⟩
      rw [h] at h'
      cases h'
      exact hfd
    · cases hstep
      rw [Bool.not_eq_true] at hok
      subst hok
      exact Iff.rfl

/-- In every run, each end of the processing of what was received leaves the client with a response
or removed if and only if the processing ends only where it may. -/
theorem answered_or_removed_iff (app : App W) (ls : List (Label n W)) :
    Along (step app) (fun s l => ∀ s' c, s.step app l = some s' → s.Ends l s' c → s'.Settled c)
        (init n W) ls ↔
      Along (step app) (fun s l => ∀ s' c, s.step app l = some s' → s.Ends l s' c → s.MayEnd c l)
        (init n W) ls := by
  refine Along.congr (P := Reachable app) (fun s l s' hs hstep => hs.trans (.of_step hstep)) ?_
    (Reaches.refl _) ls
  intro s l hs
  exact forall₄_congr fun s' c hstep h => h.settles hs hstep

set_option maxRecDepth 1000 in
/-- A client sends a message that `llhttp` rejects. When `handle_conn` has returned, the client is
still connected, and there is no event for it. -/
theorem bad_request_unanswered :
    ∃ (s s' : Server 1 Unit) (c : ConnId), run (step Demo.app) (init 1 Unit)
        (Demo.start ++ Demo.poll [.read 3 none false] ++ Demo.accept 5 ++ Demo.next ++
          Demo.poll [.read 5 (some 0) false] ++ Demo.read [chr 'X'] ++ [.worker 0 .enter]) = some s ∧
      s.step Demo.app (.worker 0 .parse) = some s' ∧ s.Ends (.worker 0 .parse) s' c ∧
      ¬ s'.Settled c := by
  refine ⟨_, _, _, rfl, rfl, .parse 0 0 _ _ rfl rfl (List.cons_ne_nil _ _) rfl, ?_⟩
  rintro (⟨fd, t, node, -, hmem, -⟩ | ⟨hclosed, -⟩)
  · exact absurd hmem List.not_mem_nil
  · exact hclosed 5 rfl

end Server

end Ccybe
