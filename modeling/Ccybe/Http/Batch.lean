import Ccybe.Http.Steps

/-!
# Events of removed clients in a batch

A READ event carries the list node of its client. The events of a batch are fetched together, so
that a node can be freed by an event before its own. A READ event removes its own client only,
and there is one for each descriptor; but `write_to_client` removes its client at the end, and a
READ event of the same client may be left in the batch.
-/

namespace Ccybe

open CSem Trace

/-- The events that are left in the batch. -/
def LoopPoint.left : LoopPoint → List KEvent
  | .events es => es
  | .accepting es => es
  | .reading es _ _ _ => es
  | .building es _ _ _ _ => es
  | .handing es _ => es
  | .writing es _ _ => es
  | _ => []

/-- The descriptor whose READ event is being handled. -/
def LoopPoint.readingFd : LoopPoint → Option Fd
  | .reading _ client _ _ => some client.fd
  | _ => none

namespace Conns

/-- The node of each READ event of a client that is registered is in the list. -/
def Linked (c : Conns) : Prop :=
  ∀ fd a, (fd, a) ∈ c.readReg → (a, ⟨fd⟩) ∈ c.clients.nodes

/-- A node stays in the list unless its descriptor is removed. -/
lemma mem_removeClient {c : Conns} {fd g : Fd} {a : Addr} (h : (a, ⟨g⟩) ∈ c.clients.nodes)
    (hg : g ≠ fd) : (a, ⟨g⟩) ∈ (c.removeClient fd).clients.nodes := by
  rcases c.removeClient_cases fd with ⟨-, he⟩ | ⟨b, hsearch, he⟩
  · rw [he]
    exact h
  · rw [he]
    obtain ⟨client, hmem, hfd⟩ := ClientList.search_some hsearch
    simp only [ClientList.nodes_remove, List.mem_filter, decide_eq_true_eq]
    refine ⟨h, fun hab => hg ?_⟩
    have heq : ((a, ⟨g⟩) : Addr × Client) = (b, client) :=
      List.inj_on_of_nodup_map c.clients.repr.nodup h hmem hab
    rw [← hfd, ← congrArg (fun x => x.2.fd) heq]

lemma linked_init : init.Linked := fun _ _ h => absurd h List.not_mem_nil

lemma Linked.removeClient {c : Conns} (hc : c.Linked) (fd : Fd) : (c.removeClient fd).Linked := by
  intro g a hmem
  rcases c.removeClient_cases fd with ⟨-, he⟩ | ⟨b, -, he⟩
  · rw [he] at hmem ⊢
    exact hc g a hmem
  · have hreg : (g, a) ∈ c.readReg ∧ g ≠ fd := by simpa [he] using hmem
    exact mem_removeClient (hc g a hreg.1) hreg.2

/-- `accept_client` takes no node out of the list. -/
lemma mem_acceptClient {c : Conns} {x : Addr × Client} (h : x ∈ c.clients.nodes) (fd : Fd)
    (nonblock registered : Bool) :
    x ∈ (c.acceptClient fd nonblock registered).clients.nodes := by
  have hinsert : x ∈ (c.clients.insert ⟨fd⟩).nodes := by
    rw [ClientList.nodes_insert]
    exact List.mem_append_left _ h
  rcases c.acceptClient_cases fd nonblock registered with ⟨-, he⟩ | ⟨-, -, he⟩ | ⟨-, -, he⟩
  · rw [he]
    exact h
  · rw [he]
    exact hinsert
  · rw [he]
    exact hinsert

lemma Linked.acceptClient {c : Conns} (hc : c.Linked) (fd : Fd) (nonblock registered : Bool) :
    (c.acceptClient fd nonblock registered).Linked := by
  intro g a hmem
  rcases c.acceptClient_cases fd nonblock registered with ⟨-, he⟩ | ⟨-, -, he⟩ | ⟨-, -, he⟩
  · have hreg : (g, a) ∈ c.readReg := by
      rw [he] at hmem
      exact List.mem_of_mem_filter hmem
    exact mem_acceptClient (hc g a hreg) fd nonblock registered
  · rw [he] at hmem ⊢
    rcases List.mem_cons.mp hmem with heq | hmem
    · cases heq
      exact (ClientList.nodes_insert c.clients ⟨fd⟩).symm ▸
        List.mem_append_right _ List.mem_cons_self
    · have hreg : (g, a) ∈ c.readReg := List.mem_of_mem_filter hmem
      exact (ClientList.nodes_insert c.clients ⟨fd⟩).symm ▸ List.mem_append_left _ (hc g a hreg)
  · have hreg : (g, a) ∈ c.readReg := by
      rw [he] at hmem
      exact List.mem_of_mem_filter hmem
    exact mem_acceptClient (hc g a hreg) fd nonblock registered

/-- After `close` on `fds` no event of them is registered. -/
lemma readReg_foldl_connClose {c : Conns} {fds : List Fd} {x : Fd × Addr}
    (h : x ∈ (fds.foldl connClose c).readReg) : x ∈ c.readReg ∧ x.1 ∉ fds := by
  induction fds generalizing c with
  | nil => exact ⟨h, List.not_mem_nil⟩
  | cons fd fds ih =>
    obtain ⟨hmem, hnot⟩ := ih (c := c.connClose fd) h
    simp only [connClose_readReg, List.mem_filter, decide_eq_true_eq] at hmem
    refine ⟨hmem.1, ?_⟩
    rw [List.mem_cons, not_or]
    exact ⟨hmem.2, hnot⟩

lemma Linked.freeList {c : Conns} (hc : c.Linked) : c.freeList.Linked := by
  intro g a hmem
  obtain ⟨hreg, hnot⟩ := readReg_foldl_connClose hmem
  rw [ClientList.freeList_fst] at hnot
  exact absurd (List.mem_map.mpr ⟨_, hc g a hreg, rfl⟩) hnot

end Conns

/-! ### The invariant -/

/-- The nodes of the READ events in the batch are in the list, and no event of the batch is of
the same descriptor and filter as another or as the one that is being handled. -/
structure BatchOk (lnFd : Fd) (c : Conns) (p : LoopPoint) : Prop where
  linked : c.Linked
  nodes : ∀ ident a, .read ident (some a) false ∈ p.left → ident ≠ lnFd →
    (a, ⟨ident⟩) ∈ c.clients.nodes
  keys : (p.left.map KEvent.key).Nodup
  reading : ∀ fd, p.readingFd = some fd → (fd, true) ∉ p.left.map KEvent.key

/-- The loop goes on with what is left of the batch, and the nodes of it stay in the list. -/
lemma BatchOk.leave {lnFd : Fd} {c c' : Conns} {p p' : LoopPoint} (h : BatchOk lnFd c p)
    (hlinked : c'.Linked) (hleft : List.Sublist p'.left p.left)
    (hnodes : ∀ ident a, .read ident (some a) false ∈ p'.left →
      (a, ⟨ident⟩) ∈ c.clients.nodes → (a, ⟨ident⟩) ∈ c'.clients.nodes)
    (hreading : ∀ fd, p'.readingFd = some fd → (fd, true) ∉ p'.left.map KEvent.key) :
    BatchOk lnFd c' p' where
  linked := hlinked
  nodes := fun ident a hmem hne => hnodes ident a hmem (h.nodes ident a (hleft.subset hmem) hne)
  keys := h.keys.sublist (hleft.map KEvent.key)
  reading := hreading

/-- The same where the connections do not change and no READ event is being handled. -/
lemma BatchOk.move {lnFd : Fd} {c : Conns} {p p' : LoopPoint} (h : BatchOk lnFd c p)
    (hleft : List.Sublist p'.left p.left) (hreading : p'.readingFd = none) :
    BatchOk lnFd c p' := by
  apply h.leave h.linked hleft (fun _ _ _ hnode => hnode)
  intro fd hfd
  rw [hreading] at hfd
  cases hfd

/-- A client is removed that has no READ event left in the batch. -/
lemma BatchOk.remove {lnFd : Fd} {c : Conns} {p p' : LoopPoint} (h : BatchOk lnFd c p) (fd : Fd)
    (hleft : List.Sublist p'.left p.left) (hreading : p'.readingFd = none)
    (hspares : ∀ a, .read fd (some a) false ∉ p'.left) : BatchOk lnFd (c.removeClient fd) p' := by
  apply h.leave (h.linked.removeClient fd) hleft
  · intro ident a hmem hnode
    apply Conns.mem_removeClient hnode
    rintro rfl
    exact hspares a hmem
  · intro g hg
    rw [hreading] at hg
    cases hg

/-- There is one READ event for each descriptor in a batch. -/
lemma not_mem_of_key {es : List KEvent} {fd : Fd} (h : (fd, true) ∉ es.map KEvent.key) (a : Addr) :
    .read fd (some a) false ∉ es :=
  fun hmem => h (List.mem_map.mpr ⟨_, hmem, rfl⟩)

namespace Server

variable {n : ℕ} {W : Type}

/-- The steps with which `write_to_client` removes its client. -/
def removes : Label n W → Bool
  | .loop .done => true
  | .loop (.send .error _) => true
  | .loop (.send (.sent 0) _) => true
  | _ => false

/-- `write_to_client` does not remove a client that has a READ event left in the batch. -/
def sparesBatch (s : Server n W) (l : Label n W) : Bool :=
  match s.loop with
  | .writing es t _ =>
    match s.tnodes t with
    | some node => !removes l || es.all fun
      | .read ident _ eof => ident != node.client.fd || eof
      | .write _ _ => true
    | none => true
  | _ => true

lemma not_mem_of_sparesBatch {s : Server n W} {l : Label n W} (h : s.sparesBatch l = true)
    {es : List KEvent} {t : Addr} {node : ThreadNode} {total : ℕ}
    (hloop : s.loop = .writing es t total) (hnode : s.tnodes t = some node)
    (hl : removes l = true) (a : Addr) : .read node.client.fd (some a) false ∉ es := by
  simp only [sparesBatch, hloop, hnode, hl, Bool.not_true, Bool.false_or, List.all_eq_true] at h
  intro hmem
  simpa using h _ hmem

lemma Moves.batchOk {app : App W} {s : Server n W} {p : LoopPoint} (h : s.Moves app p)
    (hs : BatchOk app.lnFd s.conns s.loop) : BatchOk app.lnFd s.conns p := by
  cases h with
  | listened ok h => cases ok <;> exact hs.move (List.nil_sublist _) rfl
  | tested h => cases s.shutdownSignal <;> exact hs.move (List.nil_sublist _) rfl
  | toAccept udata es h =>
    refine hs.move ?_ rfl
    rw [h]
    exact List.sublist_cons_self _ _
  | toRead ident a es node mem buf h hne hnode hbuf =>
    have hleft : s.loop.left = .read ident (some a) false :: es := by rw [h]; rfl
    have hkeys := hs.keys
    rw [hleft, List.map_cons, List.nodup_cons] at hkeys
    have hfd : node.client.fd = ident := by
      have hmem := hs.nodes ident a (hleft ▸ List.mem_cons_self) hne
      have heq := List.inj_on_of_nodup_map s.conns.clients.repr.nodup
        (ClientList.find_eq hnode) hmem rfl
      rw [Prod.mk.injEq] at heq
      rw [heq.2]
    apply hs.leave hs.linked (hleft ▸ List.sublist_cons_self _ _) (fun _ _ _ hnode => hnode)
    rintro fd ⟨⟩
    rw [hfd]
    exact hkeys.1
  | toWrite ident t es node h hnode =>
    refine hs.move ?_ rfl
    rw [h]
    exact List.sublist_cons_self _ _
  | accepted es h =>
    refine hs.move ?_ rfl
    rw [h]
    exact List.Sublist.refl _
  | received es client buf buf' chunks chunk mem h hbuf =>
    rw [h] at hs
    refine ⟨hs.linked, hs.nodes, hs.keys, ?_⟩
    rintro fd ⟨⟩
    exact hs.reading _ rfl
  | dropReading es client buf chunks h =>
    refine hs.move ?_ rfl
    rw [h]
    exact List.Sublist.refl _
  | _ => exact hs.move (List.nil_sublist _) rfl

lemma removes_of_gaveUp {r : SendResult} (hr : r ≠ .again ∧ ∀ k, r = .sent k → k = 0)
    (registered : Bool) : removes (.loop (.send r registered) : Label n W) = true := by
  cases r with
  | sent k =>
    obtain rfl := hr.2 k rfl
    rfl
  | again => exact absurd rfl hr.1
  | error => rfl

lemma batchOk_fetch {lnFd : Fd} {c : Conns} {es : List KEvent} (hc : c.Linked)
    (h : c.batch lnFd es = true) : BatchOk lnFd (c.fetch es) (.events es) := by
  simp only [Conns.batch, Bool.and_eq_true, decide_eq_true_eq, List.all_eq_true] at h
  obtain ⟨⟨-, hkeys⟩, hreg⟩ := h
  refine ⟨hc, fun ident a hmem hne => hc ident a ?_, hkeys, fun fd hfd => by cases hfd⟩
  simpa using hreg _ hmem

lemma Rule.batchOk {app : App W} {s s' : Server n W} {l : Label n W} (h : Rule app s l s')
    (hl : s.sparesBatch l = true) (hs : BatchOk app.lnFd s.conns s.loop) :
    BatchOk app.lnFd s'.conns s'.loop := by
  cases h with
  | move a p hp => exact hp.batchOk hs
  | fetch a es h hes => exact batchOk_fetch hs.linked hes
  | notBuilt es client buf chunks conn memTnode memBuffer memReq memResp h hmem =>
    rw [h] at hs
    exact hs.move (List.Sublist.refl _) rfl
  | eof a ident udata es h =>
    rw [h] at hs
    have hkeys := hs.keys
    rw [LoopPoint.left, List.map_cons, List.nodup_cons] at hkeys
    exact hs.remove ident (List.sublist_cons_self _ _) rfl (not_mem_of_key hkeys.1)
  | disconnected a es client buf chunks h =>
    rw [h] at hs
    exact hs.remove client.fd (List.Sublist.refl _) rfl (not_mem_of_key (hs.reading _ rfl))
  | accept es fd nonblock mem registered h hfree hne hmem =>
    apply hs.leave (hs.linked.acceptClient fd nonblock registered) (List.Sublist.refl _)
    · intro ident a _ hnode
      exact Conns.mem_acceptClient hnode fd nonblock registered
    · exact hs.reading
  | drained a es client buf chunks c h hc =>
    rw [h] at hs
    exact hs.move (List.Sublist.refl _) rfl
  | built a es client buf chunks conn mem buffer h hcopy hdata =>
    rw [h] at hs
    exact hs.move (List.Sublist.refl _) rfl
  | push es t mem ws r h hr =>
    rw [h] at hs
    exact hs.move (List.Sublist.refl _) rfl
  | sent a es t node resp total k c h hnode hresp hc hk hle =>
    rw [h] at hs
    exact hs.move (List.Sublist.refl _) rfl
  | again a es t node total registered h hnode =>
    rw [h] at hs
    have hmove : BatchOk app.lnFd s.conns (.events es) := hs.move (List.Sublist.refl _) rfl
    cases registered with
    | false => exact hmove
    | true => exact ⟨hmove.linked, hmove.nodes, hmove.keys, hmove.reading⟩
  | gaveUp es t node resp total r registered h hnode hresp hr =>
    have hspares := not_mem_of_sparesBatch hl h hnode (removes_of_gaveUp hr registered)
    rw [h] at hs
    exact hs.remove node.client.fd (List.Sublist.refl _) rfl hspares
  | done es t node resp total h hnode hresp hle =>
    have hspares := not_mem_of_sparesBatch hl h hnode rfl
    rw [h] at hs
    exact hs.remove node.client.fd (List.Sublist.refl _) rfl hspares
  | destroyRoute h => exact hs.move (List.nil_sublist _) rfl
  | destroyPool h => exact hs.move (List.nil_sublist _) rfl
  | freeList h =>
    refine ⟨hs.linked.freeList, fun ident a hmem => ?_, List.nodup_nil, fun fd hfd => ?_⟩
    · exact absurd hmem List.not_mem_nil
    · cases hfd
  | register i t client h hopen => exact ⟨hs.linked, hs.nodes, hs.keys, hs.reading⟩
  | _ => exact hs

/-- If `write_to_client` never removes a client that has a READ event left in the batch, then
whenever the next event is a READ event of a client, its node is in the list. -/
theorem read_node_in_list {app : App W} {ls : List (Label n W)} {s : Server n W}
    (hls : Along (step app) (fun s l => s.sparesBatch l = true) (init n W) ls)
    (h : run (step app) (init n W) ls = some s) :
    ∀ ident a es, s.loop = .events (.read ident (some a) false :: es) → ident ≠ app.lnFd →
      a ∈ s.conns.clients.nodes.map Prod.fst := by
  have hs : BatchOk app.lnFd s.conns s.loop := by
    refine invariant_along (P := fun s => BatchOk app.lnFd s.conns s.loop) ?_
      (fun _ _ _ _ hs hl hrule => hrule.batchOk hl hs) hls h
    exact ⟨Conns.linked_init, fun _ _ hmem => absurd hmem List.not_mem_nil, List.nodup_nil,
      fun fd hfd => by cases hfd⟩
  intro ident a es hloop hne
  rw [hloop] at hs
  exact List.mem_map.mpr ⟨_, hs.nodes ident a List.mem_cons_self hne, rfl⟩

/-- A client is answered and removed; the READ event of another client is left in the batch. -/
theorem read_node_in_list_two :
    ∃ s : Server 1 Unit, s.history.freed = [0] ∧ s.conns.readReg = [(6, 1)] ∧
      ∀ ident a es, s.loop = .events (.read ident (some a) false :: es) → ident ≠ Demo.app.lnFd →
        a ∈ s.conns.clients.nodes.map Prod.fst := by
  have hrun : ((run (step Demo.app) (init 1 Unit)
      (Demo.start ++ Demo.poll [.read 3 none false] ++ Demo.accept 5 ++ Demo.next ++
        Demo.poll [.read 3 none false, .read 5 (some 0) false] ++ Demo.accept 6 ++
        Demo.read Demo.request ++ Demo.next ++ Demo.answer ++ Demo.register ++
        Demo.poll [.write 5 0, .read 6 (some 1) false] ++ Demo.write 20)).map fun s =>
      (s.history.freed, s.conns.readReg)) = some ([0], [(6, 1)]) := by
    decide +kernel
  obtain ⟨s, hs, heq⟩ := Option.map_eq_some_iff.mp hrun
  rw [Prod.mk.injEq] at heq
  exact ⟨s, heq.1, heq.2, read_node_in_list (by decide +kernel) hs⟩

/-- A client sends a second request while its first is answered. The WRITE event comes before
the READ event in the batch; with the last byte of the answer the client is removed, and the READ
event is next with a node that is freed. -/
theorem read_node_freed :
    ∃ s : Server 1 Unit, run (step Demo.app) (init 1 Unit)
        (Demo.start ++ Demo.poll [.read 3 none false] ++ Demo.accept 5 ++ Demo.next ++
          Demo.poll [.read 5 (some 0) false] ++ Demo.read Demo.request ++ Demo.next ++
          Demo.answer ++ Demo.register ++
          Demo.poll [.write 5 0, .read 5 (some 0) false] ++ Demo.write 20) = some s ∧
      s.loop = .events [.read 5 (some 0) false] ∧ 0 ∉ s.conns.clients.nodes.map Prod.fst := by
  have hrun : ((run (step Demo.app) (init 1 Unit)
      (Demo.start ++ Demo.poll [.read 3 none false] ++ Demo.accept 5 ++ Demo.next ++
        Demo.poll [.read 5 (some 0) false] ++ Demo.read Demo.request ++ Demo.next ++
        Demo.answer ++ Demo.register ++
        Demo.poll [.write 5 0, .read 5 (some 0) false] ++ Demo.write 20)).map fun s =>
      (s.loop.betweenHandlers, s.loop.left, s.conns.clients.nodes)) =
      some (true, [.read 5 (some 0) false], []) := by
    decide +kernel
  obtain ⟨s, hs, heq⟩ := Option.map_eq_some_iff.mp hrun
  simp only [Prod.mk.injEq] at heq
  obtain ⟨hbetween, hleft, hnodes⟩ := heq
  refine ⟨s, hs, ?_, by simp [hnodes]⟩
  cases hloop : s.loop with
  | events es =>
    rw [hloop] at hleft
    rw [show es = _ from hleft]
  | _ => simp [hloop, LoopPoint.left, LoopPoint.betweenHandlers] at hleft hbetween

end Server

end Ccybe
