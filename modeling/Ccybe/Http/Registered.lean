import Ccybe.Http.Batch
import Ccybe.Http.Clients

/-!
# The kqueue and the open connections

An open connection has one READ event in the kqueue, with a node of the list that has its descriptor,
so that it can be read from; and the kqueue has no event of a descriptor that is closed. This does not
need the calls of `kevent` to succeed. When `serve_and_listen` has returned, all connections are closed
and the kqueue has no events of them.
-/

namespace Ccybe

open CSem Trace

namespace Conns

/-- The events in the kqueue are those of open connections, each open connection can be read from,
and there is one event for each descriptor and filter. -/
structure Registered (c : Conns) : Prop where
  readOpen : ∀ x ∈ c.readReg, (c.fds x.1).isSome
  writeOpen : ∀ x ∈ c.writeReg, (c.fds x.1).isSome
  readOnce : (c.readReg.map Prod.fst).Nodup
  writeOnce : (c.writeReg.map Prod.fst).Nodup
  readable : ∀ fd, (c.fds fd).isSome → ∃ a, (fd, a) ∈ c.readReg ∧ (a, ⟨fd⟩) ∈ c.clients.nodes

lemma registered_init : init.Registered where
  readOpen := by simp [init]
  writeOpen := by simp [init]
  readOnce := List.nodup_nil
  writeOnce := List.nodup_nil
  readable := by simp [init]

/-! ### What the functions do to the kqueue -/

/-- The events of the other descriptors stay. -/
lemma mem_filter_ne {l : List (Fd × Addr)} {fd : Fd} {x : Fd × Addr} :
    (x ∈ l.filter fun y => y.1 ≠ fd) ↔ x ∈ l ∧ x.1 ≠ fd := by
  simp

lemma nodup_filter_ne {l : List (Fd × Addr)} (h : (l.map Prod.fst).Nodup) (fd : Fd) :
    ((l.filter fun y => y.1 ≠ fd).map Prod.fst).Nodup :=
  h.sublist (List.filter_sublist.map _)

/-- An event replaces the one of the same descriptor. -/
lemma nodup_cons_filter_ne {l : List (Fd × Addr)} (h : (l.map Prod.fst).Nodup) (x : Fd × Addr) :
    ((x :: l.filter fun y => y.1 ≠ x.1).map Prod.fst).Nodup := by
  rw [List.map_cons, List.nodup_cons]
  refine ⟨fun hmem => ?_, nodup_filter_ne h x.1⟩
  obtain ⟨y, hy, heq⟩ := List.mem_map.mp hmem
  exact (mem_filter_ne.mp hy).2 heq

/-- `close` on a descriptor, with the list as `l` has it. -/
lemma Registered.close {c c' : Conns} (h : c.Registered) {fd : Fd}
    (hfds : c'.fds = Function.update c.fds fd none)
    (hread : c'.readReg = c.readReg.filter fun x => x.1 ≠ fd)
    (hwrite : c'.writeReg = c.writeReg.filter fun x => x.1 ≠ fd)
    (hnodes : ∀ g a, g ≠ fd → (a, ⟨g⟩) ∈ c.clients.nodes → (a, ⟨g⟩) ∈ c'.clients.nodes) :
    c'.Registered := by
  have hother : ∀ g, g ≠ fd → c'.fds g = c.fds g := fun g hg => by
    rw [hfds, Function.update_of_ne hg]
  constructor
  · intro x hx
    rw [hread, mem_filter_ne] at hx
    rw [hother x.1 hx.2]
    exact h.readOpen x hx.1
  · intro x hx
    rw [hwrite, mem_filter_ne] at hx
    rw [hother x.1 hx.2]
    exact h.writeOpen x hx.1
  · rw [hread]
    exact nodup_filter_ne h.readOnce fd
  · rw [hwrite]
    exact nodup_filter_ne h.writeOnce fd
  · intro g hg
    have hgfd : g ≠ fd := by
      rintro rfl
      simp [hfds] at hg
    rw [hother g hgfd] at hg
    obtain ⟨a, hreg, hnode⟩ := h.readable g hg
    rw [hread]
    exact ⟨a, mem_filter_ne.mpr ⟨hreg, hgfd⟩, hnodes g a hgfd hnode⟩

lemma Registered.removeClient {c : Conns} (h : c.Registered) (fd : Fd) :
    (c.removeClient fd).Registered := by
  rcases c.removeClient_cases fd with ⟨-, he⟩ | ⟨a, -, he⟩
  · rw [he]
    exact h
  · refine h.close (by rw [he]; rfl) (by rw [he]; rfl) (by rw [he]; rfl) fun g b hg hnode => ?_
    exact mem_removeClient hnode hg

/-- A descriptor that is not open has no events. -/
lemma Registered.filter_eq {c : Conns} (h : c.Registered) {fd : Fd} (hfree : c.fds fd = none) :
    (c.readReg.filter fun x => x.1 ≠ fd) = c.readReg ∧
      (c.writeReg.filter fun x => x.1 ≠ fd) = c.writeReg := by
  have hne : ∀ x : Fd × Addr, (c.fds x.1).isSome → decide (x.1 ≠ fd) = true := by
    intro x hx
    rw [decide_eq_true_eq]
    rintro rfl
    rw [hfree] at hx
    cases hx
  exact ⟨List.filter_eq_self.mpr fun x hx => hne x (h.readOpen x hx),
    List.filter_eq_self.mpr fun x hx => hne x (h.writeOpen x hx)⟩

/-- The descriptor that `accept` returns becomes readable, or is closed again. -/
lemma Registered.acceptClient {c : Conns} (h : c.Registered) {fd : Fd} (hfree : c.fds fd = none)
    (nonblock registered : Bool) : (c.acceptClient fd nonblock registered).Registered := by
  obtain ⟨hread, hwrite⟩ := h.filter_eq hfree
  have hclosed : Function.update (Function.update c.fds fd (some c.accepts)) fd none =
      Function.update c.fds fd none := Function.update_idem _ _ _
  have hnodes := ClientList.nodes_insert c.clients ⟨fd⟩
  have hkept : ∀ g a, (a, (⟨g⟩ : Client)) ∈ c.clients.nodes → (a, ⟨g⟩) ∈ (c.clients.insert ⟨fd⟩).nodes :=
    fun g a hnode => hnodes ▸ List.mem_append_left _ hnode
  rcases c.acceptClient_cases fd nonblock registered with ⟨-, he⟩ | ⟨-, -, he⟩ | ⟨-, -, he⟩
  · rw [he]
    exact h.close hclosed rfl rfl fun g a _ hnode => hnode
  · rw [he]
    have hother : ∀ g, g ≠ fd → Function.update c.fds fd (some c.accepts) g = c.fds g :=
      fun g hg => Function.update_of_ne hg _ _
    have hopen : ∀ g, (c.fds g).isSome → (Function.update c.fds fd (some c.accepts) g).isSome := by
      intro g hg
      by_cases hgfd : g = fd
      · rw [hgfd, Function.update_self]
        rfl
      · rwa [hother g hgfd]
    constructor
    · intro x hx
      rcases List.mem_cons.mp hx with rfl | hx
      · exact (congrArg Option.isSome (Function.update_self fd _ c.fds)).trans rfl
      · exact hopen x.1 (h.readOpen x (mem_filter_ne.mp hx).1)
    · exact fun x hx => hopen x.1 (h.writeOpen x hx)
    · exact nodup_cons_filter_ne h.readOnce (fd, c.clients.next)
    · exact h.writeOnce
    · intro g hg
      by_cases hgfd : g = fd
      · subst hgfd
        exact ⟨c.clients.next, List.mem_cons_self, hnodes ▸ List.mem_append_right _ List.mem_cons_self⟩
      · have hold : (c.fds g).isSome := hother g hgfd ▸ hg
        obtain ⟨a, hreg, hnode⟩ := h.readable g hold
        exact ⟨a, List.mem_cons_of_mem _ (mem_filter_ne.mpr ⟨hreg, hgfd⟩), hkept g a hnode⟩
  · rw [he]
    exact h.close hclosed rfl rfl fun g a _ hnode => hkept g a hnode

lemma Registered.addWrite {c : Conns} (h : c.Registered) {fd : Fd} (hopen : (c.fds fd).isSome)
    (t : Addr) : (c.addWrite fd t).Registered where
  readOpen := h.readOpen
  writeOpen := by
    intro x hx
    rcases List.mem_cons.mp hx with rfl | hx
    · exact hopen
    · exact h.writeOpen x (mem_filter_ne.mp hx).1
  readOnce := h.readOnce
  writeOnce := nodup_cons_filter_ne h.writeOnce (fd, t)
  readable := h.readable

lemma Registered.fetch {c : Conns} (h : c.Registered) (es : List KEvent) : (c.fetch es).Registered where
  readOpen := h.readOpen
  writeOpen := fun x hx => h.writeOpen x (List.mem_of_mem_filter hx)
  readOnce := h.readOnce
  writeOnce := h.writeOnce.sublist (List.filter_sublist.map _)
  readable := h.readable

lemma fds_foldl_connClose {c : Conns} {fds : List Fd} {fd : Fd}
    (h : ((fds.foldl connClose c).fds fd).isSome) : fd ∉ fds ∧ (c.fds fd).isSome := by
  induction fds generalizing c with
  | nil => exact ⟨List.not_mem_nil, h⟩
  | cons g fds ih =>
    obtain ⟨hnot, hopen⟩ := ih (c := c.connClose g) h
    obtain ⟨hne, hopen⟩ := isSome_of_connClose hopen
    rw [List.mem_cons, not_or]
    exact ⟨⟨hne, hnot⟩, hopen⟩

lemma writeReg_foldl_connClose {c : Conns} {fds : List Fd} {x : Fd × Addr}
    (h : x ∈ (fds.foldl connClose c).writeReg) : x ∈ c.writeReg ∧ x.1 ∉ fds := by
  induction fds generalizing c with
  | nil => exact ⟨h, List.not_mem_nil⟩
  | cons fd fds ih =>
    obtain ⟨hmem, hnot⟩ := ih (c := c.connClose fd) h
    obtain ⟨hmem, hne⟩ := mem_filter_ne.mp hmem
    rw [List.mem_cons, not_or]
    exact ⟨hmem, hne, hnot⟩

/-- `free_list` closes all connections, and the kqueue forgets their events. -/
lemma Registered.freeList {c : Conns} (h : c.Registered) :
    (∀ fd, c.freeList.fds fd = none) ∧ c.freeList.readReg = [] ∧ c.freeList.writeReg = [] := by
  have hlisted : ∀ fd, (c.fds fd).isSome → fd ∈ c.clients.freeList.1 := by
    intro fd hfd
    obtain ⟨a, -, hnode⟩ := h.readable fd hfd
    rw [ClientList.freeList_fst]
    exact List.mem_map.mpr ⟨_, hnode, rfl⟩
  refine ⟨fun fd => ?_, List.eq_nil_iff_forall_not_mem.mpr fun x hx => ?_,
    List.eq_nil_iff_forall_not_mem.mpr fun x hx => ?_⟩
  · rw [← Option.not_isSome_iff_eq_none]
    intro hfd
    obtain ⟨hnot, hopen⟩ := fds_foldl_connClose hfd
    exact hnot (hlisted fd hopen)
  · obtain ⟨hreg, hnot⟩ := readReg_foldl_connClose hx
    exact hnot (hlisted x.1 (h.readOpen x hreg))
  · obtain ⟨hreg, hnot⟩ := writeReg_foldl_connClose hx
    exact hnot (hlisted x.1 (h.writeOpen x hreg))

/-- Where no connection is open and no event is left, all is in order. -/
lemma registered_of_closed {c : Conns} (hfds : ∀ fd, c.fds fd = none) (hread : c.readReg = [])
    (hwrite : c.writeReg = []) : c.Registered where
  readOpen := by simp [hread]
  writeOpen := by simp [hwrite]
  readOnce := by simp [hread]
  writeOnce := by simp [hwrite]
  readable := by simp [hfds]

end Conns

/-! ### Along runs -/

namespace Server

variable {n : ℕ} {W : Type}

/-- `write_to_client` on a client that is closed leaves the kqueue alone, or calls `remove_client`. -/
lemma conns_of_writing {app : App W} {s s' : Server n W} {a : LoopStep n} {es : List KEvent} {t : Addr}
    {node : ThreadNode} {total : ℕ} (h : s.step app (.loop a) = some s')
    (hloop : s.loop = .writing es t total) (hnode : s.tnodes t = some node)
    (hclosed : s.conns.fds node.client.fd = none) :
    s'.conns = s.conns ∨ s'.conns = s.conns.removeClient node.client.fd := by
  unfold step at h
  split_ifs at h
  simp only [loopStep, hloop, hnode] at h
  split at h
  all_goals try contradiction
  · -- `send`
    split at h
    · cases h
      exact .inl rfl
    · split_ifs at h
      simp only [send, hclosed] at h
      split at h
      all_goals try contradiction
      cases h
      exact .inr rfl
  · -- the end of the loop
    split at h
    · cases h
      exact .inl rfl
    · split_ifs at h
      cases h
      exact .inr rfl

/-- The kqueue and the list are right, and after `free_list` no connection is open. -/
def ConnsRight (s : Server n W) : Prop :=
  s.conns.Registered ∧ ∀ list, s.loop = .returned list → ∀ fd, s.conns.fds fd = none

lemma step_connsRight {app : App W} {s s' : Server n W} {l : Label n W} (h : s.step app l = some s')
    (hs : s.ConnsRight) : s'.ConnsRight := by
  obtain ⟨hreg, hreturned⟩ := hs
  cases (Rule.of_step h).2 with
  | eof a ident udata es hloop => exact ⟨hreg.removeClient ident, fun _ hret => by cases hret⟩
  | disconnected a es client buf chunks hloop =>
    exact ⟨hreg.removeClient client.fd, fun _ hret => by cases hret⟩
  | accept es fd nonblock mem registered hloop hfree hne hmem =>
    refine ⟨hreg.acceptClient hfree nonblock registered, fun list hret => ?_⟩
    rw [show s.loop = .returned list from hret] at hloop
    cases hloop
  | gaveUp es t node resp total r registered hloop hnode hresp hr =>
    exact ⟨hreg.removeClient node.client.fd, fun _ hret => by cases hret⟩
  | done es t node resp total hloop hnode hresp hle =>
    exact ⟨hreg.removeClient node.client.fd, fun _ hret => by cases hret⟩
  | again a es t node total registered hloop hnode =>
    refine ⟨?_, fun _ hret => by cases hret⟩
    rcases Option.eq_none_or_eq_some (s.conns.fds node.client.fd) with hclosed | ⟨c, hc⟩
    · rcases conns_of_writing h hloop hnode hclosed with heq | heq
      · exact (congrArg Conns.Registered heq).mpr hreg
      · exact (congrArg Conns.Registered heq).mpr (hreg.removeClient node.client.fd)
    · cases registered with
      | false => exact hreg
      | true => exact hreg.addWrite (by rw [hc]; rfl) t
  | fetch a es hloop hes => exact ⟨hreg.fetch es, fun _ hret => by cases hret⟩
  | freeList hloop =>
    obtain ⟨hfds, hread, hwrite⟩ := hreg.freeList
    exact ⟨Conns.registered_of_closed hfds hread hwrite, fun _ _ => hfds⟩
  | register i t client hi hopen => exact ⟨hreg.addWrite hopen t, hreturned⟩
  | move a p hp =>
    refine ⟨hreg, fun list hret => ?_⟩
    have hret : p = .returned list := hret
    cases hp with
    | listened ok h => cases ok <;> cases hret
    | tested h => cases hsignal : s.shutdownSignal <;> simp [hsignal] at hret
    | _ => cases hret
  | signal => exact ⟨hreg, hreturned⟩
  | fault => exact ⟨hreg, hreturned⟩
  | enter => exact ⟨hreg, hreturned⟩
  | wake => exact ⟨hreg, hreturned⟩
  | handle => exact ⟨hreg, hreturned⟩
  | generate => exact ⟨hreg, hreturned⟩
  | finish => exact ⟨hreg, hreturned⟩
  | _ => exact ⟨hreg, fun _ hret => by cases hret⟩

lemma Reachable.connsRight {app : App W} {s : Server n W} (h : Reachable app s) : s.ConnsRight :=
  Reaches.invariant (fun _ _ _ hs hstep => step_connsRight hstep hs) h
    ⟨Conns.registered_init, fun _ hret => by cases hret⟩

lemma eq_of_nodup_fst {l : List (Fd × Addr)} (h : (l.map Prod.fst).Nodup) {fd : Fd} {a b : Addr}
    (ha : (fd, a) ∈ l) (hb : (fd, b) ∈ l) : a = b := by
  have heq := List.inj_on_of_nodup_map h ha hb rfl
  rw [Prod.mk.injEq] at heq
  exact heq.2

/-- In all states a descriptor is open if and only if the kqueue has a READ event of it. There is one
such event then, with a node of the list that has this descriptor; and a descriptor has at most one
WRITE event, and none when it is closed. -/
theorem connections_readable {app : App W} {s : Server n W} (h : Reachable app s) (fd : Fd) :
    ((s.conns.fds fd).isSome ↔ ∃ a, (fd, a) ∈ s.conns.readReg) ∧
      (∀ a, (fd, a) ∈ s.conns.readReg →
        (a, ⟨fd⟩) ∈ s.conns.clients.nodes ∧ ∀ b, (fd, b) ∈ s.conns.readReg → b = a) ∧
      ∀ t, (fd, t) ∈ s.conns.writeReg →
        (s.conns.fds fd).isSome ∧ ∀ u, (fd, u) ∈ s.conns.writeReg → u = t := by
  obtain ⟨hreg, -⟩ := h.connsRight
  refine ⟨⟨fun hopen => ?_, ?_⟩, fun a ha => ⟨?_, fun b hb => ?_⟩, fun t ht => ⟨?_, fun u hu => ?_⟩⟩
  · obtain ⟨a, ha, -⟩ := hreg.readable fd hopen
    exact ⟨a, ha⟩
  · rintro ⟨a, ha⟩
    exact hreg.readOpen _ ha
  · obtain ⟨b, hb, hnode⟩ := hreg.readable fd (hreg.readOpen _ ha)
    obtain rfl := eq_of_nodup_fst hreg.readOnce ha hb
    exact hnode
  · exact eq_of_nodup_fst hreg.readOnce hb ha
  · exact hreg.writeOpen _ ht
  · exact eq_of_nodup_fst hreg.writeOnce hu ht

/-- A client is accepted, and `kevent` fails for a second one. -/
theorem connections_readable_accept :
    ∃ s : Server 1 Unit, s.conns.accepts = 2 ∧ (s.conns.fds 5).isSome ∧ s.conns.fds 6 = none ∧
      ((s.conns.fds 5).isSome ↔ ∃ a, (5, a) ∈ s.conns.readReg) ∧
      ((s.conns.fds 6).isSome ↔ ∃ a, (6, a) ∈ s.conns.readReg) := by
  have hrun : ((run (step Demo.app) (init 1 Unit)
      (Demo.start ++ Demo.poll [.read 3 none false] ++ Demo.acceptTwo 5 6 false)).map fun s =>
      (s.conns.accepts, (s.conns.fds 5).isSome, s.conns.fds 6)) = some (2, true, none) := by
    decide
  obtain ⟨s, hs, heq⟩ := Option.map_eq_some_iff.mp hrun
  simp only [Prod.mk.injEq] at heq
  have hreach : Reachable Demo.app s := ⟨_, hs⟩
  exact ⟨s, heq.1, heq.2.1, heq.2.2, (connections_readable hreach 5).1,
    (connections_readable hreach 6).1⟩

/-- Where all connections are closed the kqueue is empty. -/
lemma events_of_closed {s : Server n W} (h : s.conns.Registered) (hclosed : ∀ fd, s.conns.fds fd = none) :
    s.conns.readReg = [] ∧ s.conns.writeReg = [] := by
  refine ⟨List.eq_nil_iff_forall_not_mem.mpr fun x hx => ?_,
    List.eq_nil_iff_forall_not_mem.mpr fun x hx => ?_⟩
  · have hopen := h.readOpen x hx
    rw [hclosed] at hopen
    cases hopen
  · have hopen := h.writeOpen x hx
    rw [hclosed] at hopen
    cases hopen

/-- When `serve_and_listen` returns, all connections are closed and the kqueue is empty, also where
calls of `kevent` and `fcntl` have failed. -/
theorem returned_closed {app : App W} {s : Server n W} {list : LList} (h : Reachable app s)
    (hloop : s.loop = .returned list) :
    (∀ fd, s.conns.fds fd = none) ∧ s.conns.readReg = [] ∧ s.conns.writeReg = [] := by
  obtain ⟨hreg, hreturned⟩ := h.connsRight
  have hclosed := hreturned list hloop
  exact ⟨hclosed, events_of_closed hreg hclosed⟩

/-- The server stops with a client that is open, and with one for which `kevent` has failed. -/
theorem returned_closed_signal :
    ∃ s : Server 1 Unit, s.conns.accepts = 2 ∧
      (∀ fd, s.conns.fds fd = none) ∧ s.conns.readReg = [] ∧ s.conns.writeReg = [] := by
  have hrun : ((run (step Demo.app) (init 1 Unit)
      (Demo.start ++ Demo.poll [.read 3 none false] ++ Demo.acceptTwo 5 6 false ++ Demo.stop ++
        Demo.join ++ Demo.freeList)).map fun s =>
      (s.conns.accepts, s.loop matches .returned _)) = some (2, true) := by
    decide
  obtain ⟨s, hs, heq⟩ := Option.map_eq_some_iff.mp hrun
  rw [Prod.mk.injEq] at heq
  obtain ⟨haccepts, hloop⟩ := heq
  refine ⟨s, haccepts, ?_⟩
  cases hpoint : s.loop with
  | returned list => exact returned_closed ⟨_, hs⟩ hpoint
  | _ => simp [hpoint] at hloop

end Server

end Ccybe
