import Ccybe.Http.Steps

/-!
# The list of clients and the open connections

As long as `accept_client` can register the READ event of every client, the list holds each open
connection once and nothing else, and no descriptor is closed that is not open. Where `kevent`
fails there, the connection is closed but its node stays in the list.
-/

namespace Ccybe

open CSem Trace

/-! ### Descriptors in the history -/

/-- No descriptor is closed twice without an `accept` that returns it in between. -/
def ClosesOnce (log : List FdOp) : Prop :=
  ∀ xs ys zs fd, log = xs ++ .closed fd :: (ys ++ .closed fd :: zs) → .accepted fd ∈ ys

/-- Since it was last closed, the descriptor was returned by an `accept`. -/
def LastAccepted (log : List FdOp) (fd : Fd) : Prop :=
  ∀ xs ys, log = xs ++ .closed fd :: ys → .accepted fd ∈ ys

lemma lastAccepted_accepted (log : List FdOp) (fd : Fd) :
    LastAccepted (log ++ [.accepted fd]) fd := by
  intro xs ys h
  induction ys using List.reverseRecOn with
  | nil =>
    obtain ⟨-, h⟩ := List.append_inj' h rfl
    cases h
  | append_singleton ys op _ =>
    rw [← List.cons_append, ← List.append_assoc] at h
    obtain ⟨-, h⟩ := List.append_inj' h rfl
    cases h
    exact List.mem_append_right ys List.mem_cons_self

lemma LastAccepted.append {log : List FdOp} {fd : Fd} (h : LastAccepted log fd) {op : FdOp}
    (hop : op ≠ .closed fd) : LastAccepted (log ++ [op]) fd := by
  intro xs ys hlog
  induction ys using List.reverseRecOn with
  | nil =>
    obtain ⟨-, heq⟩ := List.append_inj' hlog rfl
    cases heq
    exact absurd rfl hop
  | append_singleton ys op' _ =>
    rw [← List.cons_append, ← List.append_assoc] at hlog
    obtain ⟨hlog, -⟩ := List.append_inj' hlog rfl
    exact List.mem_append_left _ (h xs ys hlog)

lemma ClosesOnce.append {log : List FdOp} (h : ClosesOnce log) {op : FdOp}
    (hop : ∀ fd, op = .closed fd → LastAccepted log fd) : ClosesOnce (log ++ [op]) := by
  intro xs ys zs fd hlog
  induction zs using List.reverseRecOn with
  | nil =>
    rw [← List.cons_append, ← List.append_assoc] at hlog
    obtain ⟨hlog, heq⟩ := List.append_inj' hlog rfl
    exact hop fd (List.singleton_inj.mp heq) xs ys hlog
  | append_singleton zs op' _ =>
    have hsplit : xs ++ FdOp.closed fd :: (ys ++ FdOp.closed fd :: (zs ++ [op'])) =
        (xs ++ FdOp.closed fd :: (ys ++ FdOp.closed fd :: zs)) ++ [op'] := by simp
    rw [hsplit] at hlog
    obtain ⟨hlog, -⟩ := List.append_inj' hlog rfl
    exact h xs ys zs fd hlog

/-! ### List and descriptors agree -/

namespace Conns

/-- The descriptors in the list are pairwise distinct and open, each open connection is in the
list once, and no descriptor was closed twice in a row. -/
def Consistent (c : Conns) : Prop :=
  (c.clients.nodes.map fun x => x.2.fd).Nodup ∧
    (∀ x ∈ c.clients.nodes, (c.fds x.2.fd).isSome) ∧
    (∀ fd, (c.fds fd).isSome → (c.clients.nodes.map fun x => x.2.fd).count fd = 1) ∧
    ClosesOnce c.log

/-- The invariant behind `Consistent`; it also says which connection each node is for. -/
structure Agree (c : Conns) : Prop where
  nodup : (c.clients.nodes.map fun x => x.2.fd).Nodup
  fds_eq : ∀ x ∈ c.clients.nodes, c.fds x.2.fd = some (c.serial x.1)
  listed : ∀ fd, (c.fds fd).isSome → fd ∈ c.clients.nodes.map fun x => x.2.fd
  last : ∀ fd, (c.fds fd).isSome → LastAccepted c.log fd
  once : ClosesOnce c.log

lemma agree_init : init.Agree where
  nodup := List.nodup_nil
  fds_eq := by simp [init]
  listed := by simp [init]
  last := by simp [init]
  once := by simp [ClosesOnce, init]

lemma Agree.isSome {c : Conns} (hc : c.Agree) {x : Addr × Client} (hx : x ∈ c.clients.nodes) :
    (c.fds x.2.fd).isSome := by
  rw [hc.fds_eq x hx]
  rfl

lemma Agree.consistent {c : Conns} (hc : c.Agree) : c.Consistent := by
  refine ⟨hc.nodup, fun x hx => hc.isSome hx, fun fd hfd => ?_, hc.once⟩
  exact List.count_eq_one_of_mem hc.nodup (hc.listed fd hfd)

/-- What is known of the descriptors that are open after a `close`. -/
lemma isSome_of_connClose {c : Conns} {fd g : Fd} (h : ((c.connClose fd).fds g).isSome) :
    g ≠ fd ∧ (c.fds g).isSome := by
  by_cases hg : g = fd
  · simp [hg] at h
  · exact ⟨hg, by simpa [hg] using h⟩

lemma Agree.last_connClose {c : Conns} (hc : c.Agree) {fd g : Fd}
    (h : ((c.connClose fd).fds g).isSome) : LastAccepted (c.connClose fd).log g := by
  obtain ⟨hg, hopen⟩ := isSome_of_connClose h
  apply (hc.last g hopen).append
  rintro ⟨⟩
  exact hg rfl

lemma Agree.once_connClose {c : Conns} (hc : c.Agree) {fd : Fd} (h : (c.fds fd).isSome) :
    ClosesOnce (c.connClose fd).log := by
  apply hc.once.append
  rintro g ⟨⟩
  exact hc.last fd h

/-- With pairwise distinct descriptors, the node that `search_client` finds is the only one. -/
lemma Agree.eq_of_fd {c : Conns} (hc : c.Agree) {x y : Addr × Client} (hx : x ∈ c.clients.nodes)
    (hy : y ∈ c.clients.nodes) (h : x.2.fd = y.2.fd) : x = y :=
  List.inj_on_of_nodup_map hc.nodup hx hy h

lemma Agree.removeClient {c : Conns} (hc : c.Agree) (fd : Fd) : (c.removeClient fd).Agree := by
  rcases c.removeClient_cases fd with ⟨-, h⟩ | ⟨a, hsearch, h⟩
  · rw [h]
    exact hc
  · rw [h]
    obtain ⟨client, hmem, hfd⟩ := ClientList.search_some hsearch
    have hopen : (c.fds fd).isSome := hfd ▸ hc.isSome hmem
    have hne : ∀ x ∈ c.clients.nodes, x.1 ≠ a → x.2.fd ≠ fd := by
      intro x hx hxa hxfd
      have heq := hc.eq_of_fd hx hmem (hxfd.trans hfd.symm)
      rw [heq] at hxa
      exact hxa rfl
    constructor
    · simp only [ClientList.nodes_remove]
      exact hc.nodup.sublist (List.filter_sublist.map _)
    · intro x hx
      simp only [ClientList.nodes_remove, List.mem_filter, decide_eq_true_eq] at hx
      simpa [hne x hx.1 hx.2] using hc.fds_eq x hx.1
    · intro g hg
      obtain ⟨hgfd, hg⟩ := isSome_of_connClose hg
      obtain ⟨x, hx, rfl⟩ := List.mem_map.mp (hc.listed g hg)
      refine List.mem_map.mpr ⟨x, ?_, rfl⟩
      simp only [ClientList.nodes_remove, List.mem_filter, decide_eq_true_eq]
      refine ⟨hx, fun hxa => ?_⟩
      have heq : x = (a, client) :=
        List.inj_on_of_nodup_map c.clients.repr.nodup hx hmem hxa
      rw [heq] at hgfd
      exact hgfd hfd
    · intro g hg
      exact hc.last_connClose hg
    · exact hc.once_connClose hopen

/-- `accept_client`, where the event is registered or the connection is closed before it comes
into the list. -/
lemma Agree.acceptClient {c : Conns} (hc : c.Agree) {fd : Fd} (hfree : c.fds fd = none)
    {nonblock registered : Bool} (hreg : nonblock = true → registered = true) :
    (c.acceptClient fd nonblock registered).Agree := by
  have hnew : ∀ x ∈ c.clients.nodes, x.2.fd ≠ fd := by
    intro x hx hxfd
    have hopen := hc.isSome hx
    rw [hxfd, hfree] at hopen
    cases hopen
  have honce : ClosesOnce (c.accept fd).log := by
    apply hc.once.append
    rintro g ⟨⟩
  have hlast : ∀ g, ((c.accept fd).fds g).isSome → LastAccepted (c.accept fd).log g := by
    intro g hg
    by_cases hgfd : g = fd
    · subst hgfd
      exact lastAccepted_accepted _ _
    · apply (hc.last g (by simpa [accept, hgfd] using hg)).append
      rintro ⟨⟩
  rcases c.acceptClient_cases fd nonblock registered with ⟨-, h⟩ | ⟨-, -, h⟩ | ⟨hn, hr, -⟩
  · -- the connection is closed at once
    rw [h]
    have hfds : ((c.accept fd).connClose fd).fds = c.fds := by
      funext g
      by_cases hg : g = fd
      · simp [hg, hfree]
      · simp [accept, hg]
    constructor
    · exact hc.nodup
    · rw [hfds]
      exact hc.fds_eq
    · rw [hfds]
      exact hc.listed
    · intro g hg
      obtain ⟨hgfd, hg⟩ := isSome_of_connClose hg
      apply (hlast g hg).append
      rintro ⟨⟩
      exact hgfd rfl
    · apply honce.append
      rintro g ⟨⟩
      exact lastAccepted_accepted _ _
  · -- it comes into the list and the kqueue
    rw [h]
    have hnodes : (((c.accept fd).insertClient fd c.accepts).addRead fd c.clients.next).clients.nodes
        = c.clients.nodes ++ [(c.clients.next, ⟨fd⟩)] :=
      ClientList.nodes_insert c.clients ⟨fd⟩
    constructor
    · rw [hnodes, List.map_append, List.nodup_append]
      refine ⟨hc.nodup, List.nodup_singleton _, ?_⟩
      intro g hg g' hg'
      obtain ⟨x, hx, rfl⟩ := List.mem_map.mp hg
      rw [List.map_singleton, List.mem_singleton] at hg'
      rw [hg']
      exact hnew x hx
    · intro x hx
      rw [hnodes, List.mem_append, List.mem_singleton] at hx
      rcases hx with hx | rfl
      · have hxa : x.1 ≠ c.clients.next := (c.clients.fresh x hx).ne
        have hxfd := hnew x hx
        simpa [addRead, insertClient, accept, hxa, hxfd] using hc.fds_eq x hx
      · simp [addRead, insertClient, accept]
    · intro g hg
      rw [hnodes, List.map_append, List.mem_append]
      by_cases hgfd : g = fd
      · exact .inr (by simp [hgfd])
      · exact .inl (hc.listed g (by simpa [addRead, insertClient, accept, hgfd] using hg))
    · exact hlast
    · exact honce
  · -- the event is not registered
    rw [hreg hn] at hr
    cases hr

/-- All descriptors of `fds` are open, and each is closed once. -/
lemma Agree.foldl_connClose {c : Conns} {fds : List Fd}
    (hlast : ∀ fd, (c.fds fd).isSome → LastAccepted c.log fd) (honce : ClosesOnce c.log)
    (hopen : ∀ fd ∈ fds, (c.fds fd).isSome) (hnodup : fds.Nodup) :
    (∀ fd, ((fds.foldl connClose c).fds fd).isSome →
      fd ∉ fds ∧ (c.fds fd).isSome ∧ LastAccepted (fds.foldl connClose c).log fd) ∧
    ClosesOnce (fds.foldl connClose c).log := by
  induction fds generalizing c with
  | nil => exact ⟨fun fd h => ⟨List.not_mem_nil, h, hlast fd h⟩, honce⟩
  | cons f fds ih =>
    obtain ⟨hf, hnodup⟩ := List.nodup_cons.mp hnodup
    have hne : ∀ fd ∈ fds, fd ≠ f := fun fd hfd heq => hf (heq ▸ hfd)
    obtain ⟨hrest, honce'⟩ := ih (c := c.connClose f)
      (by
        intro g hg
        obtain ⟨hgf, hg⟩ := isSome_of_connClose hg
        apply (hlast g hg).append
        rintro ⟨⟩
        exact hgf rfl)
      (by
        apply honce.append
        rintro g ⟨⟩
        exact hlast f (hopen f List.mem_cons_self))
      (by
        intro g hg
        simpa [hne g hg] using hopen g (List.mem_cons_of_mem f hg))
      hnodup
    refine ⟨fun g hg => ?_, honce'⟩
    obtain ⟨hgfds, hg, hglast⟩ := hrest g hg
    obtain ⟨hgf, hg⟩ := isSome_of_connClose hg
    refine ⟨?_, hg, hglast⟩
    rw [List.mem_cons, not_or]
    exact ⟨hgf, hgfds⟩

lemma Agree.freeList {c : Conns} (hc : c.Agree) : c.freeList.Agree := by
  have hopen : ∀ fd ∈ c.clients.freeList.1, (c.fds fd).isSome := by
    intro fd hfd
    rw [ClientList.freeList_fst] at hfd
    obtain ⟨x, hx, rfl⟩ := List.mem_map.mp hfd
    exact hc.isSome hx
  have hnodup : c.clients.freeList.1.Nodup := by
    rw [ClientList.freeList_fst]
    exact hc.nodup
  obtain ⟨hclosed, honce⟩ := Agree.foldl_connClose hc.last hc.once hopen hnodup
  constructor
  · exact List.nodup_nil
  · intro x hx
    exact absurd hx List.not_mem_nil
  · intro fd hfd
    obtain ⟨hnot, hfd, -⟩ := hclosed fd hfd
    rw [ClientList.freeList_fst] at hnot
    exact absurd (hc.listed fd hfd) hnot
  · intro fd hfd
    exact (hclosed fd hfd).2.2
  · exact honce

end Conns

/-! ### Along runs -/

namespace Server

variable {n : ℕ} {W : Type}

/-- `kevent` does not fail in `accept_client`. -/
def Registers (_ : Server n W) (l : Label n W) : Prop :=
  ∀ fd, l ≠ .loop (.accept (.conn fd true true false))

lemma Rule.agree {app : App W} {s s' : Server n W} {l : Label n W} (h : Rule app s l s')
    (hl : s.Registers l) (hs : s.conns.Agree) : s'.conns.Agree := by
  cases h with
  | eof a ident udata es h => exact hs.removeClient ident
  | disconnected a es client buf chunks h => exact hs.removeClient client.fd
  | accept es fd nonblock mem registered h hfree hne hmem =>
    apply hs.acceptClient hfree
    rintro rfl
    obtain rfl := hmem rfl
    by_contra hr
    rw [Bool.not_eq_true] at hr
    subst hr
    exact hl fd rfl
  | gaveUp es t node resp total r registered h hnode hresp hr => exact hs.removeClient node.client.fd
  | done es t node resp total h hnode hresp hle => exact hs.removeClient node.client.fd
  | freeList h => exact hs.freeList
  | again a es t node total registered h hnode =>
    cases registered with
    | false => exact hs
    | true => exact ⟨hs.nodup, hs.fds_eq, hs.listed, hs.last, hs.once⟩
  | fetch a es h hes => exact ⟨hs.nodup, hs.fds_eq, hs.listed, hs.last, hs.once⟩
  | register i t client h hopen => exact ⟨hs.nodup, hs.fds_eq, hs.listed, hs.last, hs.once⟩
  | _ => exact hs

lemma agree_along {app : App W} {ls : List (Label n W)} {s : Server n W}
    (hls : Along (step app) Registers (init n W) ls)
    (h : run (step app) (init n W) ls = some s) : s.conns.Agree :=
  invariant_along (P := fun s => s.conns.Agree) Conns.agree_init
    (fun _ _ _ _ hs hl hrule => hrule.agree hl hs) hls h

/-- A node whose event is not registered stays in the list with a closed descriptor. -/
lemma not_consistent_of_unregistered {app : App W} {s s' : Server n W} {fd : Fd}
    (h : s.step app (.loop (.accept (.conn fd true true false))) = some s') :
    ¬ s'.conns.Consistent := by
  have hconns : s'.conns = s.conns.acceptClient fd true false := by
    simp only [step, loopStep] at h
    split_ifs at h
    split at h
    · contradiction
    · rename_i hresult
      cases hresult
      split_ifs at h
      cases h
      rfl
    · cases h
  intro hcons
  have hmem : (s.conns.clients.next, ⟨fd⟩) ∈ s'.conns.clients.nodes := by
    rw [hconns]
    have hnodes := ClientList.nodes_insert s.conns.clients ⟨fd⟩
    exact hnodes ▸ List.mem_append_right _ List.mem_cons_self
  have hopen := hcons.2.1 _ hmem
  rw [hconns] at hopen
  simp [Conns.acceptClient] at hopen

lemma registers_of_consistent {app : App W} {ls : List (Label n W)} {s : Server n W}
    (hs : s.conns.Agree) (hrun : (run (step app) s ls).isSome)
    (hcons : ∀ pre, pre <+: ls → ∀ s', run (step app) s pre = some s' → s'.conns.Consistent) :
    Along (step app) Registers s ls := by
  induction ls generalizing s with
  | nil => trivial
  | cons l ls ih =>
    obtain ⟨t, ht⟩ := Option.isSome_iff_exists.mp hrun
    obtain ⟨u, hu, hrun⟩ := run_cons_eq_some.mp ht
    have hl : s.Registers l := by
      rintro fd rfl
      apply not_consistent_of_unregistered hu
      exact hcons [_] (List.cons_prefix_cons.mpr ⟨rfl, List.nil_prefix⟩) u (by simp [run, hu])
    refine ⟨hl, fun u' hu' => ?_⟩
    obtain rfl := Option.some.inj (hu.symm.trans hu')
    apply ih ((Rule.of_step hu).2.agree hl hs)
    · rw [hrun]
      rfl
    · intro pre hpre s' hs'
      exact hcons (l :: pre) (List.cons_prefix_cons.mpr ⟨rfl, hpre⟩) s'
        (run_cons_eq_some.mpr ⟨u, hu, hs'⟩)

/-- List and descriptors are consistent at every moment of a run if and only if `kevent` never
fails in `accept_client`. -/
theorem clients_consistent_iff {app : App W} {ls : List (Label n W)}
    (hrun : (run (step app) (init n W) ls).isSome) :
    (∀ pre, pre <+: ls → ∀ s, run (step app) (init n W) pre = some s → s.conns.Consistent) ↔
      Along (step app) Registers (init n W) ls := by
  constructor
  · intro hcons
    exact registers_of_consistent Conns.agree_init hrun hcons
  · intro hls pre hpre s hs
    exact (agree_along (hls.of_prefix hpre) hs).consistent

/-- A run in which a client is accepted. -/
theorem clients_consistent_iff_accept :
    (∀ pre, pre <+: Demo.start ++ Demo.poll [.read 3 none false] ++ Demo.accept 5 → ∀ s,
      run (step Demo.app) (init 1 Unit) pre = some s → s.conns.Consistent) ↔
      Along (step Demo.app) Registers (init 1 Unit)
        (Demo.start ++ Demo.poll [.read 3 none false] ++ Demo.accept 5) :=
  clients_consistent_iff (by decide)

/-- `kevent` fails for the first client. Back in the loop its descriptor is closed and its node
is in the list; at the shutdown the descriptor is closed once more. -/
theorem unregistered_client_stays :
    (∃ s, run (step Demo.app) (init 1 Unit)
        (Demo.start ++ Demo.poll [.read 3 none false] ++ Demo.next ++
          [.loop (.accept (.conn 5 true true false)), .loop (.accept .failed)]) = some s ∧
      s.loop.betweenHandlers ∧ ¬ s.conns.Consistent) ∧
    ∃ s, run (step Demo.app) (init 1 Unit)
        (Demo.start ++ Demo.poll [.read 3 none false] ++ Demo.next ++
          [.loop (.accept (.conn 5 true true false)), .loop (.accept .failed), .signal] ++
          Demo.next ++ [.loop .test, .loop .close, .loop .close, .loop .close,
            .worker 0 .enter, .loop .close, .loop .close]) = some s ∧
      s.conns.log = [.accepted 5, .closed 5, .closed 5] := by
  constructor
  · have hrun : ((run (step Demo.app) (init 1 Unit)
        (Demo.start ++ Demo.poll [.read 3 none false] ++ Demo.next ++
          [.loop (.accept (.conn 5 true true false)), .loop (.accept .failed)])).map fun s =>
        (s.loop.betweenHandlers, s.conns.clients.nodes, s.conns.fds 5)) =
        some (true, [(0, ⟨5⟩)], none) := by
      decide
    obtain ⟨s, hs, heq⟩ := Option.map_eq_some_iff.mp hrun
    simp only [Prod.mk.injEq] at heq
    obtain ⟨hloop, hnodes, hfd⟩ := heq
    refine ⟨s, hs, hloop, fun hcons => ?_⟩
    have hopen := hcons.2.1 (0, ⟨5⟩) (by simp [hnodes])
    rw [hfd] at hopen
    cases hopen
  · have hrun : ((run (step Demo.app) (init 1 Unit)
        (Demo.start ++ Demo.poll [.read 3 none false] ++ Demo.next ++
          [.loop (.accept (.conn 5 true true false)), .loop (.accept .failed), .signal] ++
          Demo.next ++ [.loop .test, .loop .close, .loop .close, .loop .close,
            .worker 0 .enter, .loop .close, .loop .close])).map fun s => s.conns.log) =
        some [.accepted 5, .closed 5, .closed 5] := by
      decide
    exact Option.map_eq_some_iff.mp hrun

end Server

end Ccybe
