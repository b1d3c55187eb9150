import Ccybe.Http.Steps

/-!
# Task nodes have one owner

The references to task nodes, wherever they are, form a multiset. A step moves references, drops
some, or adds one to a node that it has just allocated; `Hands` says which. So no node is
referenced twice, and a node that is freed was referenced by `write_to_client` only.
-/

namespace Ccybe

open CSem Trace Tally

/-! ### References in the kqueue -/

namespace Conns

/-- The WRITE events of a batch, as they are registered. -/
def pairs : List KEvent → List (Fd × Addr)
  | [] => []
  | .read _ _ _ :: es => pairs es
  | .write ident t :: es => (ident, t) :: pairs es

lemma mem_pairs {es : List KEvent} {x : Fd × Addr} : x ∈ pairs es ↔ .write x.1 x.2 ∈ es := by
  induction es with
  | nil => simp [pairs]
  | cons e es ih => cases e <;> simp [pairs, ih, Prod.ext_iff]

lemma writes_eq (es : List KEvent) :
    writes es = ((pairs es).map Prod.snd : List Addr) := by
  induction es with
  | nil => rfl
  | cons e es ih => cases e <;> simp [pairs, ih]

lemma nodup_pairs {es : List KEvent} (h : (es.map KEvent.key).Nodup) : (pairs es).Nodup := by
  induction es with
  | nil => exact List.nodup_nil
  | cons e es ih =>
    rw [List.map_cons, List.nodup_cons] at h
    cases e with
    | read ident udata eof => exact ih h.2
    | write ident t =>
      refine List.nodup_cons.mpr ⟨fun hmem => h.1 ?_, ih h.2⟩
      exact List.mem_map.mpr ⟨.write ident t, mem_pairs.mp hmem, rfl⟩

lemma refs_le_of_sublist {c c' : Conns} (h : List.Sublist c'.writeReg c.writeReg) :
    c'.refs ≤ c.refs :=
  (h.map Prod.snd).subperm

lemma addWrite_refs (c : Conns) (fd : Fd) (t : Addr) : (c.addWrite fd t).refs ≤ t ::ₘ c.refs := by
  have h : List.Sublist (c.addWrite fd t).writeReg ((fd, t) :: c.writeReg) :=
    List.filter_sublist.cons_cons _
  exact (h.map Prod.snd).subperm

lemma connClose_refs (c : Conns) (fd : Fd) : (c.connClose fd).refs ≤ c.refs :=
  refs_le_of_sublist List.filter_sublist

lemma removeClient_refs (c : Conns) (fd : Fd) : (c.removeClient fd).refs ≤ c.refs := by
  rcases c.removeClient_cases fd with ⟨-, h⟩ | ⟨node, -, h⟩
  · rw [h]
  · rw [h]
    exact c.connClose_refs fd

lemma acceptClient_refs (c : Conns) (fd : Fd) (nonblock registered : Bool) :
    (c.acceptClient fd nonblock registered).refs ≤ c.refs := by
  rcases c.acceptClient_cases fd nonblock registered with ⟨-, h⟩ | ⟨-, -, h⟩ | ⟨-, -, h⟩
  · rw [h]
    exact connClose_refs _ fd
  · rw [h]
    exact le_refl _
  · rw [h]
    exact connClose_refs _ fd

lemma foldl_connClose_refs (c : Conns) (fds : List Fd) : (fds.foldl connClose c).refs ≤ c.refs := by
  induction fds generalizing c with
  | nil => exact le_refl _
  | cons fd fds ih => exact (ih (c.connClose fd)).trans (c.connClose_refs fd)

lemma freeList_refs (c : Conns) : c.freeList.refs ≤ c.refs :=
  foldl_connClose_refs c _

/-- `kevent` hands over the references of the WRITE events that it returns. -/
lemma fetch_refs {c : Conns} {lnFd : Fd} {es : List KEvent} (h : c.batch lnFd es = true) :
    writes es + (c.fetch es).refs ≤ c.refs := by
  simp only [batch, Bool.and_eq_true, decide_eq_true_eq, List.all_eq_true] at h
  obtain ⟨⟨-, hnd⟩, hreg⟩ := h
  have hsub : (pairs es : Multiset (Fd × Addr)) ≤
      Multiset.filter (fun x => KEvent.write x.1 x.2 ∈ es) c.writeReg := by
    refine (Multiset.le_iff_subset (Multiset.coe_nodup.mpr (nodup_pairs hnd))).mpr fun x hx => ?_
    have hmem := mem_pairs.mp hx
    have hx := hreg _ hmem
    exact Multiset.mem_filter.mpr ⟨by simpa using hx, hmem⟩
  have hsplit := Multiset.filter_add_not (fun x => KEvent.write x.1 x.2 ∈ es)
    (c.writeReg : Multiset (Fd × Addr))
  have hfetch : ((c.fetch es).writeReg : Multiset (Fd × Addr)) =
      Multiset.filter (fun x => KEvent.write x.1 x.2 ∉ es) c.writeReg := by
    simp [fetch]
  have hle : (pairs es : Multiset (Fd × Addr)) + (c.fetch es).writeReg ≤ c.writeReg := by
    rw [hfetch]
    calc (pairs es : Multiset (Fd × Addr)) +
          Multiset.filter (fun x => KEvent.write x.1 x.2 ∉ es) c.writeReg
        ≤ _ := add_le_add_left hsub _
      _ = c.writeReg := hsplit
  have hmap := Multiset.map_le_map (f := Prod.snd) hle
  rw [Multiset.map_add] at hmap
  rw [writes_eq]
  exact hmap

end Conns

/-! ### References in the pool -/

namespace Pool

variable {n : ℕ}

/-- The critical section moves the reference at the front of the queue to the worker. -/
lemma refs_of_enter {p p' : Pool n TaskFunc Addr} {i : Fin n} (h : p.step (.enter i) = some p') :
    p'.refs + (HandlePoint.ofWorker (p'.thread i)).refs = p.refs := by
  obtain ⟨-, rfl⟩ := step_enter h
  rcases p.critical_cases i with ⟨-, -, he⟩ | ⟨-, -, he⟩ | ⟨task, q, hq, he⟩
  · simp [he, refs, setThread, HandlePoint.ofWorker, HandlePoint.refs]
  · simp [he, refs, setThread, HandlePoint.ofWorker, HandlePoint.refs]
  · simp only [he, refs, setThread, Function.update_self, HandlePoint.ofWorker,
      HandlePoint.refs, hq, List.map_cons, ← Multiset.cons_coe]
    rw [add_comm, Multiset.singleton_add]

lemma refs_of_wake {p p' : Pool n TaskFunc Addr} {i : Fin n} (h : p.step (.wake i) = some p') :
    p'.refs = p.refs := by
  obtain ⟨-, rfl⟩ := step_wake h
  rfl

lemma refs_of_finish {p p' : Pool n TaskFunc Addr} {i : Fin n}
    (h : p.step (.finish i) = some p') : p'.refs = p.refs := by
  obtain ⟨task, -, rfl⟩ := step_finish h
  rfl

/-- `push_task` puts the reference into the queue, or drops it. -/
lemma refs_of_pushTask {p : Pool n TaskFunc Addr} {t : Addr} {mem : Bool} {ws : List (Fin n)}
    {r : Bool × Pool n TaskFunc Addr}
    (h : p.pushTask (some .handleConn) (some t) mem ws = some r) :
    r.2.refs ≤ t ::ₘ p.refs := by
  obtain ⟨ok, p'⟩ := r
  rcases pushTask_cases h with ⟨-, rfl⟩ | ⟨-, f, a, q, -, ha, hq, -, -, rfl⟩
  · exact Multiset.le_cons_self _ _
  · cases ha
    simp only [refs, hq, List.map_append, List.map_cons, List.map_nil]
    rw [← Multiset.coe_add, Multiset.coe_singleton, add_comm, Multiset.singleton_add]

end Pool

/-! ### What a step does to the task nodes -/

/-- The part of a task node that does not change. -/
def ThreadNode.fixed (node : ThreadNode) : Client × StringT × ConnId × List Bytes :=
  (node.client, node.buffer, node.conn, node.chunks)

namespace Server

variable {n : ℕ} {W : Type}

/-- A step passes references on, adds one to a new node, or frees a node with the last one. -/
inductive Hands (s s' : Server n W) : Prop where
  | pass (hrefs : s'.refs ≤ s.refs)
      (htnodes : ∀ t, (s'.tnodes t).map ThreadNode.fixed = (s.tnodes t).map ThreadNode.fixed)
      (hnext : s'.nextTnode = s.nextTnode) (hfreed : s'.history.freed = s.history.freed)
  | alloc (node : ThreadNode) (hrefs : s'.refs = s.nextTnode ::ₘ s.refs)
      (htnodes : s'.tnodes = Function.update s.tnodes s.nextTnode (some node))
      (hnext : s'.nextTnode = s.nextTnode + 1) (hfreed : s'.history.freed = s.history.freed)
  | free (t : Addr) (hrefs : t ::ₘ s'.refs ≤ s.refs)
      (htnodes : s'.tnodes = Function.update s.tnodes t none)
      (hnext : s'.nextTnode = s.nextTnode) (hfreed : s'.history.freed = s.history.freed ++ [t])

lemma Moves.refs {app : App W} {s : Server n W} {p : LoopPoint} (h : s.Moves app p) :
    p.refs ≤ s.loop.refs := by
  cases h with
  | listened ok h => cases ok <;> exact Multiset.zero_le _
  | tested h => cases s.shutdownSignal <;> exact Multiset.zero_le _
  | toAccept udata es h => simp [h, LoopPoint.refs]
  | toRead ident a es node mem buf h => simp [h, LoopPoint.refs]
  | toWrite ident t es node h => simp [h, LoopPoint.refs]
  | accepted es h => simp [h, LoopPoint.refs]
  | received es client buf buf' chunks chunk mem h => simp [h, LoopPoint.refs]
  | dropReading es client buf chunks h => simp [h, LoopPoint.refs]
  | _ => exact Multiset.zero_le _

lemma HandleMoves.refs {app : App W} {s : Server n W} {i : Fin n} {p : HandlePoint}
    (h : s.HandleMoves app i p) : p.refs ≤ (s.handling i).refs := by
  cases h with
  | badRequest t node h => exact Multiset.zero_le _
  | parsedGet t node text ok req h => simp [h, HandlePoint.refs]
  | parsedOther t node text ok req method h => simp [h, HandlePoint.refs]
  | found t client req h => simp [h, HandlePoint.refs]
  | registerFailed t client h => exact Multiset.zero_le _

/-- A worker that holds fewer references than before. -/
lemma total_update_le (s : Server n W) (i : Fin n) {p : HandlePoint} {m : Multiset Addr}
    (h : p.refs + m ≤ (s.handling i).refs) :
    total HandlePoint.refs (Function.update s.handling i p) + m ≤
      total HandlePoint.refs s.handling := by
  have hupdate := total_update HandlePoint.refs s.handling i p
  have hle : total HandlePoint.refs (Function.update s.handling i p) + (p.refs + m) ≤
      total HandlePoint.refs s.handling + p.refs := by
    rw [← hupdate]
    exact add_le_add_right h _
  have hcomm : total HandlePoint.refs (Function.update s.handling i p) + (p.refs + m) =
      total HandlePoint.refs (Function.update s.handling i p) + m + p.refs := by abel
  rw [hcomm] at hle
  exact le_of_add_le_add_right hle

/-- The parts of the references, one after the other. -/
lemma refs_le {s s' : Server n W} (hloop : s'.loop.refs ≤ s.loop.refs)
    (hpool : s'.pool.refs ≤ s.pool.refs)
    (hhandling : total HandlePoint.refs s'.handling ≤ total HandlePoint.refs s.handling)
    (hconns : s'.conns.refs ≤ s.conns.refs) : s'.refs ≤ s.refs :=
  add_le_add (add_le_add (add_le_add hloop hpool) hhandling) hconns

lemma Rule.hands {app : App W} {s s' : Server n W} {l : Label n W} (h : Rule app s l s') :
    Hands s s' := by
  cases h with
  | signal => exact .pass (le_refl _) (fun _ => rfl) rfl rfl
  | move a p hp =>
    exact .pass (refs_le hp.refs (le_refl _) (le_refl _) (le_refl _)) (fun _ => rfl) rfl rfl
  | fault l f hf => exact .pass (le_refl _) (fun _ => rfl) rfl rfl
  | notBuilt es client buf chunks conn memTnode memBuffer memReq memResp h hmem =>
    refine .pass (refs_le ?_ (le_refl _) (le_refl _) (le_refl _)) (fun _ => rfl) rfl rfl
    simp [h, LoopPoint.refs]
  | fetch a es h hes =>
    refine .pass ?_ (fun _ => rfl) rfl rfl
    have hfetch := Conns.fetch_refs hes
    calc writes es + s.pool.refs + total HandlePoint.refs s.handling + (s.conns.fetch es).refs
        = s.pool.refs + total HandlePoint.refs s.handling +
            (writes es + (s.conns.fetch es).refs) := by abel
      _ ≤ s.pool.refs + total HandlePoint.refs s.handling + s.conns.refs :=
          add_le_add_right hfetch _
      _ = s.refs := by simp [Server.refs, h, LoopPoint.refs]
  | eof a ident udata es h =>
    refine .pass (refs_le ?_ (le_refl _) (le_refl _) (Conns.removeClient_refs _ _))
      (fun _ => rfl) rfl rfl
    simp [h, LoopPoint.refs]
  | disconnected a es client buf chunks h =>
    refine .pass (refs_le ?_ (le_refl _) (le_refl _) (Conns.removeClient_refs _ _))
      (fun _ => rfl) rfl rfl
    simp [h, LoopPoint.refs]
  | accept es fd nonblock mem registered h hfree hne hmem =>
    exact .pass (refs_le (le_refl _) (le_refl _) (le_refl _) (Conns.acceptClient_refs _ _ _ _))
      (fun _ => rfl) rfl rfl
  | drained a es client buf chunks c h hc =>
    refine .pass (refs_le ?_ (le_refl _) (le_refl _) (le_refl _)) (fun _ => rfl) rfl rfl
    simp [h, LoopPoint.refs]
  | built a es client buf chunks conn mem buffer h hcopy hdata =>
    refine .alloc _ ?_ rfl rfl rfl
    simp [Server.refs, h, LoopPoint.refs]
  | push es t mem ws r h hr =>
    refine .pass ?_ (fun _ => rfl) rfl rfl
    have hpush := Pool.refs_of_pushTask hr
    calc writes es + r.2.refs + total HandlePoint.refs s.handling + s.conns.refs
        ≤ writes es + t ::ₘ s.pool.refs + total HandlePoint.refs s.handling + s.conns.refs :=
          add_le_add_left (add_le_add_left (add_le_add_right hpush _) _) _
      _ = s.refs := by simp [Server.refs, h, LoopPoint.refs]
  | sent a es t node resp total k c h hnode hresp hc hk hle =>
    refine .pass (refs_le ?_ (le_refl _) (le_refl _) (le_refl _)) (fun _ => rfl) rfl rfl
    simp [h, LoopPoint.refs]
  | again a es t node total registered h hnode =>
    refine .pass ?_ (fun _ => rfl) rfl rfl
    have hadd : (if registered then s.conns.addWrite node.client.fd t else s.conns).refs ≤
        t ::ₘ s.conns.refs := by
      split_ifs
      · exact s.conns.addWrite_refs _ _
      · exact Multiset.le_cons_self _ _
    calc writes es + s.pool.refs + Tally.total HandlePoint.refs s.handling +
          (if registered then s.conns.addWrite node.client.fd t else s.conns).refs
        ≤ writes es + s.pool.refs + Tally.total HandlePoint.refs s.handling +
          t ::ₘ s.conns.refs := add_le_add_right hadd _
      _ = s.refs := by simp [Server.refs, h, LoopPoint.refs]
  | gaveUp es t node resp total r registered h hnode hresp hr =>
    refine .pass (refs_le ?_ (le_refl _) (le_refl _) (Conns.removeClient_refs _ _))
      (fun _ => rfl) rfl rfl
    simpa [h, LoopPoint.refs] using Multiset.le_cons_self _ _
  | done es t node resp total h hnode hresp hle =>
    refine .free t ?_ rfl rfl rfl
    have hconns := Conns.removeClient_refs s.conns node.client.fd
    calc t ::ₘ (writes es + s.pool.refs + Tally.total HandlePoint.refs s.handling +
          (s.conns.removeClient node.client.fd).refs)
        ≤ t ::ₘ (writes es + s.pool.refs + Tally.total HandlePoint.refs s.handling +
          s.conns.refs) := (Multiset.cons_le_cons_iff t).mpr (add_le_add_right hconns _)
      _ = s.refs := by simp [Server.refs, h, LoopPoint.refs]
  | destroyRoute h =>
    exact .pass (refs_le (Multiset.zero_le _) (le_refl _) (le_refl _) (le_refl _))
      (fun _ => rfl) rfl rfl
  | destroyPool h =>
    exact .pass (refs_le (Multiset.zero_le _) (le_refl _) (le_refl _) (le_refl _))
      (fun _ => rfl) rfl rfl
  | freeList h =>
    exact .pass (refs_le (Multiset.zero_le _) (le_refl _) (le_refl _) (Conns.freeList_refs _))
      (fun _ => rfl) rfl rfl
  | enter i p hp =>
    refine .pass ?_ (fun _ => rfl) rfl rfl
    have hmove := Pool.refs_of_enter hp
    have hupdate := total_update HandlePoint.refs s.handling i (HandlePoint.ofWorker (p.thread i))
    have hle : total HandlePoint.refs
          (Function.update s.handling i (HandlePoint.ofWorker (p.thread i))) ≤
        total HandlePoint.refs s.handling + (HandlePoint.ofWorker (p.thread i)).refs := by
      rw [← hupdate]
      exact Multiset.le_add_right _ _
    calc s.loop.refs + p.refs + total HandlePoint.refs
            (Function.update s.handling i (HandlePoint.ofWorker (p.thread i))) + s.conns.refs
        ≤ s.loop.refs + p.refs + (total HandlePoint.refs s.handling +
            (HandlePoint.ofWorker (p.thread i)).refs) + s.conns.refs :=
          add_le_add_left (add_le_add_right hle _) _
      _ = s.loop.refs + (p.refs + (HandlePoint.ofWorker (p.thread i)).refs) +
            total HandlePoint.refs s.handling + s.conns.refs := by abel
      _ = s.refs := by rw [hmove]; rfl
  | wake i p hp =>
    exact .pass (refs_le (le_refl _) (Pool.refs_of_wake hp).le (le_refl _) (le_refl _))
      (fun _ => rfl) rfl rfl
  | handle i a p hp =>
    refine .pass (refs_le (le_refl _) (le_refl _) ?_ (le_refl _)) (fun _ => rfl) rfl rfl
    simpa using s.total_update_le i (p := p) (m := 0) (by simpa using hp.refs)
  | generate i t client req w node h hnode =>
    refine .pass (refs_le (le_refl _) (le_refl _) ?_ (le_refl _)) (fun u => ?_) rfl rfl
    · simpa using s.total_update_le i (p := .register t client) (m := 0)
        (by simp [h, HandlePoint.refs])
    · by_cases hu : u = t
      · subst hu
        simp [hnode, ThreadNode.fixed]
      · simp [hu]
  | register i t client h hopen =>
    refine .pass ?_ (fun _ => rfl) rfl rfl
    have hadd := s.conns.addWrite_refs client.fd t
    have hle := s.total_update_le i (p := .away) (m := {t}) (by simp [h, HandlePoint.refs])
    calc s.loop.refs + s.pool.refs +
          total HandlePoint.refs (Function.update s.handling i .away) +
          (s.conns.addWrite client.fd t).refs
        ≤ s.loop.refs + s.pool.refs +
          total HandlePoint.refs (Function.update s.handling i .away) + t ::ₘ s.conns.refs :=
          add_le_add_right hadd _
      _ = s.loop.refs + s.pool.refs +
          (total HandlePoint.refs (Function.update s.handling i .away) + {t}) +
          s.conns.refs := by
          rw [← Multiset.singleton_add]
          abel
      _ ≤ s.refs := add_le_add_left (add_le_add_right hle _) _
  | finish i p h hp =>
    exact .pass (refs_le (le_refl _) (Pool.refs_of_finish hp).le (le_refl _) (le_refl _))
      (fun _ => rfl) rfl rfl

/-! ### The invariant -/

/-- The invariant of task nodes. -/
structure Owned (s : Server n W) : Prop where
  nodup : s.refs.Nodup
  live : ∀ t ∈ s.refs, (s.tnodes t).isSome
  lt : ∀ t, (s.tnodes t).isSome → t < s.nextTnode
  freed_lt : ∀ t ∈ s.history.freed, t < s.nextTnode
  freed_none : ∀ t ∈ s.history.freed, s.tnodes t = none
  freed_nodup : s.history.freed.Nodup

lemma owned_init : (init n W).Owned where
  nodup := by simp [init, Server.refs, LoopPoint.refs, Pool.refs, Pool.create, Conns.refs,
    Conns.init, total, HandlePoint.refs]
  live := by simp [init, Server.refs, LoopPoint.refs, Pool.refs, Pool.create, Conns.refs,
    Conns.init, total, HandlePoint.refs]
  lt := by simp [init]
  freed_lt := by simp [init]
  freed_none := by simp [init]
  freed_nodup := by simp [init]

lemma Owned.hands {s s' : Server n W} (hs : s.Owned) (h : Hands s s') : s'.Owned := by
  cases h with
  | pass hrefs htnodes hnext hfreed =>
    have hsome : ∀ t, (s'.tnodes t).isSome = (s.tnodes t).isSome := fun t => by
      simpa using congrArg Option.isSome (htnodes t)
    refine ⟨Multiset.nodup_of_le hrefs hs.nodup, fun t ht => ?_, fun t ht => ?_, ?_, ?_, ?_⟩
    · rw [hsome]
      exact hs.live t (Multiset.mem_of_le hrefs ht)
    · rw [hnext]
      exact hs.lt t (by rwa [← hsome])
    · rw [hfreed, hnext]
      exact hs.freed_lt
    · rw [hfreed]
      intro t ht
      have hnone := hs.freed_none t ht
      rw [← Option.not_isSome_iff_eq_none] at hnone ⊢
      rwa [hsome]
    · rw [hfreed]
      exact hs.freed_nodup
  | alloc node hrefs htnodes hnext hfreed =>
    have hnew : s.nextTnode ∉ s.refs := fun hmem => lt_irrefl _ (hs.lt _ (hs.live _ hmem))
    refine ⟨?_, fun t ht => ?_, fun t ht => ?_, fun t ht => ?_, fun t ht => ?_, ?_⟩
    · rw [hrefs]
      exact Multiset.nodup_cons.mpr ⟨hnew, hs.nodup⟩
    · rw [hrefs, Multiset.mem_cons] at ht
      rw [htnodes]
      by_cases hne : t = s.nextTnode
      · simp [hne]
      · simpa [hne] using hs.live t (ht.resolve_left hne)
    · rw [hnext]
      rw [htnodes] at ht
      by_cases hne : t = s.nextTnode
      · rw [hne]
        exact Nat.lt_succ_self _
      · exact Nat.lt_succ_of_lt (hs.lt t (by simpa [hne] using ht))
    · rw [hnext]
      rw [hfreed] at ht
      exact Nat.lt_succ_of_lt (hs.freed_lt t ht)
    · rw [hfreed] at ht
      have hne : t ≠ s.nextTnode := (hs.freed_lt t ht).ne
      rw [htnodes, Function.update_of_ne hne]
      exact hs.freed_none t ht
    · rw [hfreed]
      exact hs.freed_nodup
  | free t hrefs htnodes hnext hfreed =>
    have hnodup := Multiset.nodup_of_le hrefs hs.nodup
    obtain ⟨hnotin, hnodup⟩ := Multiset.nodup_cons.mp hnodup
    have hsub : ∀ u ∈ s'.refs, u ∈ s.refs := fun u hu =>
      Multiset.mem_of_le hrefs (Multiset.mem_cons_of_mem hu)
    have htlive := hs.live t (Multiset.mem_of_le hrefs (Multiset.mem_cons_self t _))
    refine ⟨hnodup, fun u hu => ?_, fun u hu => ?_, fun u hu => ?_, fun u hu => ?_, ?_⟩
    · have hne : u ≠ t := fun h => hnotin (h ▸ hu)
      rw [htnodes, Function.update_of_ne hne]
      exact hs.live u (hsub u hu)
    · have hne : u ≠ t := by
        rintro rfl
        simp [htnodes] at hu
      rw [htnodes, Function.update_of_ne hne] at hu
      rw [hnext]
      exact hs.lt u hu
    · rw [hnext]
      rcases List.mem_append.mp (hfreed ▸ hu) with hu | hu
      · exact hs.freed_lt u hu
      · rw [List.mem_singleton.mp hu]
        exact hs.lt t htlive
    · by_cases hne : u = t
      · simp [htnodes, hne]
      · rcases List.mem_append.mp (hfreed ▸ hu) with hu | hu
        · rw [htnodes, Function.update_of_ne hne]
          exact hs.freed_none u hu
        · exact absurd (List.mem_singleton.mp hu) hne
    · rw [hfreed, List.nodup_append]
      refine ⟨hs.freed_nodup, List.nodup_singleton t, fun u hu v hv => ?_⟩
      rw [List.mem_singleton.mp hv]
      rintro rfl
      rw [hs.freed_none u hu] at htlive
      cases htlive

/-- While a task node is referenced, what was read into it stays. -/
lemma Hands.fixed {s s' : Server n W} (h : Hands s s') (hs : s.Owned) {t : Addr}
    (ht : t ∈ s.refs) (ht' : t ∈ s'.refs) :
    (s'.tnodes t).map ThreadNode.fixed = (s.tnodes t).map ThreadNode.fixed := by
  cases h with
  | pass hrefs htnodes hnext hfreed => exact htnodes t
  | alloc node hrefs htnodes hnext hfreed =>
    have hne : t ≠ s.nextTnode := (hs.lt t (hs.live t ht)).ne
    rw [htnodes, Function.update_of_ne hne]
  | free u hrefs htnodes hnext hfreed =>
    have hne : t ≠ u := by
      rintro rfl
      exact (Multiset.nodup_cons.mp (Multiset.nodup_of_le hrefs hs.nodup)).1 ht'
    rw [htnodes, Function.update_of_ne hne]

lemma Reachable.owned {app : App W} {s : Server n W} (h : Reachable app s) : s.Owned :=
  h.invariant owned_init fun _ _ _ _ hs hrule => hs.hands hrule.hands

/-- No reachable state has accessed a freed task node. -/
lemma Reachable.fault_ne_freedTnode {app : App W} {s : Server n W} (h : Reachable app s) :
    s.fault ≠ some .freedTnode := by
  refine h.invariant (P := fun s => s.fault ≠ some .freedTnode) (by simp [init]) ?_
  intro s l s' hreach hs hrule
  cases hrule with
  | fault l f hf =>
    cases hf with
    | freedTnode t ht hnode =>
      have hlive := hreach.owned.live t ht
      rw [hnode] at hlive
      cases hlive
    | _ => simp [fail]
  | _ => exact hs

/-- A worker changes no task node but the one that it holds. -/
lemma tnodes_of_worker {app : App W} {s s' : Server n W} {i : Fin n} {a : WorkerStep W}
    (h : s.step app (.worker i a) = some s') {t : Addr} (ht : t ∉ (s.handling i).refs) :
    s'.tnodes t = s.tnodes t := by
  cases (Rule.of_step h).2 with
  | generate i u client req w node hi hnode =>
    have hne : t ≠ u := by
      rintro rfl
      simp [hi, HandlePoint.refs] at ht
    exact Function.update_of_ne hne _ _
  | _ => rfl

/-- A task node in the kqueue is held by no worker. -/
lemma Owned.not_held {s : Server n W} (hs : s.Owned) {x : Fd × Addr}
    (hx : x ∈ s.conns.writeReg) (i : Fin n) : x.2 ∉ (s.handling i).refs := by
  intro hheld
  have hdisj := (Multiset.nodup_add.mp hs.nodup).2.2
  have htotal : x.2 ∈ total HandlePoint.refs s.handling := mem_total.mpr ⟨i, hheld⟩
  have hreg : x.2 ∈ s.conns.refs := List.mem_map.mpr ⟨x, hx, rfl⟩
  exact Multiset.disjoint_left.mp hdisj (Multiset.mem_add.mpr (.inr htotal)) hreg

/-- In every reachable state each task node is referenced at most once, be it by the loop, the
queue, a worker or the kqueue, and what is referenced is allocated. In particular
`write_to_client` is not entered with a freed node; no freed node is accessed and none is freed
twice. Workers do not hold what is registered, and change only what they hold. -/
theorem single_owner {app : App W} {s : Server n W} (h : Reachable app s) :
    s.refs.Nodup ∧ (∀ t ∈ s.refs, (s.tnodes t).isSome) ∧
      (∀ ident t es, s.loop = .events (.write ident t :: es) → (s.tnodes t).isSome) ∧
      s.fault ≠ some .freedTnode ∧ s.history.freed.Nodup ∧
      (∀ x ∈ s.conns.writeReg, ∀ i, x.2 ∉ (s.handling i).refs) ∧
      ∀ i a s', s.step app (.worker i a) = some s' →
        ∀ t, t ∉ (s.handling i).refs → s'.tnodes t = s.tnodes t := by
  have hs := h.owned
  refine ⟨hs.nodup, hs.live, fun ident t es hloop => ?_, h.fault_ne_freedTnode, hs.freed_nodup,
    fun x hx i => hs.not_held hx i, fun i a s' hstep t ht => tnodes_of_worker hstep ht⟩
  exact hs.live t (mem_refs_of_loop (by simp [hloop, LoopPoint.refs]))

/-- A state in which the answer to a request is registered. -/
theorem single_owner_registered :
    ∃ s : Server 1 Unit, s.conns.writeReg = [(5, 0)] ∧
      s.refs.Nodup ∧ (∀ t ∈ s.refs, (s.tnodes t).isSome) ∧
      (∀ ident t es, s.loop = .events (.write ident t :: es) → (s.tnodes t).isSome) ∧
      s.fault ≠ some .freedTnode ∧ s.history.freed.Nodup ∧
      (∀ x ∈ s.conns.writeReg, ∀ i, x.2 ∉ (s.handling i).refs) ∧
      ∀ i a s', s.step Demo.app (.worker i a) = some s' →
        ∀ t, t ∉ (s.handling i).refs → s'.tnodes t = s.tnodes t := by
  have hrun : ((run (step Demo.app) (init 1 Unit)
      (Demo.start ++ Demo.poll [.read 3 none false] ++ Demo.accept 5 ++ Demo.next ++
        Demo.poll [.read 5 (some 0) false] ++ Demo.read Demo.request ++ Demo.next ++
        Demo.answer ++ Demo.register)).map fun s => s.conns.writeReg) = some [(5, 0)] := by
    decide +kernel
  obtain ⟨s, hs, hreg⟩ := Option.map_eq_some_iff.mp hrun
  exact ⟨s, hreg, single_owner ⟨_, hs⟩⟩

end Server

end Ccybe
