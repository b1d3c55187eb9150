import Ccybe.Ds.ThreadPool.ExactlyOnce
import Ccybe.Http.Segmentation

/-!
# Requests are taken in the order in which they were received

What the loop has received goes through the queue in order, so that the workers take requests in the
order of the READ events, whatever order they run in. A server with one worker generates the
responses in this order too; with two workers the second request can be answered first.
-/

namespace Ccybe

open CSem Trace Tally

/-- What was received and is not in the queue yet, where `origin` says what a task node was made
for. -/
def LoopPoint.pieces (origin : Addr → ConnId × List Bytes) : LoopPoint → List (ConnId × List Bytes)
  | .building _ _ _ chunks conn => [(conn, chunks)]
  | .handing _ t => [origin t]
  | _ => []

/-- The task node that is about to be handed over. -/
def LoopPoint.handingOver : LoopPoint → List Addr
  | .handing _ t => [t]
  | _ => []

/-- The task node of a worker that has not generated the response yet. -/
def HandlePoint.taken : HandlePoint → List Addr
  | .entered t => [t]
  | .lookup t _ _ => [t]
  | .generate t _ _ => [t]
  | _ => []

lemma HandlePoint.mem_refs_of_taken {p : HandlePoint} {t : Addr} (h : t ∈ p.taken) : t ∈ p.refs := by
  cases p with
  | away => cases h
  | register u client => cases h
  | entered u => exact Multiset.mem_singleton.mpr (List.mem_singleton.mp h)
  | lookup u client req => exact Multiset.mem_singleton.mpr (List.mem_singleton.mp h)
  | generate u client req => exact Multiset.mem_singleton.mpr (List.mem_singleton.mp h)

namespace Server

variable {n : ℕ} {W : Type}

/-! ### From `recv` to the queue -/

/-- The tasks in the queue, and those that were in it, are for task nodes in the order in which these
were made, and they were received in this order. -/
structure InOrder (origin : Addr → ConnId × List Bytes) (s : Server n W) : Prop where
  nodes : ∀ t node, s.tnodes t = some node → origin t = (node.conn, node.chunks)
  lt : ∀ t ∈ s.pool.accepted.map TaskNode.args ++ s.loop.handingOver, t < s.nextTnode
  increasing : (s.pool.accepted.map TaskNode.args ++ s.loop.handingOver).Pairwise (· < ·)
  received : ((s.pool.accepted.map fun task => origin task.args) ++ s.loop.pieces origin).Sublist
    s.history.received

lemma inOrder_init (origin : Addr → ConnId × List Bytes) : (init n W).InOrder origin where
  nodes := by simp [init]
  lt := by simp [init, Pool.create, LoopPoint.handingOver]
  increasing := by simp [init, Pool.create, LoopPoint.handingOver]
  received := by simp [init, Pool.create, LoopPoint.pieces]

/-- A step after which the loop has no more in its hands than before. -/
lemma InOrder.sublist {origin : Addr → ConnId × List Bytes} {s s' : Server n W}
    (hs : s.InOrder origin)
    (hnodes : ∀ t node, s'.tnodes t = some node → origin t = (node.conn, node.chunks))
    (hnext : s'.nextTnode = s.nextTnode) (haccepted : s'.pool.accepted = s.pool.accepted)
    (hreceived : s'.history.received = s.history.received)
    (hhanding : s'.loop.handingOver.Sublist s.loop.handingOver)
    (hpieces : (s'.loop.pieces origin).Sublist (s.loop.pieces origin)) : s'.InOrder origin where
  nodes := hnodes
  lt := by
    rw [haccepted, hnext]
    intro t ht
    exact hs.lt t ((hhanding.append_left _).subset ht)
  increasing := by
    rw [haccepted]
    exact hs.increasing.sublist (hhanding.append_left _)
  received := by
    rw [haccepted, hreceived]
    exact (hpieces.append_left _).trans hs.received

/-- Where no task node is made, a node has what it had before. -/
lemma Rule.tnodes_of_next {app : App W} {s s' : Server n W} {l : Label n W} (h : Rule app s l s')
    (hnext : s'.nextTnode = s.nextTnode) {t : Addr} {node' : ThreadNode}
    (hnode' : s'.tnodes t = some node') :
    ∃ node, s.tnodes t = some node ∧ node.fixed = node'.fixed := by
  cases h.hands with
  | pass hrefs htnodes hnext hfreed =>
    have heq := htnodes t
    rw [hnode', Option.map_some, eq_comm, Option.map_eq_some_iff] at heq
    exact heq
  | alloc node hrefs htnodes hnext' hfreed => exact absurd (hnext'.symm.trans hnext) (Nat.succ_ne_self _)
  | free u hrefs htnodes hnext' hfreed =>
    rw [htnodes] at hnode'
    by_cases ht : t = u
    · rw [ht, Function.update_self] at hnode'
      cases hnode'
    · rw [Function.update_of_ne ht] at hnode'
      exact ⟨node', hnode', rfl⟩

/-- The new task node is told its origin. -/
lemma InOrder.built {origin : Addr → ConnId × List Bytes} {s s' : Server n W} (hs : s.InOrder origin)
    {es : List KEvent} {client : Client} {buf buffer : StringT} {chunks : List Bytes} {conn : ConnId}
    (hloop : s.loop = .building es client buf chunks conn)
    (htnodes : s'.tnodes =
      Function.update s.tnodes s.nextTnode (some ⟨client, buffer, none, conn, chunks⟩))
    (hnext : s'.nextTnode = s.nextTnode + 1) (hpool : s'.pool = s.pool)
    (hhistory : s'.history = s.history) (hloop' : s'.loop = .handing es s.nextTnode) :
    s'.InOrder (Function.update origin s.nextTnode (conn, chunks)) := by
  have hlt : ∀ t ∈ s.pool.accepted.map TaskNode.args, t < s.nextTnode :=
    fun t ht => hs.lt t (List.mem_append_left _ ht)
  constructor
  · intro t node hnode
    rw [htnodes] at hnode
    by_cases ht : t = s.nextTnode
    · subst ht
      rw [Function.update_self] at hnode ⊢
      cases hnode
      rfl
    · rw [Function.update_of_ne ht] at hnode ⊢
      exact hs.nodes t node hnode
  · rw [hpool, hloop', hnext]
    intro t ht
    rcases List.mem_append.mp ht with ht | ht
    · exact Nat.lt_succ_of_lt (hlt t ht)
    · rw [List.mem_singleton.mp ht]
      exact Nat.lt_succ_self _
  · rw [hpool, hloop']
    refine List.pairwise_append.mpr ⟨?_, List.pairwise_singleton _ _, fun t ht u hu => ?_⟩
    · exact (List.pairwise_append.mp hs.increasing).1
    · rw [List.mem_singleton.mp hu]
      exact hlt t ht
  · have hmap : (s.pool.accepted.map fun task =>
        Function.update origin s.nextTnode (conn, chunks) task.args) =
        s.pool.accepted.map fun task => origin task.args :=
      List.map_congr_left fun task htask =>
        Function.update_of_ne (hlt _ (List.mem_map_of_mem htask)).ne _ _
    have hpieces := hs.received
    rw [hloop] at hpieces
    rw [hpool, hloop', hhistory, hmap]
    simp only [LoopPoint.pieces, Function.update_self] at hpieces ⊢
    exact hpieces

lemma Moves.pieces {app : App W} {s : Server n W} {p : LoopPoint} (h : s.Moves app p)
    (origin : Addr → ConnId × List Bytes) : p.handingOver = [] ∧ p.pieces origin = [] := by
  cases h with
  | listened ok h => cases ok <;> exact ⟨rfl, rfl⟩
  | tested h => cases s.shutdownSignal <;> exact ⟨rfl, rfl⟩
  | _ => exact ⟨rfl, rfl⟩

lemma accepted_of_enter {p p' : Pool n TaskFunc Addr} {i : Fin n} (h : p.step (.enter i) = some p') :
    p'.accepted = p.accepted := by
  obtain ⟨-, rfl⟩ := Pool.step_enter h
  rcases p.critical_cases i with ⟨-, -, he⟩ | ⟨-, -, he⟩ | ⟨task, q, -, he⟩ <;> rw [he] <;> rfl

/-- A step keeps the order. The task node that it may make is told its origin. -/
lemma Rule.inOrder {app : App W} {s s' : Server n W} {l : Label n W} (h : Rule app s l s')
    {origin : Addr → ConnId × List Bytes} (hs : s.InOrder origin) :
    ∃ origin', (∀ t, t < s.nextTnode → origin' t = origin t) ∧ s'.InOrder origin' := by
  have hnodes : s'.nextTnode = s.nextTnode →
      ∀ t node, s'.tnodes t = some node → origin t = (node.conn, node.chunks) := by
    intro hnext t node' hnode'
    obtain ⟨node, hnode, hfixed⟩ := h.tnodes_of_next hnext hnode'
    rw [hs.nodes t node hnode]
    exact congrArg (fun x : Client × StringT × ConnId × List Bytes => x.2.2) hfixed
  have hsame : s'.InOrder origin →
      ∃ origin', (∀ t, t < s.nextTnode → origin' t = origin t) ∧ s'.InOrder origin' :=
    fun h' => ⟨origin, fun _ _ => rfl, h'⟩
  cases h with
  | built a es client buf chunks conn mem buffer hloop hcopy hdata =>
    exact ⟨_, fun t ht => Function.update_of_ne ht.ne _ _, hs.built hloop rfl rfl rfl rfl rfl⟩
  | drained a es client buf chunks c hloop hc =>
    refine hsame ⟨hnodes rfl, ?_, ?_, ?_⟩
    · exact fun t ht => hs.lt t (List.mem_append.mpr (.inl (by simpa [LoopPoint.handingOver] using ht)))
    · have hincreasing := (List.pairwise_append.mp hs.increasing).1
      simpa [LoopPoint.handingOver] using hincreasing
    · exact ((List.sublist_append_left _ _).trans hs.received).append (List.Sublist.refl _)
  | push es t mem ws r hloop hr =>
    have hlt := hs.lt
    have hincreasing := hs.increasing
    have hreceived := hs.received
    rw [hloop] at hlt hincreasing hreceived
    rcases Pool.pushTask_cases hr with ⟨-, he⟩ | ⟨-, f, u, q, hf, hu, -, -, -, he⟩
    · refine hsame (hs.sublist (hnodes rfl) rfl ?_ rfl (List.nil_sublist _)
        (List.nil_sublist _))
      simp [he, Pool.refuse]
    · obtain rfl := Option.some.inj hu
      refine hsame ⟨hnodes rfl, ?_, ?_, ?_⟩
      · simpa [he, LoopPoint.handingOver] using hlt
      · simpa [he, LoopPoint.handingOver] using hincreasing
      · simpa [he, LoopPoint.pieces] using hreceived
  | move a p hp =>
    obtain ⟨hhanding, hpieces⟩ := hp.pieces origin
    refine hsame (hs.sublist (hnodes rfl) rfl rfl rfl ?_ ?_)
    · exact hhanding ▸ List.nil_sublist _
    · exact hpieces ▸ List.nil_sublist _
  | enter i p hp =>
    exact hsame (hs.sublist (hnodes rfl) rfl (accepted_of_enter hp) rfl (List.Sublist.refl _)
      (List.Sublist.refl _))
  | wake i p hp =>
    obtain ⟨-, rfl⟩ := Pool.step_wake hp
    exact hsame (hs.sublist (hnodes rfl) rfl rfl rfl (List.Sublist.refl _)
      (List.Sublist.refl _))
  | finish i p hi hp =>
    obtain ⟨task, -, rfl⟩ := Pool.step_finish hp
    exact hsame (hs.sublist (hnodes rfl) rfl rfl rfl (List.Sublist.refl _)
      (List.Sublist.refl _))
  | signal => exact hsame ⟨hs.nodes, hs.lt, hs.increasing, hs.received⟩
  | fault => exact hsame ⟨hs.nodes, hs.lt, hs.increasing, hs.received⟩
  | accept => exact hsame ⟨hs.nodes, hs.lt, hs.increasing, hs.received⟩
  | handle => exact hsame ⟨hs.nodes, hs.lt, hs.increasing, hs.received⟩
  | register => exact hsame ⟨hs.nodes, hs.lt, hs.increasing, hs.received⟩
  | generate => exact hsame ⟨hnodes rfl, hs.lt, hs.increasing, hs.received⟩
  | _ =>
    exact hsame (hs.sublist (hnodes rfl) rfl rfl rfl (List.nil_sublist _)
      (List.nil_sublist _))

/-! ### What the workers take -/

/-- What was received in the request that a worker pops from the queue with this step, if one does. -/
def takes (s : Server n W) (_ : Label n W) (s' : Server n W) : List (ConnId × List Bytes) :=
  ((s'.pool.popped.drop s.pool.popped.length).filterMap fun task => s.tnodes task.args).map
    fun node => (node.conn, node.chunks)

/-- What the workers pop from the queue in a run. -/
def taken (app : App W) (s : Server n W) (ls : List (Label n W)) : List (ConnId × List Bytes) :=
  observed (step app) takes s ls

/-- Nothing is popped, or the task at the front. -/
lemma Rule.popped_cases {app : App W} {s s' : Server n W} {l : Label n W} (h : Rule app s l s') :
    s'.pool.popped = s.pool.popped ∨
      ∃ task ∈ s.pool.q.items, s'.pool.popped = s.pool.popped ++ [task] := by
  cases h with
  | push es t mem ws r hloop hr =>
    rcases Pool.pushTask_cases hr with ⟨-, he⟩ | ⟨-, f, u, q, -, -, -, -, -, he⟩ <;>
      exact .inl ((congrArg Pool.popped he).trans rfl)
  | enter i p hp =>
    obtain ⟨-, rfl⟩ := Pool.step_enter hp
    rcases s.pool.critical_cases i with ⟨-, -, he⟩ | ⟨-, -, he⟩ | ⟨task, q, hq, he⟩
    · exact .inl ((congrArg Pool.popped he).trans rfl)
    · exact .inl ((congrArg Pool.popped he).trans rfl)
    · exact .inr ⟨task, hq ▸ List.mem_cons_self, (congrArg Pool.popped he).trans rfl⟩
  | wake i p hp =>
    obtain ⟨-, rfl⟩ := Pool.step_wake hp
    exact .inl rfl
  | finish i p hi hp =>
    obtain ⟨task, -, rfl⟩ := Pool.step_finish hp
    exact .inl rfl
  | _ => exact .inl rfl

/-- The tasks that were popped are for what the workers have taken. -/
lemma Rule.popped_takes {app : App W} {s s' : Server n W} {l : Label n W} (h : Rule app s l s')
    (howned : s.Owned) {origin : Addr → ConnId × List Bytes} (hs : s.InOrder origin) :
    (s'.pool.popped.map fun task => origin task.args) =
      (s.pool.popped.map fun task => origin task.args) ++ s.takes l s' := by
  rcases h.popped_cases with heq | ⟨task, htask, heq⟩
  · simp [takes, heq]
  · have hlive : task.args ∈ s.refs := by
      have hqueued : task.args ∈ s.pool.q.items.map TaskNode.args := List.mem_map_of_mem htask
      simp [refs, Pool.refs, hqueued]
    obtain ⟨node, hnode⟩ := Option.isSome_iff_exists.mp (howned.live _ hlive)
    simp [takes, heq, hnode, hs.nodes _ node hnode]

/-- What is popped now or was popped before is a task for an older node. -/
lemma InOrder.lt_of_popped {app : App W} {s s' : Server n W} {l : Label n W}
    {origin : Addr → ConnId × List Bytes} (hs : s.InOrder origin) (hreach : Reachable app s)
    (h : Rule app s l s') {task : TaskNode TaskFunc Addr} (htask : task ∈ s'.pool.popped) :
    task.args < s.nextTnode := by
  have horder := hreach.pool.inv.order
  have haccepted : task ∈ s.pool.accepted := by
    rw [← horder]
    rcases h.popped_cases with heq | ⟨task', htask', heq⟩
    · exact List.mem_append_left _ (heq ▸ htask)
    · rw [heq] at htask
      rcases List.mem_append.mp htask with hold | hnew
      · exact List.mem_append_left _ hold
      · exact List.mem_append_right _ (List.mem_singleton.mp hnew ▸ htask')
  exact hs.lt _ (List.mem_append_left _ (List.mem_map_of_mem haccepted))

/-- What was seen of the workers is what the tasks that were popped are for. -/
def Taking (app : App W) (seen : List (ConnId × List Bytes)) (s : Server n W) : Prop :=
  Reachable app s ∧ ∃ origin, s.InOrder origin ∧
    seen = s.pool.popped.map fun task => origin task.args

lemma Taking.step {app : App W} (seen : List (ConnId × List Bytes)) (s : Server n W) (l : Label n W)
    (s' : Server n W) (hs : s.Taking app seen) (h : s.step app l = some s') :
    s'.Taking app (seen ++ s.takes l s') := by
  obtain ⟨hreach, origin, horder, rfl⟩ := hs
  obtain ⟨-, hrule⟩ := Rule.of_step h
  obtain ⟨origin', hold, horder'⟩ := hrule.inOrder horder
  refine ⟨hreach.trans (.of_step h), origin', horder', ?_⟩
  rw [← hrule.popped_takes hreach.owned horder]
  exact List.map_congr_left fun task htask =>
    (hold _ (horder.lt_of_popped hreach hrule htask)).symm

/-- In every run the workers take requests from the queue in the order in which `read_from_client`
has received them, and none twice. -/
theorem taken_in_order {app : App W} {ls : List (Label n W)} {s : Server n W}
    (h : run (step app) (init n W) ls = some s) :
    (taken app (init n W) ls).Sublist s.history.received ∧
      (s.pool.popped.map TaskNode.args).Pairwise (· < ·) := by
  have hinit : (init n W).Taking app [] :=
    ⟨Reaches.refl _, fun _ => (0, []), inOrder_init _, rfl⟩
  obtain ⟨hreach, origin, horder, heq⟩ :=
    observed_invariant (f := takes) (P := Taking app) Taking.step h hinit
  have hpopped := List.prefix_append s.pool.popped s.pool.q.items
  rw [hreach.pool.inv.order] at hpopped
  constructor
  · rw [List.nil_append] at heq
    rw [taken, heq]
    refine (hpopped.map _).sublist.trans ?_
    exact (List.sublist_append_left _ _).trans horder.received
  · refine horder.increasing.sublist ?_
    exact (hpopped.map _).sublist.trans (List.sublist_append_left _ _)

/-- The requests of two clients, of which the worker has taken one. -/
theorem taken_in_order_two :
    ∃ (ls : List (Label 1 Unit)) (s : Server 1 Unit), run (step Demo.app) (init 1 Unit) ls = some s ∧
      (taken Demo.app (init 1 Unit) ls).map Prod.fst = [0] ∧
      s.history.received.map Prod.fst = [0, 1] ∧
      (taken Demo.app (init 1 Unit) ls).Sublist s.history.received ∧
      (s.pool.popped.map TaskNode.args).Pairwise (· < ·) := by
  let ls : List (Label 1 Unit) := Demo.start ++ Demo.poll [.read 3 none false] ++
    Demo.acceptTwo 5 6 true ++ Demo.next ++
    Demo.poll [.read 5 (some 0) false, .read 6 (some 1) false] ++ Demo.read Demo.request ++
    Demo.read Demo.request ++ Demo.answer
  have hrun : ((run (step Demo.app) (init 1 Unit) ls).map fun s =>
      ((taken Demo.app (init 1 Unit) ls).map Prod.fst, s.history.received.map Prod.fst)) =
      some ([0], [0, 1]) := by
    decide +kernel
  obtain ⟨s, hs, heq⟩ := Option.map_eq_some_iff.mp hrun
  rw [Prod.mk.injEq] at heq
  exact ⟨ls, s, hs, heq.1, heq.2, taken_in_order hs⟩

/-! ### One worker -/

/-- With one worker, what was answered and what it is working on are what it has taken, in order. -/
def Single (origin : Addr → ConnId × List Bytes) (s : Server 1 W) : Prop :=
  ∀ i, ((s.history.generated.map fun g => (g.origin, g.chunks)) ++
    (s.handling i).taken.map origin).Sublist (s.pool.popped.map fun task => origin task.args)

lemma HandleMoves.taken {app : App W} {s : Server n W} {i : Fin n} {p : HandlePoint}
    (h : s.HandleMoves app i p) : p.taken.Sublist (s.handling i).taken := by
  cases h with
  | badRequest t node h => exact List.nil_sublist _
  | parsedGet t node text ok req h => simp [h, HandlePoint.taken]
  | parsedOther t node text ok req method h => simp [h, HandlePoint.taken]
  | found t client req h => simp [h, HandlePoint.taken]
  | registerFailed t client h => exact List.nil_sublist _

lemma Single.generated {origin : Addr → ConnId × List Bytes} {s : Server 1 W} (hs : s.Single origin) :
    (s.history.generated.map fun g => (g.origin, g.chunks)).Sublist
      (s.pool.popped.map fun task => origin task.args) :=
  (List.sublist_append_left _ _).trans (hs ⟨0, Nat.one_pos⟩)

lemma Rule.single {app : App W} {s s' : Server 1 W} {l : Label 1 W} (h : Rule app s l s')
    {origin : Addr → ConnId × List Bytes} (horder : s.InOrder origin) (hs : s.Single origin) :
    s'.Single origin := by
  have hdrop := hs.generated
  intro j
  have hj := hs j
  cases h with
  | enter i p hp =>
    obtain rfl : i = j := Subsingleton.elim _ _
    obtain ⟨-, rfl⟩ := Pool.step_enter hp
    rcases s.pool.critical_cases i with ⟨-, -, he⟩ | ⟨-, -, he⟩ | ⟨task, q, -, he⟩
    · simpa [he, setHandling, Pool.setThread, HandlePoint.ofWorker, HandlePoint.taken] using hdrop
    · simpa [he, setHandling, Pool.setThread, HandlePoint.ofWorker, HandlePoint.taken] using hdrop
    · have htask := hdrop.append (List.Sublist.refl [origin task.args])
      simpa [he, setHandling, Pool.setThread, HandlePoint.ofWorker, HandlePoint.taken] using htask
  | wake i p hp =>
    obtain ⟨-, rfl⟩ := Pool.step_wake hp
    exact hj
  | finish i p hi hp =>
    obtain ⟨task, -, rfl⟩ := Pool.step_finish hp
    exact hj
  | push es t mem ws r hloop hr =>
    have hpopped : r.2.popped = s.pool.popped := by
      rcases Pool.pushTask_cases hr with ⟨-, he⟩ | ⟨-, f, u, q, -, -, -, -, -, he⟩ <;>
        exact (congrArg Pool.popped he).trans rfl
    simpa [hpopped] using hj
  | handle i a p hp =>
    obtain rfl : i = j := Subsingleton.elim _ _
    have htaken := (hp.taken.map origin).append_left
      (s.history.generated.map fun g => (g.origin, g.chunks))
    simpa [setHandling] using htaken.trans hj
  | generate i t client req w node hi hnode =>
    obtain rfl : i = j := Subsingleton.elim _ _
    rw [hi] at hj
    simpa [setHandling, HandlePoint.taken, horder.nodes t node hnode] using hj
  | register i t client hi hopen =>
    obtain rfl : i = j := Subsingleton.elim _ _
    simpa [setHandling, HandlePoint.taken] using hdrop
  | _ => exact hj

/-- A worker works on what it had, or on what it has just taken. -/
lemma Rule.taken_lt {app : App W} {s s' : Server n W} {l : Label n W} (h : Rule app s l s')
    (howned : s.Owned) {i : Fin n} {t : Addr} (ht : t ∈ (s'.handling i).taken) :
    t < s.nextTnode := by
  have hrefs := HandlePoint.mem_refs_of_taken ht
  have hlive : t ∈ s.refs := by
    cases h.places i with
    | stays heq => exact mem_refs_of_handling (heq ▸ hrefs)
    | enters hpool heq =>
      have hmove := Pool.refs_of_enter hpool
      have hmem : t ∈ s.pool.refs := by
        rw [← hmove]
        exact Multiset.mem_add.mpr (.inr (heq ▸ hrefs))
      simp [refs, hmem]
    | moves hmove htnodes => exact mem_refs_of_handling (Multiset.mem_of_le hmove.refs hrefs)
    | generates u client req heq heq' =>
      rw [heq'] at ht
      cases ht
    | registers u client heq heq' =>
      rw [heq'] at ht
      cases ht
  exact howned.lt t (howned.live t hlive)

lemma Reachable.single {app : App W} {s : Server 1 W} (h : Reachable app s) :
    ∃ origin, s.InOrder origin ∧ s.Single origin := by
  refine h.invariant (P := fun s => ∃ origin, s.InOrder origin ∧ s.Single origin)
    ⟨fun _ => (0, []), inOrder_init _, fun _ => List.Sublist.refl _⟩ ?_
  rintro s l s' hreach ⟨origin, horder, hs⟩ hrule
  obtain ⟨origin', hold, horder'⟩ := hrule.inOrder horder
  refine ⟨origin', horder', fun i => ?_⟩
  have hs' := hrule.single horder hs i
  have htaken : (s'.handling i).taken.map origin' = (s'.handling i).taken.map origin :=
    List.map_congr_left fun t ht => hold t (hrule.taken_lt hreach.owned ht)
  have hpopped : (s'.pool.popped.map fun task => origin' task.args) =
      s'.pool.popped.map fun task => origin task.args :=
    List.map_congr_left fun task htask => hold _ (horder.lt_of_popped hreach hrule htask)
  rw [htaken, hpopped]
  exact hs'

/-- A server with one worker generates the responses in the order in which the requests were
received, of one client and of all clients together. -/
theorem answered_in_order {app : App W} {s : Server 1 W} (h : Reachable app s) :
    (s.history.generated.map fun g => (g.origin, g.chunks)).Sublist s.history.received := by
  obtain ⟨origin, horder, hs⟩ := h.single
  have hpopped := List.prefix_append s.pool.popped s.pool.q.items
  rw [h.pool.inv.order] at hpopped
  have haccepted : (s.pool.accepted.map fun task => origin task.args).Sublist s.history.received :=
    (List.sublist_append_left _ _).trans horder.received
  exact hs.generated.trans ((hpopped.map _).sublist.trans haccepted)

/-- The requests of two clients are answered. -/
theorem answered_in_order_two :
    ∃ s : Server 1 Unit, s.history.generated.map Generated.origin = [0, 1] ∧
      (s.history.generated.map fun g => (g.origin, g.chunks)).Sublist s.history.received := by
  have hrun : ((run (step Demo.app) (init 1 Unit)
      (Demo.start ++ Demo.poll [.read 3 none false] ++ Demo.acceptTwo 5 6 true ++ Demo.next ++
        Demo.poll [.read 5 (some 0) false, .read 6 (some 1) false] ++ Demo.read Demo.request ++
        Demo.read Demo.request ++ Demo.answer ++ Demo.register ++ Demo.answer)).map fun s =>
      s.history.generated.map Generated.origin) = some [0, 1] := by
    decide +kernel
  obtain ⟨s, hs, heq⟩ := Option.map_eq_some_iff.mp hrun
  exact ⟨s, heq, answered_in_order ⟨_, hs⟩⟩

/-- Two workers take a request each, and the second one is answered first. -/
theorem answered_out_of_order :
    ∃ s : Server 2 Unit, Reachable Demo.app s ∧
      ¬ (s.history.generated.map fun g => (g.origin, g.chunks)).Sublist s.history.received := by
  let read : List (Label 2 Unit) := [.loop (.next true), .loop (.recv (.data Demo.request true)),
    .loop (.recv .again), .loop (.build true true true true), .loop (.push true [])]
  have hrun : ((run (step Demo.app) (init 2 Unit)
      ([.loop (.listen true), .loop .test, .loop (.poll (.events [.read 3 none false])),
        .loop (.next true), .loop (.accept (.conn 5 true true true)),
        .loop (.accept (.conn 6 true true true)), .loop (.accept .failed), .loop (.next true),
        .loop .test, .loop (.poll (.events [.read 5 (some 0) false, .read 6 (some 1) false]))] ++
        read ++ read ++ [.worker 0 .enter, .worker 1 .enter, .worker 1 .parse, .worker 1 .lookup,
          .worker 1 (.generate ()), .worker 0 .parse, .worker 0 .lookup,
          .worker 0 (.generate ())])).map fun s =>
      (s.history.generated.map fun g => (g.origin, g.chunks), s.history.received)) =
      some ([(1, [Demo.request]), (0, [Demo.request])],
        [(0, [Demo.request]), (1, [Demo.request])]) := by
    decide +kernel
  obtain ⟨s, hs, heq⟩ := Option.map_eq_some_iff.mp hrun
  rw [Prod.mk.injEq] at heq
  refine ⟨s, ⟨_, hs⟩, ?_⟩
  rw [heq.1, heq.2]
  decide

end Server

end Ccybe
