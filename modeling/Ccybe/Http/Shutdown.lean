import Ccybe.Http.Ownership

/-!
# Shutdown

`serve_and_listen` destroys the table of routes before `destroy_pool` waits for the workers, and
the workers go on until the queue is empty. They look routes up in the destroyed table, unless
no request that is queued or being parsed is a `GET` request.
-/

namespace Ccybe

open CSem Trace Tally

/-- The request of the task node is accepted, and its method is `GET`. -/
def ThreadNode.wantsRoute {W : Type} (app : App W) (node : ThreadNode) : Bool :=
  match node.buffer.bytes >>= parseHttpRequest app.llhttp with
  | .ok (ok, req) =>
    decide (ok ≠ 1) && match getMothodType req.method with
      | .ok .get => true
      | _ => false
  | .error _ => false

/-- The loop is past `destroy_route`. -/
def LoopPoint.destroyed : LoopPoint → Bool
  | .destroyPool | .joining | .freeList | .returned _ => true
  | _ => false

namespace Server

variable {n : ℕ} {W : Type}

/-- The request in the task node at `t` is going to be looked up. -/
def wantsRoute (app : App W) (s : Server n W) (t : Addr) : Bool :=
  (s.tnodes t).any (ThreadNode.wantsRoute app)

/-- The worker is going to call `route_lookup`. -/
def looksUp (app : App W) (s : Server n W) : HandlePoint → Bool
  | .entered t => s.wantsRoute app t
  | .lookup _ _ _ => true
  | _ => false

/-- A queued request or one that a worker is handling is still to be looked up. -/
def lookupPending (app : App W) (s : Server n W) : Bool :=
  s.pool.q.items.any (fun task => s.wantsRoute app task.args) ||
    decide (∃ i, s.looksUp app (s.handling i) = true)

/-- The table of routes is destroyed when no lookup is pending. -/
def destroysIdle (app : App W) (s : Server n W) (l : Label n W) : Bool :=
  match s.loop, l with
  | .destroyRoute, .loop .close => !s.lookupPending app
  | _, _ => true

lemma lookupPending_eq_false {app : App W} {s : Server n W} :
    s.lookupPending app = false ↔
      (∀ t ∈ s.pool.refs, s.wantsRoute app t = false) ∧
        ∀ i, s.looksUp app (s.handling i) = false := by
  rw [lookupPending, Bool.or_eq_false_iff, List.any_eq_false, decide_eq_false_iff_not]
  simp [Pool.refs]

lemma wantsRoute_eq_false {app : App W} {s : Server n W} (h : s.lookupPending app = false) {t : Addr}
    (ht : t ∈ s.pool.refs) : s.wantsRoute app t = false := by
  rw [lookupPending_eq_false] at h
  exact h.1 t ht

lemma looksUp_eq_false {app : App W} {s : Server n W} (h : s.lookupPending app = false) (i : Fin n) :
    s.looksUp app (s.handling i) = false := by
  rw [lookupPending_eq_false] at h
  exact h.2 i

/-! ### Requests that stay as they are -/

lemma wantsRoute_congr {app : App W} {s s' : Server n W} {t : Addr}
    (h : (s'.tnodes t).map ThreadNode.fixed = (s.tnodes t).map ThreadNode.fixed) :
    s'.wantsRoute app t = s.wantsRoute app t := by
  have hwants : ∀ o : Option ThreadNode, o.any (ThreadNode.wantsRoute app) =
      (o.map ThreadNode.fixed).any fun x => ThreadNode.wantsRoute app ⟨x.1, x.2.1, none, 0, []⟩ := by
    intro o
    cases o <;> rfl
  rw [wantsRoute, wantsRoute, hwants, hwants, h]

/-- The worker goes on to `route_lookup` with a request that wants it. -/
lemma wantsRoute_of_parsed {app : App W} {s : Server n W} {t : Addr} {node : ThreadNode}
    {text : Bytes} {ok : Int} {req : HttpRequest} (hnode : s.tnodes t = some node)
    (htext : node.buffer.bytes = .ok text)
    (hparse : parseHttpRequest app.llhttp text = .ok (ok, req)) (hok : ok ≠ 1)
    (hget : getMothodType req.method = .ok .get) : s.wantsRoute app t = true := by
  simp [wantsRoute, hnode, ThreadNode.wantsRoute, htext, hparse, hok, hget]

/-! ### The invariant -/

/-- After `destroy_route` the loop is past it and no lookup is pending. -/
def NoLateLookup (app : App W) (s : Server n W) : Prop :=
  s.route = false → s.loop.destroyed = true ∧ s.lookupPending app = false

lemma Moves.destroyed {app : App W} {s : Server n W} {p : LoopPoint} (h : s.Moves app p)
    (hs : s.loop.destroyed = true) : p.destroyed = true := by
  cases h with
  | joined h hexit => rfl
  | _ => simp_all [LoopPoint.destroyed]

lemma HandleMoves.looksUp {app : App W} {s : Server n W} {i : Fin n} {p : HandlePoint}
    (h : s.HandleMoves app i p) (hs : s.looksUp app (s.handling i) = false) :
    s.looksUp app p = false := by
  cases h with
  | parsedGet t node text ok req h hnode htext hparse hok hget =>
    rw [h, Server.looksUp, wantsRoute_of_parsed hnode htext hparse hok hget] at hs
    cases hs
  | _ => rfl

/-- After the critical section the worker has what was in the queue. -/
lemma refs_ofWorker {p p' : Pool n TaskFunc Addr} {i : Fin n} (h : p.step (.enter i) = some p') :
    (HandlePoint.ofWorker (p'.thread i)).refs ⊆ p.refs := by
  have hmove := Pool.refs_of_enter h
  intro t ht
  rw [← hmove]
  exact Multiset.mem_add.mpr (.inr ht)

/-- With no lookup pending, a worker that moves does not come to one. -/
lemma Places.looksUp {app : App W} {s s' : Server n W} {i : Fin n} (h : Places app s s' i)
    (hpending : s.lookupPending app = false) :
    s'.handling i = s.handling i ∨
      s.looksUp app (s'.handling i) = false ∧ (s'.handling i).refs ⊆ s.refs := by
  cases h with
  | stays heq => exact .inl heq
  | enters hpool heq =>
    have hsub := refs_ofWorker hpool
    rw [heq]
    refine .inr ⟨?_, fun t ht => by simp [refs, hsub ht]⟩
    cases hthread : s'.pool.thread i with
    | running task =>
      rw [hthread] at hsub
      exact wantsRoute_eq_false hpending (hsub (Multiset.mem_singleton_self _))
    | _ => rfl
  | moves hmove htnodes =>
    refine .inr ⟨hmove.looksUp (looksUp_eq_false hpending i), fun t ht => ?_⟩
    exact mem_refs_of_handling (Multiset.mem_of_le hmove.refs ht)
  | generates t client req heq heq' =>
    rw [heq']
    refine .inr ⟨rfl, fun u hu => mem_refs_of_handling (i := i) ?_⟩
    rw [heq]
    exact hu
  | registers t client heq heq' =>
    rw [heq']
    exact .inr ⟨rfl, fun u hu => absurd hu (Multiset.notMem_zero u)⟩

/-- What is pending after a step was pending before it, if nothing comes into the queue. -/
lemma Rule.lookupPending {app : App W} {s s' : Server n W} {l : Label n W} (h : Rule app s l s')
    (hs : s.Owned) (hpending : s.lookupPending app = false)
    (hqueue : ∀ t ∈ s'.pool.refs, t ∈ s.pool.refs) : s'.lookupPending app = false := by
  rw [lookupPending_eq_false]
  refine ⟨fun t ht => ?_, fun i => ?_⟩
  · have hmem : t ∈ s.refs := by simp [refs, hqueue t ht]
    have hmem' : t ∈ s'.refs := by simp [refs, ht]
    rw [wantsRoute_congr (h.hands.fixed hs hmem hmem')]
    exact wantsRoute_eq_false hpending (hqueue t ht)
  · have hpoint : s.looksUp app (s'.handling i) = false ∧ (s'.handling i).refs ⊆ s.refs := by
      rcases (h.places i).looksUp hpending with heq | hmoved
      · rw [heq]
        exact ⟨looksUp_eq_false hpending i, fun t ht => mem_refs_of_handling ht⟩
      · exact hmoved
    obtain ⟨hlooks, hsub⟩ := hpoint
    cases heq : s'.handling i with
    | entered t =>
      have hmem' : t ∈ s'.refs :=
        mem_refs_of_handling (i := i) (by rw [heq]; exact Multiset.mem_singleton_self t)
      rw [heq] at hlooks hsub
      rw [looksUp, wantsRoute_congr (h.hands.fixed hs (hsub (Multiset.mem_singleton_self t)) hmem')]
      exact hlooks
    | lookup t client req =>
      rw [heq] at hlooks
      exact hlooks
    | _ => rfl

/-- Nothing comes into the queue but what the loop hands over. -/
lemma Rule.pool_refs {app : App W} {s s' : Server n W} {l : Label n W} (h : Rule app s l s') :
    (∀ t ∈ s'.pool.refs, t ∈ s.pool.refs) ∨ ∃ es t, s.loop = .handing es t := by
  cases h with
  | push es t mem ws r h hr => exact .inr ⟨es, t, h⟩
  | enter i p hp =>
    refine .inl fun t ht => ?_
    rw [← Pool.refs_of_enter hp]
    exact Multiset.mem_add.mpr (.inl ht)
  | wake i p hp => exact .inl fun t ht => Pool.refs_of_wake hp ▸ ht
  | finish i p h hp => exact .inl fun t ht => Pool.refs_of_finish hp ▸ ht
  | _ => exact .inl fun _ ht => ht

lemma Rule.destroyed {app : App W} {s s' : Server n W} {l : Label n W} (h : Rule app s l s')
    (hs : s.loop.destroyed = true) : s'.loop.destroyed = true := by
  cases h with
  | move a p hp => exact hp.destroyed hs
  | destroyRoute h => rfl
  | destroyPool h => rfl
  | freeList h => rfl
  | fault l f hf => exact hs
  | enter i p hp => exact hs
  | handle i a p hp => exact hs
  | generate i t client req w node h hnode => exact hs
  | register i t client h hopen => exact hs
  | _ => simp_all [LoopPoint.destroyed]

lemma Rule.noLateLookup {app : App W} {s s' : Server n W} {l : Label n W} (h : Rule app s l s')
    (hl : s.destroysIdle app l = true) (howned : s.Owned) (hs : s.NoLateLookup app) :
    s'.NoLateLookup app := by
  intro hroute
  by_cases hbefore : s.route = false
  · obtain ⟨hloop, hpending⟩ := hs hbefore
    refine ⟨h.destroyed hloop, h.lookupPending howned hpending ?_⟩
    rcases h.pool_refs with hqueue | ⟨es, t, hhanding⟩
    · exact hqueue
    · rw [hhanding] at hloop
      cases hloop
  · cases h with
    | destroyRoute h =>
      have hpending : s.lookupPending app = false := by simpa [destroysIdle, h] using hl
      exact ⟨rfl, hpending⟩
    | _ => exact absurd hroute hbefore

/-- With no lookup pending, the next step is none in the destroyed table. -/
lemma Rule.fault_ne_destroyedRoute {app : App W} {s s' : Server n W} {l : Label n W}
    (h : Rule app s l s') (hs : s.NoLateLookup app) (hfault : s.fault ≠ some .destroyedRoute) :
    s'.fault ≠ some .destroyedRoute := by
  cases h with
  | fault l f hf =>
    cases hf with
    | destroyedRoute i t client req h hroute =>
      have hlooks := looksUp_eq_false (hs hroute).2 i
      rw [h] at hlooks
      cases hlooks
    | _ => simp [fail]
  | _ => exact hfault

/-- If no lookup is pending whenever `destroy_route` is called, no worker ever looks a route up
after it. -/
theorem no_lookup_after_destroy {app : App W} {ls : List (Label n W)} {s : Server n W}
    (hls : Along (step app) (fun s l => s.destroysIdle app l = true) (init n W) ls)
    (h : run (step app) (init n W) ls = some s) :
    s.fault ≠ some .destroyedRoute ∧
      (s.route = false → ∀ i t client req, s.handling i ≠ .lookup t client req) := by
  have hs : s.NoLateLookup app ∧ s.fault ≠ some .destroyedRoute := by
    refine invariant_along (P := fun s => s.NoLateLookup app ∧ s.fault ≠ some .destroyedRoute)
      ⟨fun hroute => ?_, by simp [init]⟩ ?_ hls h
    · cases hroute
    · rintro s l s' hreach ⟨hlate, hfault⟩ hl hrule
      exact ⟨hrule.noLateLookup hl hreach.owned hlate, hrule.fault_ne_destroyedRoute hlate hfault⟩
  obtain ⟨hlate, hfault⟩ := hs
  refine ⟨hfault, fun hroute i t client req hi => ?_⟩
  have hlooks := looksUp_eq_false (hlate hroute).2 i
  rw [hi] at hlooks
  cases hlooks

/-- A request is answered, and the server is shut down after that. -/
theorem no_lookup_after_destroy_idle :
    ∃ s : Server 1 Unit, s.route = false ∧ s.history.generated.length = 1 ∧
      s.fault ≠ some .destroyedRoute ∧
      (s.route = false → ∀ i t client req, s.handling i ≠ .lookup t client req) := by
  have hrun : ((run (step Demo.app) (init 1 Unit)
      (Demo.start ++ Demo.poll [.read 3 none false] ++ Demo.accept 5 ++ Demo.next ++
        Demo.poll [.read 5 (some 0) false] ++ Demo.read Demo.request ++ Demo.answer ++
        Demo.stop)).map fun s =>
      (s.route, s.history.generated.length)) = some (false, 1) := by
    decide +kernel
  obtain ⟨s, hs, heq⟩ := Option.map_eq_some_iff.mp hrun
  rw [Prod.mk.injEq] at heq
  exact ⟨s, heq.1, heq.2, no_lookup_after_destroy (by decide +kernel) hs⟩

/-- A request is queued when the shutdown is requested. The worker takes it after
`destroy_route`, and looks its path up. -/
theorem lookup_after_destroy :
    ∃ s : Server 1 Unit, run (step Demo.app) (init 1 Unit)
        (Demo.start ++ Demo.poll [.read 3 none false] ++ Demo.accept 5 ++ Demo.next ++
          Demo.poll [.read 5 (some 0) false] ++ Demo.read Demo.request ++ [.signal] ++
          Demo.next ++ [.loop .test, .loop .close, .loop .close, .worker 0 .enter,
            .worker 0 .parse, .worker 0 .lookup]) = some s ∧
      s.fault = some .destroyedRoute := by
  have hrun : ((run (step Demo.app) (init 1 Unit)
      (Demo.start ++ Demo.poll [.read 3 none false] ++ Demo.accept 5 ++ Demo.next ++
        Demo.poll [.read 5 (some 0) false] ++ Demo.read Demo.request ++ [.signal] ++
        Demo.next ++ [.loop .test, .loop .close, .loop .close, .worker 0 .enter,
          .worker 0 .parse, .worker 0 .lookup])).map fun s => s.fault) =
      some (some .destroyedRoute) := by
    decide +kernel
  exact Option.map_eq_some_iff.mp hrun

end Server

end Ccybe
