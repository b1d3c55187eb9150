import Ccybe.Http.Ownership

/-!
# Where responses come from

A task node is made from what was received in one READ event, and its response is generated from
that text alone. What `write_to_client` sends is a part of such a response.
-/

namespace Ccybe

open CSem Trace Tally

/-- The text that `read_from_client` puts together from what `recv` returned. -/
def textOf (chunks : List Bytes) : Bytes := chunks.flatMap cstr

lemma textOf_append (chunks : List Bytes) (chunk : Bytes) :
    textOf (chunks ++ [chunk]) = textOf chunks ++ cstr chunk := by
  simp [textOf]

/-- Without zero bytes nothing is cut off. -/
lemma textOf_eq_flatten {chunks : List Bytes} (h : (0 : UInt8) ∉ chunks.flatten) :
    textOf chunks = chunks.flatten := by
  induction chunks with
  | nil => rfl
  | cons chunk chunks ih =>
    rw [List.flatten_cons, List.mem_append, not_or] at h
    rw [textOf, List.flatMap_cons, cstr_eq_self h.1, List.flatten_cons]
    exact congrArg (chunk ++ ·) (ih h.2)

/-- `parse_http_request` accepts the text, and makes `req` of it. -/
def App.Parses {W : Type} (app : App W) (text : Bytes) (req : HttpRequest) : Prop :=
  ∃ ok, parseHttpRequest app.llhttp text = .ok (ok, req) ∧ ok ≠ 1

/-- Whether `parse_http_request` accepts the text. -/
def App.accepts {W : Type} (app : App W) (text : Bytes) : Bool :=
  match parseHttpRequest app.llhttp text with
  | .ok (ok, _) => decide (ok ≠ 1)
  | .error _ => false

lemma App.accepts_iff {W : Type} {app : App W} {text : Bytes} :
    app.accepts text = true ↔ ∃ req, app.Parses text req := by
  unfold App.accepts
  constructor
  · intro h
    split at h
    · rename_i ok req hparse
      exact ⟨req, ok, hparse, of_decide_eq_true h⟩
    · cases h
  · rintro ⟨req, ok, hparse, hok⟩
    rw [hparse]
    exact decide_eq_true hok

lemma App.Parses.accepts {W : Type} {app : App W} {text : Bytes} {req : HttpRequest}
    (h : app.Parses text req) : app.accepts text = true :=
  App.accepts_iff.mpr ⟨req, h⟩

/-- `resp` is the response to the text, if it is received in one READ event. -/
def App.Answers {W : Type} (app : App W) (text : Bytes) (w : W) (resp : Bytes) : Prop :=
  ∃ req, app.Parses text req ∧ resp = app.respond w req

/-- The response was generated for what was received, and from nothing else. -/
def Generated.Sound {W : Type} (app : App W) (received : List (ConnId × List Bytes))
    (g : Generated W) : Prop :=
  (g.origin, g.chunks) ∈ received ∧ app.Answers (textOf g.chunks) g.world g.resp

/-- The task node holds what was received, and its response, if there is one, was generated for
that. -/
structure ThreadNode.Traced {W : Type} (h : History W) (node : ThreadNode) : Prop where
  received : (node.conn, node.chunks) ∈ h.received
  buffer : node.buffer.Holds (textOf node.chunks)
  resp : ∀ resp, node.completeResp = some resp → ∃ g ∈ h.generated,
    g.origin = node.conn ∧ g.chunks = node.chunks ∧ g.resp = resp

lemma ThreadNode.Traced.mono {W : Type} {h h' : History W} {node : ThreadNode} (hnode : node.Traced h)
    (hreceived : h.received ⊆ h'.received) (hgenerated : h.generated ⊆ h'.generated) :
    node.Traced h' where
  received := hreceived hnode.received
  buffer := hnode.buffer
  resp := fun resp hresp => by
    obtain ⟨g, hg, heq⟩ := hnode.resp resp hresp
    exact ⟨g, hgenerated hg, heq⟩

/-- The buffer of `read_from_client` holds what was received. -/
def LoopPoint.Traced {W : Type} (h : History W) : LoopPoint → Prop
  | .reading _ _ buf chunks => buf.HoldsOrNull (textOf chunks)
  | .building _ _ buf chunks conn =>
    buf.HoldsOrNull (textOf chunks) ∧ (conn, chunks) ∈ h.received
  | _ => True

lemma LoopPoint.Traced.mono {W : Type} {h h' : History W} {p : LoopPoint} (hp : p.Traced h)
    (hreceived : h.received ⊆ h'.received) : p.Traced h' := by
  cases p with
  | building es client buf chunks conn => exact ⟨hp.1, hreceived hp.2⟩
  | reading es client buf chunks => exact hp
  | _ => trivial

/-- The request that a worker has parsed, with its task node. -/
def HandlePoint.request : HandlePoint → Option (Addr × HttpRequest)
  | .lookup t _ req => some (t, req)
  | .generate t _ req => some (t, req)
  | _ => none

/-- What is sent is a part of a response. -/
def SendRecord.Traced {W : Type} (h : History W) (r : SendRecord) : Prop :=
  ∃ g ∈ h.generated, g.origin = r.origin ∧ g.chunks = r.chunks ∧ r.data <:+: g.resp

namespace Server

variable {n : ℕ} {W : Type}

/-- The invariant of where things come from. -/
structure Traced (app : App W) (s : Server n W) : Prop where
  nodes : ∀ t node, s.tnodes t = some node → node.Traced s.history
  loop : s.loop.Traced s.history
  handling : ∀ i t req, (s.handling i).request = some (t, req) →
    ∀ node, s.tnodes t = some node → app.Parses (textOf node.chunks) req
  generated : ∀ g ∈ s.history.generated, g.Sound app s.history.received
  sends : ∀ r ∈ s.history.sends, r.Traced s.history

lemma traced_init (app : App W) : (init n W).Traced app where
  nodes := by simp [init]
  loop := trivial
  handling := by simp [init, HandlePoint.request]
  generated := by simp [init]
  sends := by simp [init]

/-! ### The history grows -/

lemma Rule.received_subset {app : App W} {s s' : Server n W} {l : Label n W}
    (h : Rule app s l s') : s.history.received ⊆ s'.history.received := by
  cases h with
  | drained => exact List.subset_append_left _ _
  | _ => exact fun _ hx => hx

lemma Rule.generated_subset {app : App W} {s s' : Server n W} {l : Label n W}
    (h : Rule app s l s') : s.history.generated ⊆ s'.history.generated := by
  cases h with
  | generate => exact List.subset_append_left _ _
  | _ => exact fun _ hx => hx

/-! ### Steps -/

lemma Moves.traced {app : App W} {s : Server n W} {p : LoopPoint} (h : s.Moves app p)
    (hs : s.loop.Traced s.history) : p.Traced s.history := by
  cases h with
  | listened ok h => cases ok <;> trivial
  | tested h => cases s.shutdownSignal <;> trivial
  | toRead ident a es node mem buf h hne hnode hbuf =>
    rcases StringT.newString_holds hbuf with hnull | hholds
    · exact .inr ⟨hnull, rfl⟩
    · exact .inl hholds
  | received es client buf buf' chunks chunk mem h hbuf =>
    rw [h] at hs
    rcases hs with hs | ⟨rfl, -⟩
    · rcases StringT.appendStringCstr_holds hs hbuf with ⟨hok, -⟩ | ⟨-, hholds⟩
      · cases hok
      · rw [LoopPoint.Traced, textOf_append]
        exact .inl hholds
    · rw [StringT.appendStringCstr_null] at hbuf
      cases hbuf
  | _ => trivial

lemma Rule.loop_traced {app : App W} {s s' : Server n W} {l : Label n W} (h : Rule app s l s')
    (hs : s.loop.Traced s.history) : s'.loop.Traced s'.history := by
  cases h with
  | move a p hp => exact hp.traced hs
  | drained a es client buf chunks c h hc =>
    rw [h] at hs
    exact ⟨hs, List.mem_append_right _ List.mem_cons_self⟩
  | signal => exact hs
  | fault l f hf => exact hs
  | accept => exact hs
  | enter => exact hs
  | wake => exact hs
  | handle => exact hs
  | generate => exact hs.mono (fun _ hx => hx)
  | register => exact hs
  | finish => exact hs
  | _ => trivial

/-- A task node of after a step was there before it, is built in it, or gets its response. -/
lemma Rule.tnodes_cases {app : App W} {s s' : Server n W} {l : Label n W} (h : Rule app s l s')
    {t : Addr} {node' : ThreadNode} (hnode' : s'.tnodes t = some node') :
    s.tnodes t = some node' ∨
    (∃ es client buf chunks conn mem buffer, s.loop = .building es client buf chunks conn ∧
      buf.copyString mem = .ok buffer ∧ buffer.data ≠ none ∧
      node' = ⟨client, buffer, none, conn, chunks⟩) ∨
    ∃ node g, s.tnodes t = some node ∧ g ∈ s'.history.generated ∧ g.origin = node.conn ∧
      g.chunks = node.chunks ∧ node' = { node with completeResp := some g.resp } := by
  cases h with
  | built a es client buf chunks conn mem buffer h hcopy hdata =>
    have hupdate : Function.update s.tnodes s.nextTnode (some ⟨client, buffer, none, conn, chunks⟩) t
        = some node' := hnode'
    by_cases ht : t = s.nextTnode
    · rw [ht, Function.update_self] at hupdate
      exact .inr (.inl ⟨es, client, buf, chunks, conn, mem, buffer, h, hcopy, hdata,
        (Option.some.inj hupdate).symm⟩)
    · rw [Function.update_of_ne ht] at hupdate
      exact .inl hupdate
  | done es u node resp total h hnode hresp hle =>
    have hupdate : Function.update s.tnodes u none t = some node' := hnode'
    by_cases ht : t = u
    · rw [ht, Function.update_self] at hupdate
      cases hupdate
    · rw [Function.update_of_ne ht] at hupdate
      exact .inl hupdate
  | generate i u client req w node h hnode =>
    have hupdate : Function.update s.tnodes u
        (some { node with completeResp := some (app.respond w req) }) t = some node' := hnode'
    by_cases ht : t = u
    · rw [ht, Function.update_self] at hupdate
      exact .inr (.inr ⟨node, ⟨node.conn, node.chunks, w, app.respond w req⟩, ht ▸ hnode,
        List.mem_append_right _ List.mem_cons_self, rfl, rfl, (Option.some.inj hupdate).symm⟩)
    · rw [Function.update_of_ne ht] at hupdate
      exact .inl hupdate
  | _ => exact .inl hnode'

lemma Rule.nodes_traced {app : App W} {s s' : Server n W} {l : Label n W} (h : Rule app s l s')
    (hs : s.Traced app) (t : Addr) (node' : ThreadNode) (hnode' : s'.tnodes t = some node') :
    node'.Traced s'.history := by
  have hkept : ∀ node, s.tnodes t = some node → node.Traced s'.history := fun node hnode =>
    (hs.nodes t node hnode).mono h.received_subset h.generated_subset
  rcases h.tnodes_cases hnode' with hnode | ⟨es, client, buf, chunks, conn, mem, buffer, hloop,
    hcopy, hdata, rfl⟩ | ⟨node, g, hnode, hg, horigin, hchunks, rfl⟩
  · exact hkept node' hnode
  · have hbuf := hs.loop
    rw [hloop] at hbuf
    obtain ⟨hholds, hreceived⟩ := hbuf
    exact ⟨h.received_subset hreceived, StringT.copyString_holds hholds hcopy hdata,
      fun resp hresp => by cases hresp⟩
  · have hold := hkept node hnode
    exact ⟨hold.received, hold.buffer, fun resp hresp =>
      ⟨g, hg, horigin, hchunks, Option.some.inj hresp⟩⟩

/-- The request that the worker goes on with was parsed from what is in the task node. -/
lemma HandleMoves.parses {app : App W} {s : Server n W} {i : Fin n} {p : HandlePoint}
    (h : s.HandleMoves app i p) (hs : s.Traced app) {t : Addr} {req : HttpRequest}
    (hp : p.request = some (t, req)) {node : ThreadNode} (hnode : s.tnodes t = some node) :
    app.Parses (textOf node.chunks) req := by
  have htext : ∀ text, node.buffer.bytes = .ok text → text = textOf node.chunks := by
    intro text htext
    rw [(hs.nodes t node hnode).buffer.bytes_eq] at htext
    cases htext
    rfl
  cases h with
  | badRequest => cases hp
  | parsedGet u node' text ok req' h hnode' hbytes hparse hok hget =>
    cases hp
    obtain rfl : node' = node := Option.some.inj (hnode'.symm.trans hnode)
    rw [htext text hbytes] at hparse
    exact ⟨ok, hparse, hok⟩
  | parsedOther u node' text ok req' method h hnode' hbytes hparse hok hmethod hget =>
    cases hp
    obtain rfl : node' = node := Option.some.inj (hnode'.symm.trans hnode)
    rw [htext text hbytes] at hparse
    exact ⟨ok, hparse, hok⟩
  | found u client req' h hroute =>
    cases hp
    exact hs.handling i t req (by rw [h]; rfl) node hnode
  | registerFailed => cases hp

lemma request_ofWorker (w : Worker TaskFunc Addr) : (HandlePoint.ofWorker w).request = none := by
  cases w <;> rfl

lemma mem_refs_of_request {p : HandlePoint} {t : Addr} {req : HttpRequest}
    (h : p.request = some (t, req)) : t ∈ p.refs := by
  cases p with
  | lookup u client req' =>
    cases h
    exact Multiset.mem_singleton_self t
  | generate u client req' =>
    cases h
    exact Multiset.mem_singleton_self t
  | _ => cases h

lemma Rule.handling_traced {app : App W} {s s' : Server n W} {l : Label n W}
    (h : Rule app s l s') (howned : s.Owned) (hs : s.Traced app) (i : Fin n) (t : Addr)
    (req : HttpRequest) (hreq : (s'.handling i).request = some (t, req)) (node : ThreadNode)
    (hnode : s'.tnodes t = some node) : app.Parses (textOf node.chunks) req := by
  cases h.places i with
  | stays heq =>
    -- the task node is held before and after the step
    have hmem' : t ∈ s'.refs := mem_refs_of_handling (mem_refs_of_request hreq)
    rw [heq] at hreq
    have hmem : t ∈ s.refs := mem_refs_of_handling (mem_refs_of_request hreq)
    have hfixed := h.hands.fixed howned hmem hmem'
    rw [hnode, Option.map_some, eq_comm, Option.map_eq_some_iff] at hfixed
    obtain ⟨node', hnode', hfixed⟩ := hfixed
    have hchunks : node'.chunks = node.chunks := congrArg (fun x => x.2.2.2) hfixed
    rw [← hchunks]
    exact hs.handling i t req hreq node' hnode'
  | enters hpool heq =>
    rw [heq, request_ofWorker] at hreq
    cases hreq
  | moves hmove htnodes =>
    rw [htnodes] at hnode
    exact hmove.parses hs hreq hnode
  | generates u client req' heq heq' =>
    rw [heq'] at hreq
    cases hreq
  | registers u client heq heq' =>
    rw [heq'] at hreq
    cases hreq

lemma Rule.generated_sound {app : App W} {s s' : Server n W} {l : Label n W}
    (h : Rule app s l s') (hs : s.Traced app) :
    ∀ g ∈ s'.history.generated, g.Sound app s'.history.received := by
  have hkept : ∀ g ∈ s.history.generated, g.Sound app s'.history.received := by
    intro g hg
    obtain ⟨hreceived, hresp⟩ := hs.generated g hg
    exact ⟨h.received_subset hreceived, hresp⟩
  intro g hg
  cases h with
  | generate i t client req w node h hnode =>
    rcases List.mem_append.mp hg with hg | hg
    · exact hkept g hg
    · rw [List.mem_singleton] at hg
      subst hg
      have hparses := hs.handling i t req (by rw [h]; rfl) node hnode
      exact ⟨(hs.nodes t node hnode).received, req, hparses, rfl⟩
  | _ => exact hkept g hg

lemma Rule.sends_traced {app : App W} {s s' : Server n W} {l : Label n W}
    (h : Rule app s l s') (hs : s.Traced app) : ∀ r ∈ s'.history.sends, r.Traced s'.history := by
  have hkept : ∀ r ∈ s.history.sends, r.Traced s'.history := by
    intro r hr
    obtain ⟨g, hg, heq⟩ := hs.sends r hr
    exact ⟨g, h.generated_subset hg, heq⟩
  intro r hr
  cases h with
  | sent a es t node resp total k c h hnode hresp hc hk hle =>
    rcases List.mem_append.mp hr with hr | hr
    · exact hkept r hr
    · rw [List.mem_singleton] at hr
      subst hr
      obtain ⟨g, hg, horigin, hchunks, rfl⟩ := (hs.nodes t node hnode).resp resp hresp
      refine ⟨g, hg, horigin, hchunks, ?_⟩
      exact ((List.take_prefix _ _).isInfix).trans (List.drop_suffix _ _).isInfix
  | _ => exact hkept r hr

lemma Rule.traced {app : App W} {s s' : Server n W} {l : Label n W} (h : Rule app s l s')
    (howned : s.Owned) (hs : s.Traced app) : s'.Traced app where
  nodes := h.nodes_traced hs
  loop := h.loop_traced hs.loop
  handling := h.handling_traced howned hs
  generated := h.generated_sound hs
  sends := h.sends_traced hs

lemma Reachable.traced {app : App W} {s : Server n W} (h : Reachable app s) : s.Traced app :=
  h.invariant (traced_init app) fun _ _ _ hreach hs hrule => hrule.traced hreach.owned hs

end Server

end Ccybe
