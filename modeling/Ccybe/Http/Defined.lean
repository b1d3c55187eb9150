import Ccybe.Http.Batch
import Ccybe.Http.Delivered
import Ccybe.Http.Shutdown
import Ccybe.Messages

/-!
# What makes the behaviour undefined

There are five ways for a run to become undefined, and each can be seen in the state before the step
and in what the step is told. Everything else that could go wrong, such as the use of a task node
that was freed, or of a response that was not generated, does not happen in any run.
-/

namespace Ccybe

open CSem Trace Tally

/-! ### Requests that were parsed have a method -/

lemma putText_hasString {cells cells' : Block} {text : Bytes} (h : putText cells text = .ok cells') :
    HasString cells' (cstr text) := by
  rcases lt_or_ge text.length cells.length with hlt | hge
  · rw [putText_eq hlt] at h
    cases h
    obtain ⟨hnul, rest, hrest⟩ := hasString_terminated_cstr text
    exact ⟨hnul, rest ++ cells.drop (text.length + 1), by rw [written, hrest, List.append_assoc]⟩
  · rw [putText_bounds hge] at h
    cases h

namespace HttpRequest

/-- The method is a string, whatever the callbacks are. -/
lemma method_of_on {r r' : HttpRequest} {c : Callback} (h : r.on c = .ok r')
    (hr : ∃ name, HasString r.method name) : ∃ name, HasString r'.method name := by
  cases c with
  | method text =>
    obtain ⟨cells, hcells, h⟩ := bind_eq_ok.mp h
    cases h
    exact ⟨_, putText_hasString hcells⟩
  | url text =>
    obtain ⟨cells, -, h⟩ := bind_eq_ok.mp h
    cases h
    exact hr
  | headerField text =>
    obtain ⟨cells, -, h⟩ := bind_eq_ok.mp h
    cases h
    exact hr
  | headerValue text =>
    obtain ⟨cells, -, h⟩ := bind_eq_ok.mp h
    obtain ⟨headers, -, h⟩ := bind_eq_ok.mp h
    obtain ⟨count, -, h⟩ := bind_eq_ok.mp h
    cases h
    exact hr
  | headersComplete | body text | messageComplete =>
    cases h
    exact hr

lemma method_of_fold {trace : List Callback} {r r' : HttpRequest} (h : trace.foldlM on r = .ok r')
    (hr : ∃ name, HasString r.method name) : ∃ name, HasString r'.method name := by
  induction trace generalizing r with
  | nil =>
    cases h
    exact hr
  | cons c trace ih =>
    rw [List.foldlM_cons] at h
    obtain ⟨r₁, hon, h⟩ := bind_eq_ok.mp h
    exact ih h (method_of_on hon hr)

end HttpRequest

/-- When `parse_http_request` returns, `get_mothod_type` can be called. -/
lemma getMothodType_of_parse {llhttp : Llhttp} {buf : Bytes} {ok : Int} {req : HttpRequest}
    (h : parseHttpRequest llhttp buf = .ok (ok, req)) :
    ∃ method, getMothodType req.method = .ok method := by
  obtain ⟨r, hfold, h⟩ := bind_eq_ok.mp h
  obtain ⟨name, hname⟩ := HttpRequest.method_of_fold hfold
    ⟨[], @hasString_zeros [] List.not_mem_nil 8 (by decide)⟩
  have hmethod : req.method = r.method := by
    split at h
    · cases h
      rfl
    · obtain ⟨result, -, h⟩ := bind_eq_ok.mp h
      cases h
      rfl
  rw [hmethod, getMothodType, hname.readString_eq, ok_bind]
  split_ifs
  · exact ⟨_, rfl⟩
  · exact ⟨_, rfl⟩
  · exact ⟨_, rfl⟩

/-! ### The loop -/

/-- What was received in the READ event that is being handled. -/
def LoopPoint.chunks : LoopPoint → Option (List Bytes)
  | .reading _ _ _ chunks => some chunks
  | .building _ _ _ chunks _ => some chunks
  | _ => none

/-- The steps of the loop that can be undefined. -/
def LoopStep.risky {n : ℕ} : LoopStep n → Bool
  | .next _ | .accept _ | .recv _ => true
  | _ => false

/-- The steps of the workers that can be undefined. -/
def WorkerStep.risky {W : Type} : WorkerStep W → Bool
  | .parse | .lookup => true
  | _ => false

namespace Server

variable {n : ℕ} {W : Type}

/-- Only the event of the listener has no node, and the length of what was received is an `int`. -/
structure Sane (app : App W) (s : Server n W) : Prop where
  listener : ∀ ident eof, .read ident none eof ∈ s.loop.left → ident = app.lnFd
  short : ∀ chunks, s.loop.chunks = some chunks → (textOf chunks).length + 1 ≤ 2147483647

lemma Moves.left {app : App W} {s : Server n W} {p : LoopPoint} (h : s.Moves app p) :
    p.left.Sublist s.loop.left := by
  cases h with
  | listened ok h => cases ok <;> exact List.nil_sublist _
  | tested h => cases s.shutdownSignal <;> exact List.nil_sublist _
  | toAccept udata es h =>
    rw [h]
    exact List.sublist_cons_self _ _
  | toRead ident a es node mem buf h hne hnode hbuf =>
    rw [h]
    exact List.sublist_cons_self _ _
  | toWrite ident t es node h hnode =>
    rw [h]
    exact List.sublist_cons_self _ _
  | accepted es h =>
    rw [h]
    exact List.Sublist.refl _
  | received es client buf buf' chunks chunk mem h hbuf =>
    rw [h]
    exact List.Sublist.refl _
  | dropReading es client buf chunks h =>
    rw [h]
    exact List.Sublist.refl _
  | _ => exact List.nil_sublist _

/-- What is appended to has room. -/
lemma short_of_append {buf buf' : StringT} {text bs : Bytes} {mem : Bool} (hbuf : buf.HoldsOrNull text)
    (h : buf.appendStringCstr (some (terminated bs)) mem = .ok (true, buf')) :
    text.length + (cstr bs).length + 1 ≤ 2147483647 := by
  rcases hbuf with hbuf | ⟨rfl, -⟩
  · by_contra hgt
    rw [StringT.appendStringCstr_overflow hbuf (hasString_terminated_cstr bs) (by omega) mem] at h
    cases h
  · rw [StringT.appendStringCstr_null] at h
    cases h

lemma Moves.sane {app : App W} {s : Server n W} {p : LoopPoint} (h : s.Moves app p)
    (htraced : s.Traced app) (hs : s.Sane app) : Sane app { s with loop := p } where
  listener := fun ident eof hmem => hs.listener ident eof (h.left.subset hmem)
  short := by
    intro chunks hchunks
    have hchunks : p.chunks = some chunks := hchunks
    cases h with
    | listened ok h => cases ok <;> cases hchunks
    | tested h => cases hsignal : s.shutdownSignal <;> simp [hsignal, LoopPoint.chunks] at hchunks
    | toRead ident a es node mem buf h hne hnode hbuf =>
      cases hchunks
      decide
    | received es client buf buf' chunks₀ chunk mem h hbuf =>
      cases hchunks
      have hloop := htraced.loop
      rw [h] at hloop
      have hshort := short_of_append hloop hbuf
      rwa [textOf_append, List.length_append]
    | _ => cases hchunks

lemma sane_of_same {app : App W} {s s' : Server n W} (hs : s.Sane app) (hloop : s'.loop = s.loop) :
    s'.Sane app := by
  refine ⟨?_, ?_⟩
  · rw [hloop]
    exact hs.listener
  · rw [hloop]
    exact hs.short

/-- The loop leaves the handler of an event. -/
lemma Sane.leave {app : App W} {s s' : Server n W} (hs : s.Sane app)
    (hleft : s'.loop.left.Sublist s.loop.left) (hchunks : s'.loop.chunks = none) : s'.Sane app where
  listener := fun ident eof hmem => hs.listener ident eof (hleft.subset hmem)
  short := fun chunks hsome => by
    rw [hchunks] at hsome
    cases hsome

lemma Rule.sane {app : App W} {s s' : Server n W} {l : Label n W} (h : Rule app s l s')
    (htraced : s.Traced app) (hs : s.Sane app) : s'.Sane app := by
  cases h with
  | move a p hp => exact hp.sane htraced hs
  | fetch a es hloop hes =>
    refine ⟨fun ident eof hmem => ?_, fun chunks hsome => by cases hsome⟩
    simp only [Conns.batch, Bool.and_eq_true, List.all_eq_true] at hes
    simpa using hes.2 _ hmem
  | drained a es client buf chunks c hloop hc =>
    refine ⟨fun ident eof hmem => hs.listener ident eof ?_, ?_⟩
    · rw [hloop]
      exact hmem
    · rintro chunks' ⟨⟩
      exact hs.short chunks (by rw [hloop]; rfl)
  | signal => exact sane_of_same hs rfl
  | fault => exact sane_of_same hs rfl
  | accept => exact sane_of_same hs rfl
  | enter => exact sane_of_same hs rfl
  | wake => exact sane_of_same hs rfl
  | handle => exact sane_of_same hs rfl
  | generate => exact sane_of_same hs rfl
  | register => exact sane_of_same hs rfl
  | finish => exact sane_of_same hs rfl
  | eof a ident udata es hloop =>
    refine hs.leave ?_ rfl
    rw [hloop]
    exact List.sublist_cons_self _ _
  | sent a es t node resp total k c hloop hnode hresp hc hk hle =>
    refine hs.leave ?_ rfl
    rw [hloop]
    exact List.Sublist.refl _
  | disconnected a es client buf chunks hloop =>
    refine hs.leave ?_ rfl
    rw [hloop]
    exact List.Sublist.refl _
  | notBuilt es client buf chunks conn memTnode memBuffer memReq memResp hloop hmem =>
    refine hs.leave ?_ rfl
    rw [hloop]
    exact List.Sublist.refl _
  | built a es client buf chunks conn mem buffer hloop hcopy hdata =>
    refine hs.leave ?_ rfl
    rw [hloop]
    exact List.Sublist.refl _
  | push es t mem ws r hloop hr =>
    refine hs.leave ?_ rfl
    rw [hloop]
    exact List.Sublist.refl _
  | again a es t node total registered hloop hnode =>
    refine hs.leave ?_ rfl
    rw [hloop]
    exact List.Sublist.refl _
  | gaveUp es t node resp total r registered hloop hnode hresp hr =>
    refine hs.leave ?_ rfl
    rw [hloop]
    exact List.Sublist.refl _
  | done es t node resp total hloop hnode hresp hle =>
    refine hs.leave ?_ rfl
    rw [hloop]
    exact List.Sublist.refl _
  | destroyRoute => exact hs.leave (List.nil_sublist _) rfl
  | destroyPool => exact hs.leave (List.nil_sublist _) rfl
  | freeList => exact hs.leave (List.nil_sublist _) rfl

lemma sane_init (app : App W) : (init n W).Sane app where
  listener := fun ident eof hmem => absurd hmem List.not_mem_nil
  short := fun chunks hsome => by cases hsome

lemma Reachable.sane {app : App W} {s : Server n W} (h : Reachable app s) : s.Sane app :=
  h.invariant (sane_init app) fun _ _ _ hreach hs hrule => hrule.sane hreach.traced hs

/-! ### The five ways -/

/-- The step makes the run undefined: there is no memory for an accepted client, the list node of a
READ event was freed, what was received is too long for an `int`, the parsing of a request is
undefined, or the table of routes was destroyed before the lookup. -/
def hazard (app : App W) (s : Server n W) (l : Label n W) : Bool :=
  match s.loop, l with
  | .accepting _, .loop (.accept (.conn _ nonblock mem _)) => nonblock && !mem
  | .events (.read ident (some a) false :: _), .loop (.next _) =>
    ident != app.lnFd && (s.conns.clients.find a).isNone
  | .reading _ _ buf chunks, .loop (.recv (.data chunk _)) =>
    buf.data.isSome && decide (2147483647 < (textOf (chunks ++ [chunk])).length + 1)
  | _, .worker i .parse =>
    match s.handling i with
    | .entered t => (s.tnodes t).any fun node =>
      !(parseHttpRequest app.llhttp (textOf node.chunks)).isOk
    | _ => false
  | _, .worker i .lookup =>
    match s.handling i with
    | .lookup _ _ _ => !s.route
    | _ => false
  | _, _ => false

attribute [local simp] hazard WorkerStep.risky LoopStep.risky

lemma hazard_parse {app : App W} {s : Server n W} {i : Fin n} {t : Addr}
    (h : s.handling i = .entered t) : s.hazard app (.worker i .parse) =
      (s.tnodes t).any fun node => !(parseHttpRequest app.llhttp (textOf node.chunks)).isOk := by
  cases hloop : s.loop <;> simp [h, hloop]

lemma hazard_lookup {app : App W} {s : Server n W} {i : Fin n} {t : Addr} {client : Client}
    {req : HttpRequest} (h : s.handling i = .lookup t client req) :
    s.hazard app (.worker i .lookup) = !s.route := by
  cases hloop : s.loop <;> simp [h, hloop]

lemma hazard_worker {app : App W} {s : Server n W} {i : Fin n} {a : WorkerStep W}
    (ha : a.risky = false) : s.hazard app (.worker i a) = false := by
  cases hloop : s.loop <;> cases a <;> simp_all

lemma hazard_loop {app : App W} {s : Server n W} {a : LoopStep n} (ha : a.risky = false) :
    s.hazard app (.loop a) = false := by
  cases a <;> cases hloop : s.loop <;> simp_all

lemma nextEvent_fault {app : App W} {s : Server n W} {es : List KEvent} (hf : s.fault = none)
    (howned : s.Owned) (hs : s.Sane app) (hloop : s.loop = .events es) (mem : Bool) :
    (s.nextEvent app mem es).fault = none ↔ s.hazard app (.loop (.next mem)) = false := by
  cases es with
  | nil => simp [nextEvent, hloop, hf]
  | cons e es =>
    cases e with
    | write ident t =>
      obtain ⟨node, hnode⟩ := Option.isSome_iff_exists.mp
        (howned.live t (mem_refs_of_loop (by simp [hloop, LoopPoint.refs])))
      simp [nextEvent, hloop, hf, hnode]
    | read ident udata eof =>
      cases eof with
      | true => simp [nextEvent, hloop, hf]
      | false =>
        by_cases hln : ident = app.lnFd
        · cases udata <;> simp [nextEvent, hloop, hf, hln]
        · cases udata with
          | none => exact absurd (hs.listener ident false (by simp [hloop, LoopPoint.left])) hln
          | some a =>
            have hnew := StringT.newString_if (hasString_terminated (List.not_mem_nil (a := 0)))
              (by decide) mem
            cases hnode : s.conns.clients.find a with
            | none => simp [nextEvent, hloop, hln, hnode, fail]
            | some node => simp [nextEvent, hloop, hf, hln, hnode, hnew]

lemma recv_fault {app : App W} {s s' : Server n W} {es : List KEvent} {client : Client}
    {buf : StringT} {chunks : List Bytes} {r : RecvResult} (hf : s.fault = none)
    (htraced : s.Traced app) (hloop : s.loop = .reading es client buf chunks)
    (h : s.recv es client buf chunks r = some s') :
    s'.fault = none ↔ s.hazard app (.loop (.recv r)) = false := by
  cases r with
  | failed =>
    cases h
    simp [hloop, hf]
  | again =>
    obtain ⟨c, -, rfl⟩ := Option.map_eq_some_iff.mp h
    simp [hloop, hf]
  | closed =>
    simp only [recv] at h
    split_ifs at h
    cases h
    simp [hloop, hf]
  | data chunk mem =>
    have hbuf := htraced.loop
    rw [hloop] at hbuf
    have hlen : (textOf (chunks ++ [chunk])).length = (textOf chunks).length + (cstr chunk).length := by
      rw [textOf_append, List.length_append]
    have hcells := hasString_terminated_cstr chunk
    simp only [recv] at h
    split_ifs at h
    rcases hbuf with hbuf | ⟨rfl, -⟩
    · rcases le_or_gt ((textOf chunks).length + (cstr chunk).length + 1) 2147483647 with hle | hgt
      · rw [hbuf.eq_of, StringT.appendStringCstr_if _ hcells hle mem] at h
        have hok : s.hazard app (.loop (.recv (.data chunk mem))) = false := by
          simp [hloop, hlen]
          omega
        cases mem <;> cases h <;> exact iff_of_true hf hok
      · rw [StringT.appendStringCstr_overflow hbuf hcells hgt mem] at h
        cases h
        simp [hloop, hlen, hbuf.data, fail]
        omega
    · rw [StringT.appendStringCstr_null] at h
      cases h
      simp [hloop, hf, StringT.null]

lemma build_fault {app : App W} {s : Server n W} {es : List KEvent} {client : Client} {buf : StringT}
    {chunks : List Bytes} {conn : ConnId} (hf : s.fault = none) (htraced : s.Traced app)
    (hs : s.Sane app) (hloop : s.loop = .building es client buf chunks conn)
    (memTnode memBuffer memReq memResp : Bool) :
    (s.build es client buf chunks conn memTnode memBuffer memReq memResp).fault = none := by
  have hbuf := htraced.loop
  rw [hloop] at hbuf
  have hcopy := hbuf.1.begins.copyString_if (hs.short chunks (by rw [hloop]; rfl)) memBuffer
  simp only [build, hcopy]
  split_ifs <;> exact hf

lemma send_fault {s s' : Server n W} {es : List KEvent} {t : Addr} {node : ThreadNode}
    {resp : Bytes} {totalSend : ℕ} {r : SendResult} {registered : Bool} (hf : s.fault = none)
    (h : s.send es t node resp totalSend r registered = some s') : s'.fault = none := by
  simp only [send] at h
  split at h <;> cases h <;> exact hf

lemma parse_fault {app : App W} {s : Server n W} {i : Fin n} {t : Addr} (hf : s.fault = none)
    (howned : s.Owned) (htraced : s.Traced app) (hi : s.handling i = .entered t) :
    (s.parse app i t).fault = none ↔ s.hazard app (.worker i .parse) = false := by
  obtain ⟨node, hnode⟩ := Option.isSome_iff_exists.mp
    (howned.live t (mem_refs_of_handling (i := i) (by simp [hi, HandlePoint.refs])))
  have hbuf := (htraced.nodes t node hnode).buffer
  rw [hazard_parse hi, hnode, parse, hnode]
  simp only [hbuf.data, hbuf.bytes_eq, ok_bind, Option.isNone_some, Bool.false_eq_true, if_false]
  cases hparse : parseHttpRequest app.llhttp (textOf node.chunks) with
  | error u => simp [fail, hparse, Except.isOk, Except.toBool]
  | ok r =>
    obtain ⟨ok, req⟩ := r
    obtain ⟨method, hmethod⟩ := getMothodType_of_parse hparse
    refine iff_of_true ?_ (by simp [hparse, Except.isOk, Except.toBool])
    simp only [hmethod]
    split_ifs
    · exact hf
    · cases method <;> exact hf

lemma loopStep_fault {app : App W} {s s' : Server n W} {a : LoopStep n} (hreach : Reachable app s)
    (hf : s.fault = none) (h : s.loopStep app a = some s') :
    s'.fault = none ↔ s.hazard app (.loop a) = false := by
  cases a with
  | listen ok =>
    simp only [loopStep] at h
    split at h <;> cases h
    exact iff_of_true hf (hazard_loop rfl)
  | test =>
    simp only [loopStep] at h
    split at h <;> cases h
    exact iff_of_true hf (hazard_loop rfl)
  | poll r =>
    have hhaz : s.hazard app (.loop (.poll r)) = false := hazard_loop rfl
    simp only [loopStep] at h
    split at h
    · cases h
      exact iff_of_true hf hhaz
    · cases h
      exact iff_of_true hf hhaz
    · split_ifs at h
      cases h
      exact iff_of_true hf hhaz
    · cases h
  | next mem =>
    simp only [loopStep] at h
    split at h
    · rename_i es hloop
      cases h
      exact nextEvent_fault hf hreach.owned hreach.sane hloop mem
    · cases h
  | accept r =>
    simp only [loopStep] at h
    split at h
    · rename_i es hloop
      cases h
      simp [hloop, hf]
    · rename_i es fd nonblock mem registered hloop
      split_ifs at h
      cases h
      cases nonblock <;> cases mem <;> simp [acceptClient, hloop, hf, fail]
    · cases h
  | recv r =>
    simp only [loopStep] at h
    split at h
    · rename_i es client buf chunks hloop
      exact recv_fault hf hreach.traced hloop h
    · cases h
  | build memTnode memBuffer memReq memResp =>
    simp only [loopStep] at h
    split at h
    · rename_i es client buf chunks conn hloop
      cases h
      exact iff_of_true (build_fault hf hreach.traced hreach.sane hloop _ _ _ _)
        (hazard_loop rfl)
    · cases h
  | push mem ws =>
    simp only [loopStep] at h
    split at h
    · obtain ⟨r, -, rfl⟩ := Option.map_eq_some_iff.mp h
      exact iff_of_true hf (hazard_loop rfl)
    · cases h
  | send r registered =>
    have hhaz : s.hazard app (.loop (.send r registered)) = false := hazard_loop rfl
    simp only [loopStep] at h
    split at h
    · rename_i es t total hloop
      obtain ⟨node, resp, hnode, hresp⟩ := hreach.filled (t := t)
        (mem_outgoing.mpr (.inl (.inr (by simp [hloop, LoopPoint.current]))))
      simp only [hnode, hresp] at h
      split_ifs at h
      exact iff_of_true (send_fault hf h) hhaz
    · cases h
  | done =>
    have hhaz : s.hazard app (.loop .done) = false := hazard_loop rfl
    simp only [loopStep] at h
    split at h
    · rename_i es t total hloop
      obtain ⟨node, resp, hnode, hresp⟩ := hreach.filled (t := t)
        (mem_outgoing.mpr (.inl (.inr (by simp [hloop, LoopPoint.current]))))
      simp only [hnode, hresp] at h
      split_ifs at h
      cases h
      exact iff_of_true hf hhaz
    · cases h
  | close =>
    have hhaz : s.hazard app (.loop .close) = false := hazard_loop rfl
    simp only [loopStep] at h
    split at h
    · cases h
      exact iff_of_true hf hhaz
    · cases h
      exact iff_of_true hf hhaz
    · cases h
      exact iff_of_true hf hhaz
    · split_ifs at h
      cases h
      exact iff_of_true hf hhaz
    · cases h
      exact iff_of_true hf hhaz
    · cases h

lemma workerStep_fault {app : App W} {s s' : Server n W} {i : Fin n} {a : WorkerStep W}
    (hreach : Reachable app s) (hf : s.fault = none) (h : s.workerStep app i a = some s') :
    s'.fault = none ↔ s.hazard app (.worker i a) = false := by
  cases a with
  | enter =>
    obtain ⟨p, -, rfl⟩ := Option.map_eq_some_iff.mp h
    exact iff_of_true hf (hazard_worker rfl)
  | wake =>
    obtain ⟨p, -, rfl⟩ := Option.map_eq_some_iff.mp h
    exact iff_of_true hf (hazard_worker rfl)
  | parse =>
    simp only [workerStep] at h
    split at h
    · rename_i t hi
      cases h
      exact parse_fault hf hreach.owned hreach.traced hi
    · cases h
  | lookup =>
    simp only [workerStep] at h
    split at h
    · rename_i t client req hi
      rw [hazard_lookup hi]
      split_ifs at h with hroute
      · cases h
        exact iff_of_true hf (by simp [hroute])
      · cases h
        simp [fail, hroute]
    · cases h
  | generate w =>
    simp only [workerStep] at h
    split at h
    · rename_i t client req hi
      obtain ⟨node, hnode⟩ := Option.isSome_iff_exists.mp
        (hreach.owned.live t (mem_refs_of_handling (i := i) (by simp [hi, HandlePoint.refs])))
      cases h
      refine iff_of_true ?_ (hazard_worker rfl)
      rw [generate, hnode]
      exact hf
    · cases h
  | register ok =>
    simp only [workerStep] at h
    split at h
    · split_ifs at h <;> cases h <;> exact iff_of_true hf (hazard_worker rfl)
    · cases h
  | finish =>
    simp only [workerStep] at h
    split at h
    · obtain ⟨p, -, rfl⟩ := Option.map_eq_some_iff.mp h
      exact iff_of_true hf (hazard_worker rfl)
    · cases h

/-- A step makes the run undefined in one of the five ways only, and in each of them. -/
lemma Reachable.step_fault {app : App W} {s s' : Server n W} {l : Label n W}
    (hreach : Reachable app s) (h : s.step app l = some s') :
    s'.fault = none ↔ s.hazard app l = false := by
  obtain ⟨hf, -⟩ := Rule.of_step h
  unfold step at h
  rw [if_neg (by simp [hf])] at h
  cases l with
  | signal =>
    cases h
    refine iff_of_true hf ?_
    cases hloop : s.loop <;> simp [hloop]
  | loop a => exact loopStep_fault hreach hf h
  | worker i a => exact workerStep_fault hreach hf h

end Server

end Ccybe
