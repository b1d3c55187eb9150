import Ccybe.Cnet
import Ccybe.Ds.ThreadPool.Create
import Ccybe.Http.Answer

/-!
# The start of the server (`main.c`)

`init_server` returns at the first call that fails and does not report it, so that `main` goes on with a
`server_t` of which some fields were not written. Where all calls succeed, `serve_and_listen` begins in
a state that the server reaches.
-/

namespace Ccybe

open CSem

/-- `server_t` on the stack of `main`; a field that was not written is `none`, and `T` is the table of
the routes. The batch of events is written by `kevent` only. -/
structure ServerT (n : ℕ) (T : Type) where
  ln : Option ListenerT
  efd : Option Int
  route : Option T
  pool : Option (Option (Pool n TaskFunc Addr))    -- what `create_pool` returned
  shutdownSignal : Option Bool
  recvTimeout : Option Int
  sendTimeout : Option Int
  clientList : Option LList

/-- A field is read. -/
def readField {α : Type} : Option α → Eval α
  | none => .error .uninit
  | some a => .ok a

/-- What the system and the libraries answer during the start. -/
structure StartWorld (n : ℕ) where
  khInit : Bool                              -- there is memory for the table of the routes
  createPool : Option (Pool n TaskFunc Addr)
  sigint : Int
  sigterm : Int
  kqueue : Int
  sockets : Sockets
  getfl : Int
  setfl : Int
  kevent : Int → Int                         -- by the descriptor of the kqueue

/-- What the start comes to. -/
inductive Start (n : ℕ) (T : Type) where
  | serving (server : ServerT n T)    -- `serve_and_listen` is at its loop
  | returned (closed : Bool)          -- it has returned 1; whether it has closed the listener

section

variable {n : ℕ} {V : Type} (kh : KHash V) (w : StartWorld n)

/-- `init_server`. -/
def initServer : ServerT n kh.Table :=
  let server : ServerT n kh.Table := ⟨none, none, none, none, none, none, none, none⟩
  if !w.khInit then server
  else
    let server := { server with route := some kh.init, pool := some w.createPool }
    if w.createPool.isNone then server
    else
      let server := { server with
        recvTimeout := some 10, sendTimeout := some 10, shutdownSignal := some false }
      if w.sigint < 0 then server
      else if w.sigterm < 0 then server
      else
        let server := { server with efd := some w.kqueue }
        if w.kqueue < 0 then server else { server with clientList := some .init }

variable {kh}

/-- `register_route`. -/
def registerRoute (server : ServerT n kh.Table) (call : Bytes × V) : Eval (ServerT n kh.Table) := do
  let route ← readField server.route
  pure { server with route := some (routeRegister kh route call.1 call.2).2 }

/-- `set_fd_nonblock`. -/
def setFdNonblock : Int := if w.getfl < 0 then w.getfl else w.setfl

/-- `init_listener`. -/
def initListener (server : ServerT n kh.Table) (address : Block) : Eval (Int × ServerT n kh.Table) := do
  let ln ← sListen w.sockets (terminated (ascii "tcp".toList)) (some address)
  if ln.err ≠ 0 then pure (1, { server with ln := some { ln with err := 1 } })
  else if setFdNonblock w < 0 then pure (2, { server with ln := some { ln with err := 2 } })
  else do
    let efd ← readField server.efd
    if w.kevent efd < 0 then pure (3, { server with ln := some { ln with err := 3 } })
    else pure (0, { server with ln := some { ln with err := 0 } })

/-- `serve_and_listen` up to its loop, or what follows the label `LISTENER_ERR`. -/
def serveAndListen (server : ServerT n kh.Table) (address : Block) : Eval (Start n kh.Table) := do
  let (ret, server) ← initListener w server address
  if ret ≠ 0 then do
    let ln ← readField server.ln
    let _ ← readField server.route         -- `destroy_route`
    let _ ← readField server.pool          -- `destroy_pool`
    let _ ← readField server.clientList    -- `free_list`
    pure (.returned (ln.err ≠ 1))
  else pure (.serving server)

variable (kh)

/-- `main`, with these routes and this address. -/
def start (routes : List (Bytes × V)) (address : Block) : Eval (Start n kh.Table) := do
  let server := { initServer kh w with recvTimeout := some 60, sendTimeout := some 60 }
  let server ← routes.foldlM registerRoute server
  serveAndListen w server address

end

/-- `main`. -/
def mainStart {n : ℕ} (kh : KHash RouteFn) (w : StartWorld n) : Eval (Start n kh.Table) :=
  start kh w mainRoutes (terminated (ascii ":8080".toList))

/-! ### What is written -/

/-- All calls of `init_server` succeed. -/
structure StartWorld.Succeeds {n : ℕ} (w : StartWorld n) : Prop where
  khInit : w.khInit = true
  createPool : w.createPool.isSome
  sigint : 0 ≤ w.sigint
  sigterm : 0 ≤ w.sigterm
  kqueue : 0 ≤ w.kqueue

section Written

variable {n : ℕ} {V : Type} {kh : KHash V} {w : StartWorld n}

lemma initServer_succeeds (h : w.Succeeds) : initServer kh w =
    ⟨none, some w.kqueue, some kh.init, some w.createPool, some false, some 10, some 10, some .init⟩ := by
  have hpool : w.createPool.isNone = false := by
    rw [← Option.not_isSome, h.createPool]
    rfl
  simp only [initServer, h.khInit, hpool, Bool.not_true, Bool.false_eq_true, if_false,
    not_lt.mpr h.sigint, not_lt.mpr h.sigterm, not_lt.mpr h.kqueue]

/-- After a call that failed there is no list, and no descriptor that `kevent` accepts. -/
lemma initServer_fails (h : ¬ w.Succeeds) : (initServer kh w).clientList = none ∧
    ∀ efd, (initServer kh w).efd = some efd → efd < 0 := by
  rw [initServer]
  by_cases hkh : w.khInit = true
  · by_cases hpool : w.createPool.isNone = true
    · simp [hkh, hpool]
    · by_cases hint : w.sigint < 0
      · simp [hkh, hpool, hint]
      · by_cases hterm : w.sigterm < 0
        · simp [hkh, hpool, hint, hterm]
        · by_cases hkqueue : w.kqueue < 0
          · simp [hkh, hpool, hint, hterm, hkqueue]
          · refine absurd ⟨hkh, ?_, not_lt.mp hint, not_lt.mp hterm, not_lt.mp hkqueue⟩ h
            rwa [Bool.not_eq_true, Option.isNone_eq_false_iff] at hpool
  · simp [hkh]

/-- Registering changes the table only. -/
lemma registerRoute_eq {server server' : ServerT n kh.Table} {routes : List (Bytes × V)}
    (h : routes.foldlM registerRoute server = .ok server') :
    server'.clientList = server.clientList ∧ server'.efd = server.efd := by
  induction routes generalizing server with
  | nil =>
    cases h
    exact ⟨rfl, rfl⟩
  | cons call routes ih =>
    rw [List.foldlM_cons] at h
    obtain ⟨server₁, hcall, hrest⟩ := bind_eq_ok.mp h
    obtain ⟨route, -, hserver⟩ := bind_eq_ok.mp hcall
    cases hserver
    have hsame := ih hrest
    exact hsame

lemma registerRoute_some {server : ServerT n kh.Table} {t : kh.Table} (h : server.route = some t)
    (routes : List (Bytes × V)) : routes.foldlM registerRoute server =
      .ok { server with
        route := some (routes.foldl (fun route call => (routeRegister kh route call.1 call.2).2) t) } := by
  induction routes generalizing server t with
  | nil =>
    rw [List.foldl_nil, ← h]
    rfl
  | cons call routes ih =>
    have hcall : registerRoute server call =
        .ok { server with route := some (routeRegister kh t call.1 call.2).2 } := by
      rw [registerRoute, h]
      rfl
    rw [List.foldlM_cons, hcall, ok_bind, ih rfl, List.foldl_cons]

end Written

/-! ### Listening -/

/-- Whatever the system answers, listening on a host returns. -/
lemma tcpCreateAndListenIpv4_ok (os : Sockets) {ln : ListenerT} {h : Bytes}
    (hhost : HasString ln.addr.host h) : ∃ ln', tcpCreateAndListenIpv4 os ln = .ok ln' := by
  have haddr := sockaddrOf_eq hhost ln.addr.port
  simp only [tcpCreateAndListenIpv4, haddr, ok_bind, pure_eq_ok]
  split_ifs <;> exact ⟨_, rfl⟩

/-- The address of `main` can be taken apart. -/
lemma sListen_main (os : Sockets) : ∃ ln, sListen os (terminated (ascii "tcp".toList))
    (some (terminated (ascii ":8080".toList))) = .ok ln := by
  have haddress : HasString (terminated (ascii ":8080".toList))
      ([] ++ chr ':' :: ascii "8080".toList) := hasString_terminated (by decide)
  have hport : HasString ((terminated (ascii ":8080".toList)).drop 1) (ascii "8080".toList) :=
    hasString_terminated (by decide)
  have hatoi : atoi ((terminated (ascii ":8080".toList)).drop (([] : Bytes).length + 1)) =
      .ok (8080 : ℕ) :=
    atoi_numeral hport (by decide) (by decide)
  have hprotocol : getProtocolType (terminated (ascii "tcp".toList)) = .ok (some .tcp) := by
    rw [getProtocolType, (hasString_terminated (by decide)).readString_eq]
    rfl
  rcases splitAddrPort_cases List.not_mem_nil haddress 0 with ⟨-, host, hhost, hsplit⟩ | ⟨hlong, -⟩
  · obtain ⟨ln, hln⟩ := @tcpCreateAndListenIpv4_ok os ⟨none, ⟨(8080 : ℕ), host⟩, 0, 0⟩ [] hhost
    refine ⟨ln, ?_⟩
    rw [sListen, hsplit, hatoi]
    simp only [Except.map, ok_bind, ne_eq, not_true_eq_false, if_false, hprotocol, hln]
  · exact absurd hlong (by decide)

/-! ### The start -/

section Started

variable {n : ℕ} {V : Type} {kh : KHash V} {w : StartWorld n}

/-- The server that is at the loop of `serve_and_listen`. -/
def StartWorld.server (kh : KHash V) (w : StartWorld n) (routes : List (Bytes × V)) (ln : ListenerT) :
    ServerT n kh.Table :=
  ⟨some { ln with err := 0 }, some w.kqueue, some (registerRoutes kh routes), some w.createPool,
    some false, some 60, some 60, some .init⟩

/-- What the start comes to, when `s_listen` has returned `ln`. -/
def StartWorld.outcome (kh : KHash V) (w : StartWorld n) (routes : List (Bytes × V)) (ln : ListenerT) :
    Start n kh.Table :=
  if ln.err = 0 ∧ 0 ≤ setFdNonblock w ∧ 0 ≤ w.kevent w.kqueue then .serving (w.server kh routes ln)
  else .returned (ln.err = 0)

lemma start_succeeds (h : w.Succeeds) (routes : List (Bytes × V)) {address : Block} {ln : ListenerT}
    (hln : sListen w.sockets (terminated (ascii "tcp".toList)) (some address) = .ok ln) :
    start kh w routes address = .ok (w.outcome kh routes ln) := by
  rw [start, initServer_succeeds h]
  simp only
  rw [registerRoute_some rfl, ok_bind, serveAndListen, initListener, hln, ok_bind, StartWorld.outcome]
  by_cases herr : ln.err = 0
  · by_cases hflag : setFdNonblock w < 0
    · simp [herr, hflag, readField]
    · by_cases hkevent : w.kevent w.kqueue < 0
      · simp [herr, hflag, hkevent, readField]
      · simp only [herr, ne_eq, not_true_eq_false, if_false, hflag, readField, ok_bind, hkevent, pure_eq_ok,
          not_lt.mp hflag, not_lt.mp hkevent, and_self, if_true]
        rfl
  · simp [herr, readField]

/-- What `init_listener` reads and what it leaves as it is. -/
lemma initListener_cases {server server' : ServerT n kh.Table} {address : Block} {ret : Int}
    (h : initListener w server address = .ok (ret, server')) :
    server'.clientList = server.clientList ∧
      (ret = 0 → ∃ efd, server.efd = some efd ∧ 0 ≤ w.kevent efd) := by
  obtain ⟨ln, -, h⟩ := bind_eq_ok.mp h
  split_ifs at h with herr hflag
  · cases h
    exact ⟨rfl, fun hret => by cases hret⟩
  · cases h
    exact ⟨rfl, fun hret => by cases hret⟩
  · obtain ⟨efd, hefd, h⟩ := bind_eq_ok.mp h
    have hfield : server.efd = some efd := by
      cases hfield : server.efd with
      | none =>
        rw [hfield] at hefd
        cases hefd
      | some efd' =>
        rw [hfield] at hefd
        cases hefd
        rfl
    split_ifs at h with hkevent
    · cases h
      exact ⟨rfl, fun hret => by cases hret⟩
    · cases h
      exact ⟨rfl, fun _ => ⟨efd, hfield, not_lt.mp hkevent⟩⟩

/-- After a call of `init_server` that failed, a field is read that was not written. -/
lemma start_fails (h : ¬ w.Succeeds) (hclosed : ∀ efd < 0, w.kevent efd < 0)
    (routes : List (Bytes × V)) (address : Block) (r : Start n kh.Table) :
    start kh w routes address ≠ .ok r := by
  intro hstart
  obtain ⟨hlist, hefd⟩ := @initServer_fails n V kh w h
  obtain ⟨server, hroutes, hserve⟩ := bind_eq_ok.mp hstart
  obtain ⟨hlist', hefd'⟩ := registerRoute_eq hroutes
  obtain ⟨⟨ret, server₁⟩, hlisten, hrest⟩ := bind_eq_ok.mp hserve
  obtain ⟨hlist₁, hret⟩ := initListener_cases hlisten
  simp only at hrest hlist'
  split_ifs at hrest with hzero
  · obtain ⟨ln, -, hrest⟩ := bind_eq_ok.mp hrest
    obtain ⟨route, -, hrest⟩ := bind_eq_ok.mp hrest
    obtain ⟨pool, -, hrest⟩ := bind_eq_ok.mp hrest
    rw [hlist₁, hlist', hlist] at hrest
    cases hrest
  · obtain ⟨efd, hfield, hkevent⟩ := hret (not_not.mp hzero)
    have hneg := hclosed efd (hefd efd (hefd'.symm.trans hfield))
    omega

end Started

/-- The start of `main` is defined if and only if `init_server` succeeds, which it does not report:
after any failure a field of the server is read that was never written. Where it succeeds, the loop
is reached if and only if `s_listen`, `fcntl` and `kevent` succeed too, with all fields written; and
else the listener is closed if and only if `s_listen` has succeeded. -/
theorem main_start_iff {n : ℕ} {kh : KHash RouteFn} {w : StartWorld n}
    (hclosed : ∀ efd < 0, w.kevent efd < 0) (r : Start n kh.Table) :
    mainStart kh w = .ok r ↔ w.Succeeds ∧ ∃ ln, sListen w.sockets (terminated (ascii "tcp".toList))
      (some (terminated (ascii ":8080".toList))) = .ok ln ∧ w.outcome kh mainRoutes ln = r := by
  by_cases h : w.Succeeds
  · obtain ⟨ln, hln⟩ := sListen_main w.sockets
    rw [mainStart, start_succeeds h mainRoutes hln, Except.ok.injEq, and_iff_right h, hln]
    simp only [Except.ok.injEq, exists_eq_left']
  · exact iff_of_false (start_fails h hclosed _ _ r) fun hr => h hr.1

/-- A system on which all succeeds but `kqueue`. -/
def withoutKqueue : StartWorld 1 :=
  ⟨true, some (.create 1 TaskFunc Addr 128), 0, 0, -1, succeeding, 0, 0, fun efd => if efd < 0 then -1 else 0⟩

theorem main_start_iff_kqueue : ¬ ∃ r, mainStart (listHash RouteFn) withoutKqueue = .ok r := by
  rintro ⟨r, hstart⟩
  have hclosed : ∀ efd < 0, withoutKqueue.kevent efd < 0 := fun efd hneg => by
    simp [withoutKqueue, hneg]
  obtain ⟨hsucceeds, -⟩ := (main_start_iff hclosed r).mp hstart
  exact absurd hsucceeds.kqueue (by decide)

/-! ### The loop -/

namespace Creation

variable {n : ℕ} {W : Type} {s s' : Creation n TaskFunc Addr}

lemma answer_pool {ok : Bool} (h : s.answer ok = some s') : s'.pool = s.pool := by
  simp only [answer] at h
  split at h
  case h_6 =>
    split_ifs at h with hi hok
    · cases h
      rfl
    · cases h
      rfl
  case h_7 => cases h
  all_goals
    cases h
    cases ok <;> rfl

lemma go_pool (h : s.go = some s') (hshutdown : s'.pool.shutdown = false) : s'.pool = s.pool := by
  simp only [go] at h
  split at h
  · split_ifs at h
    cases h
    rfl
  · cases h
    cases hshutdown
  · split_ifs at h
    · split at h
      · cases h
        rfl
      · cases h
    · cases h
      rfl
  · cases h
    rfl
  · cases h
    rfl
  · cases h

/-- The threads take the same steps in the server before it listens. -/
lemma Sound.turn_server {queueSize : Int} (app : App W) {i : Fin n} {e : Pool.Event n TaskFunc Addr}
    (hs : s.Sound queueSize) (he : e = .enter i ∨ e = .wake i ∨ e = .finish i) (h : s.turn i e = some s')
    (hshutdown : s.pool.shutdown = false) :
    ∃ a, Server.step app { Server.init n W with pool := s.pool } (.worker i a) =
      some { Server.init n W with pool := s'.pool } := by
  obtain ⟨-, pool, hpool, rfl⟩ := turn_eq h
  rcases he with rfl | rfl | rfl
  · have hempty : s.pool.q.items = [] :=
      (List.append_eq_nil_iff.mp (hs.reachable.inv.order.trans hs.accepted)).2
    have hcritical : s.pool.critical i = s.pool.setThread i .waiting := by
      rcases s.pool.critical_cases i with ⟨-, -, he⟩ | ⟨-, hs', -⟩ | ⟨task, q, hq, -⟩
      · exact he
      · rw [hshutdown] at hs'
        cases hs'
      · rw [hempty] at hq
        cases hq
    obtain ⟨-, hpool'⟩ := Pool.step_enter hpool
    have hthread : pool.thread i = .waiting := by
      rw [hpool', hcritical]
      simp [Pool.setThread]
    refine ⟨.enter, ?_⟩
    simp [Server.step, Server.init, Server.workerStep, Server.setHandling, hpool, hthread,
      HandlePoint.ofWorker]
  · refine ⟨.wake, ?_⟩
    simp [Server.step, Server.init, Server.workerStep, hpool]
  · obtain ⟨task, hrunning, -⟩ := Pool.step_finish hpool
    exact absurd hrunning (hs.not_running i task)

/-- What the threads have done during `create_pool` they may do in the server before it listens. -/
lemma Reachable.server (app : App W) {queueSize : Int} {c : Creation n TaskFunc Addr}
    (hpool : Pool.create n TaskFunc Addr queueSize = (Server.init n W).pool)
    (h : Reachable queueSize c) (hshutdown : c.pool.shutdown = false) :
    Server.Reachable app { Server.init n W with pool := c.pool } := by
  have hall : c.Sound queueSize ∧ (c.pool.shutdown = false →
      Server.Reachable app { Server.init n W with pool := c.pool }) := by
    refine Trace.Reaches.invariant (P := fun c => c.Sound queueSize ∧ (c.pool.shutdown = false →
      Server.Reachable app { Server.init n W with pool := c.pool })) ?_ h ⟨sound_new queueSize, ?_⟩
    · rintro s l s' ⟨hs, hreach⟩ hstep
      refine ⟨hs.step hstep, fun hshutdown => ?_⟩
      rcases step_cases hstep with ⟨ok, -, hstep⟩ | ⟨-, hstep⟩ | ⟨i, e, he, hstep⟩
      · have hsame := answer_pool hstep
        rw [hsame] at hshutdown ⊢
        exact hreach hshutdown
      · have hsame := go_pool hstep hshutdown
        rw [hsame] at hshutdown ⊢
        exact hreach hshutdown
      · obtain ⟨-, pool, hstep', hs'⟩ := turn_eq hstep
        have hbefore : s.pool.shutdown = false := by
          rw [← (Pool.Turns.of_step he hstep').shutdown, ← hshutdown, hs']
        obtain ⟨a, ha⟩ := hs.turn_server app he hstep hbefore
        exact (hreach hbefore).trans (.of_step ha)
    · intro _
      have hinit : ({ Server.init n W with pool := (new n TaskFunc Addr queueSize).pool } : Server n W) =
          Server.init n W := by
        rw [show (new n TaskFunc Addr queueSize).pool = (Server.init n W).pool from hpool]
      rw [hinit]
      exact Trace.Reaches.refl _
  exact hall.2 hshutdown

end Creation

/-- The fields of `server_t` are those of a state that is at the loop of `serve_and_listen`. -/
structure ServerT.Stands {n : ℕ} {T : Type} {W : Type} (server : ServerT n T) (s : Server n W) : Prop where
  loop : s.loop = .test
  fault : s.fault = none
  pool : server.pool = some (some s.pool)
  shutdownSignal : server.shutdownSignal = some s.shutdownSignal
  clientList : server.clientList = some s.conns.clients.list
  route : s.route = true ∧ server.route.isSome

/-- Where `main` comes to the loop with a pool that `create_pool` has made, whatever its threads have
done on the way, the server is in a state that it reaches. -/
theorem main_reaches {n : ℕ} {W : Type} {kh : KHash RouteFn} {w : StartWorld n}
    (hclosed : ∀ efd < 0, w.kevent efd < 0) {c : Creation n TaskFunc Addr}
    (hc : Creation.Reachable 128 c) (hreturned : c.point = .returned true)
    (hpool : w.createPool = some c.pool) {server : ServerT n kh.Table}
    (hstart : mainStart kh w = .ok (.serving server)) (app : App W) :
    ∃ s : Server n W, s.Reachable app ∧ server.Stands s := by
  obtain ⟨-, ln, -, houtcome⟩ := (main_start_iff hclosed _).mp hstart
  rw [StartWorld.outcome] at houtcome
  split_ifs at houtcome
  cases houtcome
  have hshutdown : c.pool.shutdown = false := by
    have hat := hc.sound.atPoint
    rw [hreturned] at hat
    exact hat.2
  have hreach := hc.server app rfl hshutdown
  refine ⟨{ Server.init n W with pool := c.pool, loop := .test },
    hreach.trans (.of_step (e := .loop (.listen true)) rfl), rfl, rfl, ?_, rfl, rfl, rfl, rfl⟩
  simp [StartWorld.server, hpool]

/-- One thread is started and goes to sleep, and all else succeeds. -/
theorem main_reaches_one :
    ∃ (p : Pool 1 TaskFunc Addr) (server : ServerT 1 (listHash RouteFn).Table)
      (s : Server 1 Unit), p.thread 0 = .waiting ∧ server.pool = some (some p) ∧
        s.Reachable Demo.app ∧ server.Stands s := by
  have hrun : ((Trace.run Creation.step (.new 1 TaskFunc Addr 128)
      (List.replicate 6 (.answer true) ++ [.enter 0, .go])).map fun c => (c.point, c.pool.thread 0)) =
        some (.returned true, .waiting) := by
    decide
  obtain ⟨c, hc, heq⟩ := Option.map_eq_some_iff.mp hrun
  rw [Prod.mk.injEq] at heq
  let w : StartWorld 1 := { withoutKqueue with createPool := some c.pool, kqueue := 4 }
  have hclosed : ∀ efd < 0, w.kevent efd < 0 := fun efd hneg => by simp [w, withoutKqueue, hneg]
  have hsucceeds : w.Succeeds := ⟨rfl, rfl, le_refl (0 : Int), le_refl (0 : Int), show (0 : Int) ≤ 4 by decide⟩
  obtain ⟨ln, hln⟩ := sListen_main succeeding
  have herr : ln.err = 0 := by
    have hmap : ((sListen succeeding (terminated (ascii "tcp".toList))
        (some (terminated (ascii ":8080".toList)))).map ListenerT.err) = .ok 0 := by
      decide
    rw [hln] at hmap
    exact Except.ok.inj hmap
  have hstart : mainStart (listHash RouteFn) w = .ok (.serving (w.server _ mainRoutes ln)) := by
    rw [mainStart, start_succeeds hsucceeds mainRoutes hln, StartWorld.outcome,
      if_pos ⟨herr, le_refl (0 : Int), le_refl (0 : Int)⟩]
  obtain ⟨s, hs, hstands⟩ := main_reaches hclosed ⟨_, hc⟩ heq.1 rfl hstart Demo.app
  exact ⟨c.pool, _, s, heq.2, rfl, hs, hstands⟩

end Ccybe
