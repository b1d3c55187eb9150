import Ccybe.Ds.Buffer
import Ccybe.Ds.ThreadPool.Basic
import Ccybe.Http.Conns
import Ccybe.Http.Write
import Ccybe.Parser

/-!
# The server (`http.c`)

The thread of `serve_and_listen` and the workers of the pool take turns. A step of the loop is
one call to the system with what follows it up to the next one; a step of a worker is a critical
section of the pool or one access of `handle_conn` to what it shares with others. The labels say
who goes next and what the system answers.

Task nodes have addresses that are not used a second time. What only records the past stands in
`History`; the program does not read it.
-/

namespace Ccybe

open CSem Trace

/-- The functions that are given to `push_task`. -/
inductive TaskFunc where
  | handleConn
  deriving DecidableEq

/-- `thread_node_t` with the response of its context, which is not written before it is generated.
The last two fields are history: the connection that was read from, and what `recv` returned in
that READ event. -/
structure ThreadNode where
  client : Client
  buffer : StringT
  completeResp : Option Bytes
  conn : ConnId
  chunks : List Bytes

/-- What is given to the server from outside: the descriptor of the listener, the library that
parses requests, and what the handlers and `generate_response` make of a request. The answers of
the file system are of type `W`. -/
structure App (W : Type) where
  lnFd : Fd
  llhttp : Llhttp
  respond : W → HttpRequest → Bytes

/-- Where the thread of `serve_and_listen` is; `es` are the events that are left in the batch. -/
inductive LoopPoint where
  | listening                                     -- in `init_listener`
  | test                                          -- before the test of `shutdown_signal`
  | polling                                       -- before `kevent`
  | events (es : List KEvent)                     -- before the next event
  | accepting (es : List KEvent)                  -- in `accept_client`, before `accept`
  | reading (es : List KEvent) (client : Client) (buf : StringT)
      (chunks : List Bytes)                       -- in `read_from_client`, before `recv`
  | building (es : List KEvent) (client : Client) (buf : StringT)
      (chunks : List Bytes) (conn : ConnId)       -- before `malloc` of the task node
  | handing (es : List KEvent) (t : Addr)         -- before `push_task`
  | writing (es : List KEvent) (t : Addr)
      (totalSend : ℕ)                             -- in `write_to_client`, before the loop test
  | sClose
  | destroyRoute
  | destroyPool
  | joining                                       -- in `destroy_pool`, before `pthread_join`
  | freeList
  | returned (list : LList)

/-- The loop is not in the handler of an event. -/
def LoopPoint.betweenHandlers : LoopPoint → Bool
  | .test | .polling | .events _ => true
  | _ => false

/-- Where a worker is in `handle_conn`. -/
inductive HandlePoint where
  | away
  | entered (t : Addr)
  | lookup (t : Addr) (client : Client) (req : HttpRequest)
  | generate (t : Addr) (client : Client) (req : HttpRequest)
  | register (t : Addr) (client : Client)

/-- Where a worker is in `handle_conn` after its critical section. -/
def HandlePoint.ofWorker : Worker TaskFunc Addr → HandlePoint
  | .running task => .entered task.args
  | _ => .away

/-- What makes the rest of a run undefined. -/
inductive Fault where
  | staleNode                  -- a list node that was freed is read
  | freedTnode                 -- a task node that was freed is accessed
  | destroyedRoute             -- the table of routes is searched after it was destroyed
  | undefined (u : Undefined)
  deriving DecidableEq

/-- A call of `send` that accepted bytes. -/
structure SendRecord where
  conn : ConnId            -- the connection of the descriptor
  origin : ConnId          -- the connection that the task node was read from
  chunks : List Bytes      -- what was received then
  data : Bytes

/-- A call of `remove_client` in `write_to_client` that found a node. -/
structure Removal where
  closed : Option ConnId   -- the connection of the descriptor
  node : ConnId            -- the connection of the node
  origin : ConnId          -- the connection that the task node was read from
  deriving DecidableEq

/-- A response that was generated for a task node. -/
structure Generated (W : Type) where
  origin : ConnId
  chunks : List Bytes
  world : W
  resp : Bytes

structure History (W : Type) where
  received : List (ConnId × List Bytes)    -- one entry for each READ event that was drained
  generated : List (Generated W)
  sends : List SendRecord
  removals : List Removal
  freed : List Addr

/-- The state of the server with its `n` workers. -/
structure Server (n : ℕ) (W : Type) where
  conns : Conns
  pool : Pool n TaskFunc Addr
  tnodes : Addr → Option ThreadNode
  nextTnode : Addr
  route : Bool                      -- the table of routes exists
  shutdownSignal : Bool
  loop : LoopPoint
  handling : Fin n → HandlePoint
  fault : Option Fault
  history : History W

/-! ### Labels -/

inductive AcceptResult where
  | failed                                                -- -1
  | conn (fd : Fd) (nonblock mem registered : Bool)

inductive RecvResult where
  | failed                                                -- -1 with another error
  | again                                                 -- -1 with `EAGAIN`
  | closed                                                -- 0
  | data (chunk : Bytes) (mem : Bool)

inductive KeventResult where
  | interrupted
  | failed
  | events (es : List KEvent)

inductive LoopStep (n : ℕ) where
  | listen (ok : Bool)
  | test
  | poll (r : KeventResult)
  | next (mem : Bool)
  | accept (r : AcceptResult)
  | recv (r : RecvResult)
  | build (memTnode memBuffer memReq memResp : Bool)
  | push (mem : Bool) (ws : List (Fin n))
  | send (r : SendResult) (registered : Bool)
  | done
  | close

inductive WorkerStep (W : Type) where
  | enter
  | wake
  | parse
  | lookup
  | generate (w : W)
  | register (ok : Bool)
  | finish

inductive Label (n : ℕ) (W : Type) where
  | signal
  | loop (a : LoopStep n)
  | worker (i : Fin n) (a : WorkerStep W)

namespace Server

variable {n : ℕ} {W : Type}

/-- The server after `init_server`. -/
def init (n : ℕ) (W : Type) : Server n W where
  conns := .init
  pool := .create n TaskFunc Addr 128
  tnodes := fun _ => none
  nextTnode := 0
  route := true
  shutdownSignal := false
  loop := .listening
  handling := fun _ => .away
  fault := none
  history := ⟨[], [], [], [], []⟩

def fail (s : Server n W) (f : Fault) : Server n W := { s with fault := some f }

/-- `accept_client` after `accept` returned `fd`, which is not open. -/
def acceptClient (s : Server n W) (fd : Fd) (nonblock mem registered : Bool) : Server n W :=
  if nonblock && !mem then s.fail (.undefined .null)    -- `memset` before the test for null
  else { s with conns := s.conns.acceptClient fd nonblock registered }

/-- `remove_client` in `write_to_client` for the task node `node`. -/
def removeFor (s : Server n W) (node : ThreadNode) : Server n W :=
  let found := (s.conns.clients.search node.client.fd).toList
  { s with
    conns := s.conns.removeClient node.client.fd
    history := { s.history with
      removals := s.history.removals ++ found.map fun a =>
        ⟨s.conns.fds node.client.fd, s.conns.serial a, node.conn⟩ } }

/-! ### The loop -/

/-- The next event of the batch. -/
def nextEvent (app : App W) (s : Server n W) (mem : Bool) : List KEvent → Server n W
  | [] => { s with loop := .test }
  | .read ident udata eof :: es =>
    if eof then { s with conns := s.conns.removeClient ident, loop := .events es }
    else if ident = app.lnFd then { s with loop := .accepting es }
    else match udata with
      | none => s.fail (.undefined .null)
      | some a =>
        match s.conns.clients.find a with
        | none => s.fail .staleNode
        | some node =>
          match StringT.newString (some (terminated [])) mem with
          | .error u => s.fail (.undefined u)
          | .ok buf => { s with loop := .reading es node.client buf [] }
  | .write _ t :: es =>
    match s.tnodes t with
    | none => s.fail .freedTnode
    | some _ => { s with loop := .writing es t 0 }

/-- `recv` in `read_from_client` and what follows it. -/
def recv (s : Server n W) (es : List KEvent) (client : Client) (buf : StringT)
    (chunks : List Bytes) : RecvResult → Option (Server n W)
  | .failed => some { s with loop := .events es }
  | .again =>
    (s.conns.fds client.fd).map fun c =>
      { s with
        loop := .building es client buf chunks c
        history := { s.history with received := s.history.received ++ [(c, chunks)] } }
  | .closed =>
    if (s.conns.fds client.fd).isSome then
      some { s with conns := s.conns.removeClient client.fd, loop := .events es }
    else none
  | .data chunk mem =>
    if (s.conns.fds client.fd).isSome && 0 < chunk.length && chunk.length ≤ 215 then
      match buf.appendStringCstr (some (terminated chunk)) mem with
      | .error u => some (s.fail (.undefined u))
      | .ok (true, buf) => some { s with loop := .reading es client buf (chunks ++ [chunk]) }
      | .ok (false, _) => some { s with loop := .events es }
    else none

/-- The task node is made; after each failure all that was allocated is released. -/
def build (s : Server n W) (es : List KEvent) (client : Client) (buf : StringT)
    (chunks : List Bytes) (conn : ConnId) (memTnode memBuffer memReq memResp : Bool) :
    Server n W :=
  if !memTnode then { s with loop := .events es }
  else match buf.copyString memBuffer with
    | .error u => s.fail (.undefined u)
    | .ok buffer =>
      if buffer.data.isNone || !memReq || !memResp then { s with loop := .events es }
      else
        { s with
          tnodes := Function.update s.tnodes s.nextTnode (some ⟨client, buffer, none, conn, chunks⟩)
          nextTnode := s.nextTnode + 1
          loop := .handing es s.nextTnode }

/-- A pass of the loop in `write_to_client`. -/
def send (s : Server n W) (es : List KEvent) (t : Addr) (node : ThreadNode) (resp : Bytes)
    (totalSend : ℕ) (r : SendResult) (registered : Bool) : Option (Server n W) :=
  match writePass resp.length totalSend r, s.conns.fds node.client.fd with
  | some (.next total), some c =>
    let data := (resp.drop totalSend).take (total - totalSend)
    some { s with
      loop := .writing es t total
      history := { s.history with
        sends := s.history.sends ++ [⟨c, node.conn, node.chunks, data⟩] } }
  | some .register, some _ =>
    some { s with
      conns := if registered then s.conns.addWrite node.client.fd t else s.conns
      loop := .events es }
  | some .remove, _ => some { s.removeFor node with loop := .events es }
  | _, _ => none    -- a descriptor that is not open gives an error

/-- The end of `write_to_client`, after everything was sent. -/
def done (s : Server n W) (es : List KEvent) (t : Addr) (node : ThreadNode) : Server n W :=
  let s := s.removeFor node
  { s with
    tnodes := Function.update s.tnodes t none
    loop := .events es
    history := { s.history with freed := s.history.freed ++ [t] } }

def loopStep (app : App W) (s : Server n W) : LoopStep n → Option (Server n W)
  | .listen ok =>
    match s.loop with
    | .listening => some { s with loop := if ok then .test else .sClose }
    | _ => none
  | .test =>
    match s.loop with
    | .test => some { s with loop := if s.shutdownSignal then .sClose else .polling }
    | _ => none
  | .poll r =>
    match s.loop, r with
    | .polling, .interrupted => some { s with loop := .test }
    | .polling, .failed => some { s with loop := .sClose }
    | .polling, .events es =>
      if s.conns.batch app.lnFd es then
        some { s with conns := s.conns.fetch es, loop := .events es }
      else none
    | _, _ => none
  | .next mem =>
    match s.loop with
    | .events es => some (s.nextEvent app mem es)
    | _ => none
  | .accept r =>
    match s.loop, r with
    | .accepting es, .failed => some { s with loop := .events es }
    | .accepting _, .conn fd nonblock mem registered =>
      if (s.conns.fds fd).isNone && fd != app.lnFd then
        some (s.acceptClient fd nonblock mem registered)
      else none
    | _, _ => none
  | .recv r =>
    match s.loop with
    | .reading es client buf chunks => s.recv es client buf chunks r
    | _ => none
  | .build memTnode memBuffer memReq memResp =>
    match s.loop with
    | .building es client buf chunks conn =>
      some (s.build es client buf chunks conn memTnode memBuffer memReq memResp)
    | _ => none
  | .push mem ws =>
    match s.loop with
    | .handing es t =>
      (s.pool.pushTask (some .handleConn) (some t) mem ws).map fun r =>
        { s with pool := r.2, loop := .events es }    -- the result is not used
    | _ => none
  | .send r registered =>
    match s.loop with
    | .writing es t totalSend =>
      match s.tnodes t with
      | none => some (s.fail .freedTnode)
      | some node =>
        match node.completeResp with
        | none => some (s.fail (.undefined .uninit))
        | some resp =>
          if totalSend < resp.length then s.send es t node resp totalSend r registered
          else none
    | _ => none
  | .done =>
    match s.loop with
    | .writing es t totalSend =>
      match s.tnodes t with
      | none => some (s.fail .freedTnode)
      | some node =>
        match node.completeResp with
        | none => some (s.fail (.undefined .uninit))
        | some resp => if totalSend < resp.length then none else some (s.done es t node)
    | _ => none
  | .close =>
    match s.loop with
    | .sClose => some { s with loop := .destroyRoute }
    | .destroyRoute => some { s with route := false, loop := .destroyPool }
    | .destroyPool => some { s with pool := s.pool.destroy, loop := .joining }
    | .joining =>
      if ∀ i, s.pool.thread i = .exited then some { s with loop := .freeList } else none
    | .freeList =>
      some { s with conns := s.conns.freeList, loop := .returned s.conns.clients.freeList.2 }
    | _ => none

/-! ### The workers -/

def setHandling (s : Server n W) (i : Fin n) (p : HandlePoint) : Server n W :=
  { s with handling := Function.update s.handling i p }

@[simp] lemma setHandling_handling (s : Server n W) (i : Fin n) (p : HandlePoint) :
    (s.setHandling i p).handling = Function.update s.handling i p := rfl

/-- `handle_conn` up to the `switch`. -/
def parse (app : App W) (s : Server n W) (i : Fin n) (t : Addr) : Server n W :=
  match s.tnodes t with
  | none => s.fail .freedTnode
  | some node =>
    if node.buffer.data.isNone then s.setHandling i .away
    else match node.buffer.bytes >>= parseHttpRequest app.llhttp with
      | .error u => s.fail (.undefined u)
      | .ok (ok, req) =>
        if ok = 1 then s.setHandling i .away    -- 400 Bad Request
        else match getMothodType req.method with
          | .error u => s.fail (.undefined u)
          | .ok .get => s.setHandling i (.lookup t node.client req)
          | .ok _ => s.setHandling i (.generate t node.client req)

/-- The handler runs and `generate_response` fills in the response. -/
def generate (app : App W) (s : Server n W) (i : Fin n) (t : Addr) (client : Client)
    (req : HttpRequest) (w : W) : Server n W :=
  match s.tnodes t with
  | none => s.fail .freedTnode
  | some node =>
    let resp := app.respond w req
    { s.setHandling i (.register t client) with
      tnodes := Function.update s.tnodes t (some { node with completeResp := some resp })
      history := { s.history with
        generated := s.history.generated ++ [⟨node.conn, node.chunks, w, resp⟩] } }

def workerStep (app : App W) (s : Server n W) (i : Fin n) :
    WorkerStep W → Option (Server n W)
  | .enter =>
    (s.pool.step (.enter i)).map fun p =>
      { s.setHandling i (HandlePoint.ofWorker (p.thread i)) with pool := p }
  | .wake => (s.pool.step (.wake i)).map fun p => { s with pool := p }
  | .parse =>
    match s.handling i with
    | .entered t => some (s.parse app i t)
    | _ => none
  | .lookup =>
    match s.handling i with
    | .lookup t client req =>
      if s.route then some (s.setHandling i (.generate t client req))
      else some (s.fail .destroyedRoute)
    | _ => none
  | .generate w =>
    match s.handling i with
    | .generate t client req => some (s.generate app i t client req w)
    | _ => none
  | .register ok =>
    match s.handling i with
    | .register t client =>
      if ok then
        if (s.conns.fds client.fd).isSome then
          some { s.setHandling i .away with conns := s.conns.addWrite client.fd t }
        else none
      else some (s.setHandling i .away)
    | _ => none
  | .finish =>
    match s.handling i with
    | .away => (s.pool.step (.finish i)).map fun p => { s with pool := p }
    | _ => none

/-- A step of the server; after a fault nothing is defined. -/
def step (app : App W) (s : Server n W) : Label n W → Option (Server n W)
  | l =>
    if s.fault.isSome then none
    else match l with
      | .signal => some { s with shutdownSignal := true }
      | .loop a => s.loopStep app a
      | .worker i a => s.workerStep app i a

/-- The server is in state `s` after some run. -/
def Reachable (app : App W) (s : Server n W) : Prop := Reaches (step app) (init n W) s

end Server

/-! ### A small application

An application for runs on fixed inputs. It answers a `GET` request with its path. Its parser
knows one request and the beginnings of it; empty lines before a request are skipped.
-/

namespace Demo

def requestLine : Bytes :=
  ascii ['G', 'E', 'T', ' ', '/', ' ', 'H', 'T', 'T', 'P', '/', '1', '.', '1'] ++ [13, 10]

/-- The request `GET / HTTP/1.1` without headers. -/
def request : Bytes := requestLine ++ [13, 10]

/-- What `llhttp` does on a beginning of the request, and on the empty line at its end. -/
def llhttp (buf : Bytes) : Bool × List Callback :=
  if buf.isPrefixOf request then
    (true, (if 0 < buf.length then [.method (buf.take 3)] else []) ++
      (if 4 < buf.length then [.url (ascii ['/'])] else []) ++
      if buf = request then [.headersComplete, .messageComplete] else [])
  else (buf = [13, 10], [])

def respond (_ : Unit) (req : HttpRequest) : Bytes :=
  let version := ascii ['H', 'T', 'T', 'P', '/', '1', '.', '1', ' ']
  match getMothodType req.method, readString req.rawPath with
  | .ok .get, .ok path =>
    version ++ ascii ['2', '0', '0', ' ', 'O', 'K'] ++ [13, 10, 13, 10] ++ path
  | _, _ => version ++ ascii ['0'] ++ [13, 10, 13, 10]

def app : App Unit := ⟨3, llhttp, respond⟩

/-- The loop starts. -/
def start : List (Label 1 Unit) := [.loop (.listen true)]

/-- `kevent` returns `es`. -/
def poll (es : List KEvent) : List (Label 1 Unit) := [.loop .test, .loop (.poll (.events es))]

/-- The next event is that of the listener, and `accept` returns `fd` and nothing more. -/
def accept (fd : Fd) : List (Label 1 Unit) :=
  [.loop (.next true), .loop (.accept (.conn fd true true true)), .loop (.accept .failed)]

/-- The next event is that of the listener, and `accept` returns two clients. The first one is
registered. -/
def acceptTwo (fd fd' : Fd) (registered : Bool) : List (Label 1 Unit) :=
  [.loop (.next true), .loop (.accept (.conn fd true true true)),
    .loop (.accept (.conn fd' true true registered)), .loop (.accept .failed)]

/-- The next event is a READ event, and `recv` returns `chunk` and nothing more. -/
def read (chunk : Bytes) : List (Label 1 Unit) :=
  [.loop (.next true), .loop (.recv (.data chunk true)), .loop (.recv .again),
    .loop (.build true true true true), .loop (.push true [])]

/-- The worker takes a request and parses it. -/
def parse : List (Label 1 Unit) := [.worker 0 .enter, .worker 0 .parse]

/-- The worker takes a `GET` request up to the response. -/
def answer : List (Label 1 Unit) :=
  [.worker 0 .enter, .worker 0 .parse, .worker 0 .lookup, .worker 0 (.generate ())]

/-- The worker registers the WRITE event. -/
def register : List (Label 1 Unit) := [.worker 0 (.register true), .worker 0 .finish]

/-- The next event is a WRITE event, and `send` takes `k` bytes, which are all there are. -/
def write (k : ℕ) : List (Label 1 Unit) :=
  [.loop (.next true), .loop (.send (.sent k) true), .loop .done]

/-- The next event is a WRITE event, and `send` takes `k` bytes and then the `k'` that are left. -/
def writeTwo (k k' : ℕ) : List (Label 1 Unit) :=
  [.loop (.next true), .loop (.send (.sent k) true), .loop (.send (.sent k') true), .loop .done]

/-- The next event is a WRITE event, and `send` would block. -/
def again : List (Label 1 Unit) := [.loop (.next true), .loop (.send .again true)]

/-- An event is taken that needs nothing more, or the end of the batch. -/
def next : List (Label 1 Unit) := [.loop (.next true)]

/-- A signal comes at the end of the batch, and `destroy_pool` waits for the thread. -/
def stop : List (Label 1 Unit) :=
  [.signal, .loop (.next true), .loop .test, .loop .close, .loop .close, .loop .close]

/-- The thread comes to its end, and `destroy_pool` returns. -/
def join : List (Label 1 Unit) := [.worker 0 .enter, .loop .close]

/-- The list of clients is freed. -/
def freeList : List (Label 1 Unit) := [.loop .close]

end Demo

end Ccybe
