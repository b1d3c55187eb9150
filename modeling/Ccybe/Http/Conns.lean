import Ccybe.Ds.LList

/-!
# Descriptors, events and clients (`http.c`)

`Conns` is what the kernel knows about the connections of the server, the open descriptors and
the events that are registered in the kqueue, together with the list of clients that the server
keeps. The functions of `http.c` that change them are those of this file.

Connections have serial numbers, given by `accept`.
-/

namespace Ccybe

abbrev ConnId := ℕ

/-- An entry of the history of descriptors. -/
inductive FdOp where
  | accepted (fd : Fd)
  | closed (fd : Fd)
  deriving DecidableEq

/-- `struct kevent`, as it is returned. -/
inductive KEvent where
  | read (ident : Fd) (udata : Option Addr) (eof : Bool)
  | write (ident : Fd) (udata : Addr)
  deriving DecidableEq

/-- The descriptor and the filter of an event, `true` for `EVFILT_READ`. -/
def KEvent.key : KEvent → Fd × Bool
  | .read ident _ _ => (ident, true)
  | .write ident _ => (ident, false)

structure Conns where
  fds : Fd → Option ConnId       -- the open descriptors of connections
  accepts : ℕ
  readReg : List (Fd × Addr)     -- the READ events of clients
  writeReg : List (Fd × Addr)    -- the WRITE events
  clients : ClientList
  log : List FdOp                -- history
  serial : Addr → ConnId         -- history: the connection that a node was made for

namespace Conns

def init : Conns := ⟨fun _ => none, 0, [], [], .empty, [], fun _ => 0⟩

/-- `conn_close`: the kqueue forgets the events of the descriptor. -/
def connClose (c : Conns) (fd : Fd) : Conns :=
  { c with
    fds := Function.update c.fds fd none
    readReg := c.readReg.filter fun x => x.1 ≠ fd
    writeReg := c.writeReg.filter fun x => x.1 ≠ fd
    log := c.log ++ [.closed fd] }

/-- `EV_ADD` of a READ event; what was registered for the descriptor is replaced. -/
def addRead (c : Conns) (fd : Fd) (node : Addr) : Conns :=
  { c with readReg := (fd, node) :: c.readReg.filter fun x => x.1 ≠ fd }

/-- `EV_ADD | EV_ONESHOT` of a WRITE event. -/
def addWrite (c : Conns) (fd : Fd) (tnode : Addr) : Conns :=
  { c with writeReg := (fd, tnode) :: c.writeReg.filter fun x => x.1 ≠ fd }

/-- `remove_client`; that the READ event is deleted is part of what `conn_close` does. -/
def removeClient (c : Conns) (fd : Fd) : Conns :=
  match c.clients.search fd with
  | none => c
  | some node => { c.connClose fd with clients := c.clients.remove node }

/-- `accept` returns `fd`. -/
def accept (c : Conns) (fd : Fd) : Conns :=
  { c with
    fds := Function.update c.fds fd (some c.accepts)
    accepts := c.accepts + 1
    log := c.log ++ [.accepted fd] }

/-- `insert_client` for the connection `conn`, where there is memory. -/
def insertClient (c : Conns) (fd : Fd) (conn : ConnId) : Conns :=
  { c with
    clients := c.clients.insert ⟨fd⟩
    serial := Function.update c.serial c.clients.next conn }

/-- `accept_client` for one connection. -/
def acceptClient (c : Conns) (fd : Fd) (nonblock registered : Bool) : Conns :=
  if !nonblock then (c.accept fd).connClose fd
  else
    let c' := (c.accept fd).insertClient fd c.accepts
    if registered then c'.addRead fd c.clients.next
    else c'.connClose fd    -- the node stays in the list

/-- Whether `kevent` may return `es`: at most 128 events, of registered descriptors, and not two
of one descriptor and filter. -/
def batch (c : Conns) (lnFd : Fd) (es : List KEvent) : Bool :=
  decide (es.length ≤ 128) && decide (es.map KEvent.key).Nodup &&
    es.all fun
      | .read ident udata _ =>
        (ident == lnFd && udata.isNone) || udata.any fun a => c.readReg.contains (ident, a)
      | .write ident udata => c.writeReg.contains (ident, udata)

/-- The WRITE events that are returned are not registered any more. -/
def fetch (c : Conns) (es : List KEvent) : Conns :=
  { c with writeReg := c.writeReg.filter fun x => !es.contains (.write x.1 x.2) }

/-- `free_list`; the list is empty then. -/
def freeList (c : Conns) : Conns :=
  { c.clients.freeList.1.foldl connClose c with clients := .empty }

/-! ### Fields after an operation -/

@[simp] lemma connClose_clients (c : Conns) (fd : Fd) : (c.connClose fd).clients = c.clients := rfl
@[simp] lemma connClose_fds (c : Conns) (fd : Fd) :
    (c.connClose fd).fds = Function.update c.fds fd none := rfl
@[simp] lemma connClose_readReg (c : Conns) (fd : Fd) :
    (c.connClose fd).readReg = c.readReg.filter fun x => x.1 ≠ fd := rfl
@[simp] lemma connClose_writeReg (c : Conns) (fd : Fd) :
    (c.connClose fd).writeReg = c.writeReg.filter fun x => x.1 ≠ fd := rfl
@[simp] lemma connClose_log (c : Conns) (fd : Fd) :
    (c.connClose fd).log = c.log ++ [.closed fd] := rfl
@[simp] lemma connClose_accepts (c : Conns) (fd : Fd) : (c.connClose fd).accepts = c.accepts := rfl
@[simp] lemma connClose_serial (c : Conns) (fd : Fd) : (c.connClose fd).serial = c.serial := rfl

/-- `remove_client` does nothing, or closes the descriptor and takes a node with it out. -/
lemma removeClient_cases (c : Conns) (fd : Fd) :
    (c.clients.search fd = none ∧ c.removeClient fd = c) ∨
      ∃ node, c.clients.search fd = some node ∧
        c.removeClient fd = { c.connClose fd with clients := c.clients.remove node } := by
  unfold removeClient
  cases hsearch : c.clients.search fd with
  | none => exact .inl ⟨rfl, rfl⟩
  | some node => exact .inr ⟨node, rfl, rfl⟩

/-- `accept_client` closes the connection at once, puts it into the list and the kqueue, or
closes it after it was put into the list. -/
lemma acceptClient_cases (c : Conns) (fd : Fd) (nonblock registered : Bool) :
    (nonblock = false ∧ c.acceptClient fd nonblock registered = (c.accept fd).connClose fd) ∨
      (nonblock = true ∧ registered = true ∧ c.acceptClient fd nonblock registered =
        ((c.accept fd).insertClient fd c.accepts).addRead fd c.clients.next) ∨
      (nonblock = true ∧ registered = false ∧ c.acceptClient fd nonblock registered =
        ((c.accept fd).insertClient fd c.accepts).connClose fd) := by
  cases nonblock with
  | false => exact .inl ⟨rfl, rfl⟩
  | true =>
    cases registered with
    | true => exact .inr (.inl ⟨rfl, rfl, rfl⟩)
    | false => exact .inr (.inr ⟨rfl, rfl, rfl⟩)

end Conns

end Ccybe
