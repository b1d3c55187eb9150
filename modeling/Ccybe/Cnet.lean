import Ccybe.Lib.Decimal
import Ccybe.Lib.Split

/-!
# Listening on an address (`cnet.c`)

`s_listen` takes apart an address such as `127.0.0.1:8080` and binds a socket to it. The results of
the calls to the operating system are in `Sockets`; `inet_pton` and `atoi` are as they are documented.
-/

namespace Ccybe

open CSem

/-! ### Library functions -/

/-- `strchr`: the index of the first `c`. -/
def strchr (c : UInt8) : Block → Eval (Option ℕ)
  | [] => .error .bounds
  | none :: _ => .error .uninit
  | some d :: str =>
    if d = c then .ok (some 0)
    else if d = 0 then .ok none
    else (strchr c str).map (Option.map (· + 1))

/-- `isspace`. -/
def isSpace (c : UInt8) : Bool := c = chr ' ' ∨ 9 ≤ c ∧ c ≤ 13

/-- The number at the front of a text; without digits it is zero. -/
def leadingNumber (text : Bytes) : ℕ :=
  (numeral (text.takeWhile fun c => (digitValue c).isSome)).getD 0

/-- `atoi`: a number behind spaces and a sign, which is to be an `int`. -/
def atoi (str : Block) : Eval Int := do
  let text ← readString str
  match text.dropWhile isSpace with
  | [] => pure 0
  | c :: text =>
    if c = chr '-' then int (-leadingNumber text)
    else if c = chr '+' then int (leadingNumber text)
    else int (leadingNumber (c :: text))

/-- `struct in_addr`, by its bytes. -/
abbrev InAddr := UInt8 × UInt8 × UInt8 × UInt8

def inaddrAny : InAddr := (0, 0, 0, 0)

/-- One of the numbers of an address. -/
def octet (part : Bytes) : Option UInt8 :=
  if part.length ≤ 3 then
    (numeral part).bind fun n => if n ≤ 255 then some n.toUInt8 else none
  else none

/-- The address that is written in dotted form. -/
def dotted (text : Bytes) : Option InAddr :=
  match (text.splitOn (chr '.')).map octet with
  | [some a, some b, some c, some d] => some (a, b, c, d)
  | _ => none

/-- `inet_pton(AF_INET, src, dst)`: the result and `dst` after it. -/
def inetPton (src : Bytes) (dst : InAddr) : Int × InAddr :=
  match dotted src with
  | some addr => (1, addr)
  | none => (0, dst)

/-- `htons`, as the number that the port is on the network. -/
def htons (port : Int) : ℕ := (port % 65536).toNat

/-! ### The code -/

/-- `addr_t`. -/
structure AddrT where
  port : Int
  host : Block

/-- `struct sockaddr_in`. -/
structure SockaddrIn where
  sinPort : ℕ
  sinAddr : InAddr
  deriving DecidableEq

/-- `listener_t`; `sAddr` is what `bind` is called with. -/
structure ListenerT where
  sAddr : Option SockaddrIn
  addr : AddrT
  err : Int
  fd : Int

/-- The results of the system calls; that of the third `setsockopt` is not looked at. -/
structure Sockets where
  socket : Int
  setReuseaddr : Int
  setNosigpipe : Int
  bind : SockaddrIn → Int
  listen : Int

inductive Protocol where
  | tcp
  | udp
  deriving DecidableEq

/-- `get_protocol_type`; `none` is -1. -/
def getProtocolType (protocol : Block) : Eval (Option Protocol) := do
  let name ← readString protocol
  if sameIgnoringCase name (ascii "tcp".toList) then pure (some .tcp)
  else if sameIgnoringCase name (ascii "udp".toList) then pure (some .udp)
  else pure none

/-- `split_addr_port`; `addr` is the address of a variable. -/
def splitAddrPort (addr : AddrT) (address : Option Block) : Eval (Int × AddrT) :=
  match address with
  | none => pure (-1, addr)
  | some address => do
    match ← strchr (chr ':') address with
    | none => pure (-1, addr)
    | some colonAt => do
      let host ← strncpy addr.host 0 address colonAt
      let host ← set host colonAt 0
      let port ← atoi (address.drop (colonAt + 1))
      pure (0, ⟨port, host⟩)

/-- The address that `tcp_create_and_listen_ipv4` fills in; `none` where `inet_pton` returns -1. -/
def sockaddrOf (addr : AddrT) : Eval (Option SockaddrIn) := do
  let port := htons addr.port
  let first ← get addr.host 0
  if first = 0 then pure (some ⟨port, inaddrAny⟩)
  else do
    let host ← readString addr.host
    let (ret, sinAddr) := inetPton host (0, 0, 0, 0)
    if ret = -1 then pure none else pure (some ⟨port, sinAddr⟩)

/-- `tcp_create_and_listen_ipv4`. -/
def tcpCreateAndListenIpv4 (os : Sockets) (ln : ListenerT) : Eval ListenerT := do
  let ln := { ln with fd := os.socket }
  if ln.fd < 0 then pure { ln with err := 2 }
  else if os.setReuseaddr = -1 then pure { ln with err := 3 }
  else if os.setNosigpipe = -1 then pure { ln with err := 3 }
  else
    match ← sockaddrOf ln.addr with
    | none => pure { ln with err := 4 }
    | some addr =>
      let ln := { ln with sAddr := some addr }
      if os.bind addr = -1 then pure { ln with err := 5 }
      else if os.listen = -1 then pure { ln with err := 6 }
      else pure ln

/-- `s_listen`; the local variable `ln` is not initialised but for `err` and `fd`. -/
def sListen (os : Sockets) (network : Block) (address : Option Block) : Eval ListenerT := do
  let (err, addr) ← splitAddrPort ⟨0, List.replicate 24 none⟩ address
  let ln : ListenerT := ⟨none, addr, err, 0⟩
  if ln.err ≠ 0 then pure ln
  else
    match ← getProtocolType network with
    | some .tcp => tcpCreateAndListenIpv4 os ln
    | some .udp => pure ln
    | none => pure { ln with err := 1 }

/-! ### Host and port -/

lemma strchr_eq {cells : Block} {h t : Bytes} {c : UInt8} (hc : c ∉ h)
    (hcells : HasString cells (h ++ c :: t)) : strchr c cells = .ok (some h.length) := by
  obtain ⟨hnul, rest, rfl⟩ := hcells
  induction h with
  | nil =>
    rw [List.nil_append, terminated_cons, List.cons_append, strchr, if_pos rfl]
    rfl
  | cons d h ih =>
    rw [List.mem_cons, not_or] at hc
    rw [List.cons_append, List.mem_cons, not_or] at hnul
    rw [List.cons_append, terminated_cons, List.cons_append, strchr, if_neg (Ne.symm hc.1),
      if_neg (Ne.symm hnul.1), ih hc.2 hnul.2]
    rfl

/-- The host is copied if there is room for it and a zero byte; the port is converted. -/
lemma splitAddrPort_cases {address : Block} {h t : Bytes} (hcolon : chr ':' ∉ h)
    (haddress : HasString address (h ++ chr ':' :: t)) (port : Int) :
    (h.length ≤ 23 ∧ ∃ host, HasString host h ∧
      splitAddrPort ⟨port, List.replicate 24 none⟩ (some address) =
        (atoi (address.drop (h.length + 1))).map fun port => (0, ⟨port, host⟩)) ∨
    (23 < h.length ∧ splitAddrPort ⟨port, List.replicate 24 none⟩ (some address) = .error .bounds) := by
  have hnul : (0 : UInt8) ∉ h := fun hmem => haddress.1 (List.mem_append_left _ hmem)
  have hcopy := haddress.strncpyBytes_take
  simp only [splitAddrPort, strchr_eq hcolon haddress, ok_bind, strncpy, hcopy]
  rw [← bind_assoc]
  rcases lt_or_ge h.length 24 with hroom | hfull
  · rw [blit_terminate (by rwa [List.length_replicate]), ok_bind]
    refine .inl ⟨by omega, written (List.replicate 24 none) h, written_hasString _ hnul, ?_⟩
    cases atoi (address.drop (h.length + 1)) <;> rfl
  · rw [blit_terminate_bounds (by rwa [List.length_replicate])]
    exact .inr ⟨by omega, rfl⟩

/-! ### The port -/

/-- A numeral below `2 ^ 31` is converted to its number. -/
lemma atoi_numeral {str : Block} {text : Bytes} (hstr : HasString str text) {n : ℕ}
    (h : numeral text = some n) (hn : n ≤ 2147483647) : atoi str = .ok n := by
  obtain ⟨hnil, hdigits⟩ := numeral_digits h
  obtain ⟨c, rest, rfl⟩ := List.exists_cons_of_ne_nil hnil
  obtain ⟨hlow, hhigh⟩ := isSome_digitValue.mp (hdigits c List.mem_cons_self)
  have hspace : isSpace c = false := by
    refine decide_eq_false ?_
    rintro (rfl | ⟨-, hle⟩)
    · exact absurd hlow (by decide)
    · exact absurd (UInt8.le_trans hlow hle) (by decide)
  have hminus : c ≠ chr '-' := by
    rintro rfl
    exact absurd hlow (by decide)
  have hplus : c ≠ chr '+' := by
    rintro rfl
    exact absurd hlow (by decide)
  have hall : (c :: rest).takeWhile (fun c => (digitValue c).isSome) = c :: rest :=
    List.takeWhile_eq_self_iff.mpr hdigits
  have hnumber : leadingNumber (c :: rest) = n := by
    rw [leadingNumber, hall, h]
    rfl
  rw [atoi, hstr.readString_eq, ok_bind, List.dropWhile_cons_of_neg (by simp [hspace])]
  simp only [if_neg hminus, if_neg hplus, hnumber]
  exact int_ok (by omega) (by omega)

lemma htons_natCast {n : ℕ} (h : n < 65536) : htons n = n := by
  rw [htons]
  omega

/-! ### The address -/

lemma octet_length {part : Bytes} {a : UInt8} (h : octet part = some a) : part.length ≤ 3 := by
  rw [octet] at h
  split_ifs at h with hle
  exact hle

/-- There is room for an address in `host`. -/
lemma dotted_length {h : Bytes} {a : InAddr} (ha : dotted h = some a) : h.length ≤ 15 := by
  have hjoin : [chr '.'].intercalate (h.splitOn (chr '.')) = h := List.intercalate_splitOn (chr '.')
  rw [dotted] at ha
  split at ha
  · rename_i a b c d hparts
    simp only [List.map_eq_cons_iff, List.map_eq_nil_iff] at hparts
    obtain ⟨p₁, -, hsplit, h₁, p₂, -, rfl, h₂, p₃, -, rfl, h₃, p₄, -, rfl, h₄, rfl⟩ := hparts
    rw [hsplit] at hjoin
    rw [← hjoin]
    have := octet_length h₁
    have := octet_length h₂
    have := octet_length h₃
    have := octet_length h₄
    simp only [List.intercalate_cons_cons, List.intercalate_singleton, List.length_append,
      List.length_singleton]
    omega
  · cases ha

/-- What is bound for a host: every address, also where the host is not an address. -/
def boundTo (h : Bytes) : InAddr := if h = [] then inaddrAny else (dotted h).getD inaddrAny

/-- `inet_pton` does not report an error for what is not an address. -/
lemma sockaddrOf_eq {host : Block} {h : Bytes} (hhost : HasString host h) (port : Int) :
    sockaddrOf ⟨port, host⟩ = .ok (some ⟨htons port, boundTo h⟩) := by
  have hread := hhost.readString_eq
  obtain ⟨hnul, rest, rfl⟩ := hhost
  rw [sockaddrOf, boundTo]
  cases h with
  | nil => rfl
  | cons c h =>
    have hget : get (terminated (c :: h) ++ rest) 0 = .ok c := rfl
    have hc : c ≠ 0 := fun h0 => hnul (h0 ▸ List.mem_cons_self)
    have hpton : inetPton (c :: h) (0, 0, 0, 0) =
        (if (dotted (c :: h)).isSome then 1 else 0, (dotted (c :: h)).getD inaddrAny) := by
      cases hdotted : dotted (c :: h) <;> simp only [inetPton, hdotted] <;> rfl
    have hret : (if (dotted (c :: h)).isSome then (1 : Int) else 0) ≠ -1 := by
      split_ifs <;> decide
    simp only [hget, ok_bind, if_neg hc, if_neg (List.cons_ne_nil c h), hread, hpton, if_neg hret,
      pure_eq_ok]

/-! ### Listening -/

/-- `socket`, `setsockopt`, `bind` and `listen` succeed. -/
structure Sockets.Succeed (os : Sockets) : Prop where
  socket : 0 ≤ os.socket
  setReuseaddr : os.setReuseaddr ≠ -1
  setNosigpipe : os.setNosigpipe ≠ -1
  bind : ∀ addr, os.bind addr ≠ -1
  listen : os.listen ≠ -1

/-- The address and the port are those that are asked for with `h:t`. -/
def SockaddrIn.Asked (addr : SockaddrIn) (h t : Bytes) : Prop :=
  (h = [] ∧ addr.sinAddr = inaddrAny ∨ dotted h = some addr.sinAddr) ∧
    numeral t = some addr.sinPort ∧ addr.sinPort < 65536

/-- `s_listen` returns, and reports an error if it did not bind what was asked for. -/
def BindsAsked (os : Sockets) (network address : Block) (h t : Bytes) : Prop :=
  ∃ ln, sListen os network (some address) = .ok ln ∧
    (ln.err = 0 → ∃ addr, ln.sAddr = some addr ∧ addr.Asked h t)

section Listen

variable {os : Sockets} (hos : os.Succeed) {network : Block}
  (hnetwork : HasString network (ascii "tcp".toList)) {address : Block} {h t : Bytes}
  (hcolon : chr ':' ∉ h) (haddress : HasString address (h ++ chr ':' :: t))

include hos hnetwork hcolon haddress

/-- Whatever is between, `s_listen` reports no error, unless the host is too long or the port is not
an `int`. -/
lemma sListen_cases :
    (∃ port ln, atoi (address.drop (h.length + 1)) = .ok port ∧ h.length ≤ 23 ∧
      sListen os network (some address) = .ok ln ∧ ln.err = 0 ∧
      ln.sAddr = some ⟨htons port, boundTo h⟩) ∨
    ((23 < h.length ∨ ∀ port, atoi (address.drop (h.length + 1)) ≠ .ok port) ∧
      ∀ ln, sListen os network (some address) ≠ .ok ln) := by
  have hprotocol : getProtocolType network = .ok (some .tcp) := by
    rw [getProtocolType, hnetwork.readString_eq]
    rfl
  rcases splitAddrPort_cases hcolon haddress 0 with ⟨hlen, host, hhost, hsplit⟩ | ⟨hlen, hsplit⟩
  · cases hport : atoi (address.drop (h.length + 1)) with
    | error u =>
      refine .inr ⟨.inr fun port hport' => (by cases hport'), fun ln => ?_⟩
      rw [sListen, hsplit, hport]
      exact fun hln => by cases hln
    | ok port =>
      refine .inl ⟨port, ⟨some ⟨htons port, boundTo h⟩, ⟨port, host⟩, 0, os.socket⟩, rfl, hlen, ?_, rfl,
        rfl⟩
      have hsocket : ¬ os.socket < 0 := not_lt.mpr hos.socket
      rw [sListen, hsplit, hport]
      simp only [Except.map, ok_bind, ne_eq, not_true_eq_false, if_false, hprotocol,
        tcpCreateAndListenIpv4, hsocket, if_neg hos.setReuseaddr, if_neg hos.setNosigpipe,
        sockaddrOf_eq hhost, if_neg (hos.bind _), if_neg hos.listen, pure_eq_ok]
  · refine .inr ⟨.inl hlen, fun ln => ?_⟩
    rw [sListen, hsplit]
    exact fun hln => by cases hln

end Listen

/-- The results of system calls that succeed. -/
def succeeding : Sockets := ⟨3, 0, 0, fun _ => 0, 0⟩

lemma succeeding_succeed : succeeding.Succeed :=
  ⟨by decide, by decide, by decide, fun _ => show (0 : Int) ≠ -1 by decide, by decide⟩

end Ccybe
