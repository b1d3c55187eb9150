import Ccybe.Url.Url

/-!
# Parsing of requests (`parser.c`)

The parser itself is the library `llhttp`. On the bytes of a buffer it makes a number of
callbacks and returns an error code; `Llhttp` is such a function, for a parser that was just
initialized.
-/

namespace Ccybe

open CSem

/-- The callbacks that `init_req_ctx` sets, with the text that they are given. -/
inductive Callback where
  | method (at_ : Bytes)
  | url (at_ : Bytes)
  | headerField (at_ : Bytes)
  | headerValue (at_ : Bytes)
  | headersComplete
  | body (at_ : Bytes)
  | messageComplete
  deriving DecidableEq

/-- `llhttp_execute` after `llhttp_init`: whether it returns `HPE_OK`, and the callbacks. -/
abbrev Llhttp := Bytes → Bool × List Callback

/-- `http_request_t`; the pointer to the body is never used. -/
structure HttpRequest where
  method : Block
  rawPath : Block
  pathLen : Int
  url : UrlT
  headers : List (Option PairT)
  headerCount : Int
  curHeader : PairT

/-- `http_request_t_init`. -/
def httpRequestInit : HttpRequest :=
  ⟨zeros 8, zeros 256, 0, initUrl, List.replicate 128 (some .zero), 0, .zero⟩

/-- A text is copied to the front of an array, with a zero byte behind it. -/
def putText (cells : Block) (text : Bytes) : Eval Block := do
  let cells ← blit cells 0 (text.map some)
  set cells text.length 0

namespace HttpRequest

/-- `on_method`. -/
def onMethod (r : HttpRequest) (text : Bytes) : Eval HttpRequest := do
  let method ← putText r.method text
  pure { r with method := method }

/-- `on_url`. -/
def onUrl (r : HttpRequest) (text : Bytes) : Eval HttpRequest := do
  let rawPath ← putText r.rawPath text
  pure { r with rawPath := rawPath, pathLen := text.length }

/-- `on_header_field`. -/
def onHeaderField (r : HttpRequest) (text : Bytes) : Eval HttpRequest := do
  let key ← putText r.curHeader.key text
  pure { r with curHeader := { r.curHeader with key := key } }

/-- `on_header_value`. -/
def onHeaderValue (r : HttpRequest) (text : Bytes) : Eval HttpRequest := do
  let value ← putText r.curHeader.value text
  let curHeader := { r.curHeader with value := value }
  let headers ← set r.headers r.headerCount curHeader
  let headerCount ← add r.headerCount 1
  pure { r with curHeader := curHeader, headers := headers, headerCount := headerCount }

/-- What a callback does to the request; the last three do nothing. -/
def on (r : HttpRequest) : Callback → Eval HttpRequest
  | .method text => r.onMethod text
  | .url text => r.onUrl text
  | .headerField text => r.onHeaderField text
  | .headerValue text => r.onHeaderValue text
  | .headersComplete | .body _ | .messageComplete => .ok r

end HttpRequest

/-- `parse_http_request` on a context that `init_req_ctx` has set up: the result, 0 or 1, and
the request. -/
def parseHttpRequest (llhttp : Llhttp) (buf : Bytes) : Eval (Int × HttpRequest) := do
  let (ok, callbacks) := llhttp buf
  let req ← callbacks.foldlM HttpRequest.on httpRequestInit
  if !ok then pure (1, req)
  else
    let (result, url) ← seperateQuery req.rawPath
    pure (result, { req with url := url })

inductive MethodType where
  | get
  | post
  | unknown
  deriving DecidableEq

/-- `get_mothod_type`. -/
def getMothodType (method : Block) : Eval MethodType := do
  let name ← readString method
  if sameIgnoringCase (ascii ['g', 'e', 't']) name then pure .get
  else if sameIgnoringCase (ascii ['p', 'o', 's', 't']) name then pure .post
  else pure .unknown

/-- The loop of `is_closed_conn` from header `i` on, when `n` are left. -/
def closedConnFrom (r : HttpRequest) (i : ℕ) : ℕ → Eval Bool
  | 0 => pure false
  | n + 1 => do
    let h ← get r.headers i
    let key ← readString h.key
    if sameIgnoringCase (ascii "Connection".toList) key then do
      let value ← readString h.value
      if sameIgnoringCase (ascii "Close".toList) value then pure true else closedConnFrom r (i + 1) n
    else closedConnFrom r (i + 1) n

/-- `is_closed_conn`. -/
def isClosedConn (r : HttpRequest) : Eval Bool := closedConnFrom r 0 r.headerCount.toNat

end Ccybe
