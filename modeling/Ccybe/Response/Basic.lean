import Ccybe.Ds.Buffer
import Ccybe.Ds.LList
import Ccybe.Lib.Decimal
import Ccybe.Parser

/-!
# Responses (`response.c`, `mime.c`)

A handler fills in the response of a context, and `generate_response` turns it into bytes. The
allocations of a function are numbered in their order; `mem k` says whether there is memory for
the `k`th of them. What the file system answers to the calls for one request is in `Files`.
-/

namespace Ccybe

open CSem

/-! ### The response -/

/-- `http_response_t`; two fields of it are never used. -/
structure HttpResponse where
  statusCode : Int
  headers : List (Option PairT)
  headerCount : Int
  body : StringT

/-- The response after `init_resp_ctx`. -/
def initResp : HttpResponse := ⟨0, List.replicate 128 (some .zero), 0, .null⟩

/-- `get_status_code`. -/
def getStatusCode (code : Int) : Bytes :=
  if code = 404 then ascii "Not Found".toList
  else if code = 200 then ascii "OK".toList
  else if code = 403 then ascii "Forbidden".toList
  else ascii "Internal Server Error".toList

def crlf : Bytes := [13, 10]

/-- What `first_line` prints. -/
def firstLine (code : Int) : Bytes :=
  ascii "HTTP/1.1 ".toList ++ formatInt code ++ chr ' ' :: getStatusCode code ++ crlf

/-- What `header_value` prints. -/
def headerLine (key value : Bytes) : Bytes := key ++ ascii ": ".toList ++ value ++ crlf

/-- A text is printed into a string of `TEMP_LEN` bytes, of which it becomes the length. -/
def tempString (text : Bytes) (mem : Bool) : Eval StringT := do
  let temp ← StringT.newNString 216 mem
  match temp.data with
  | none => .error .null
  | some data =>
    let (n, data) ← snprintf data 216 text
    let data ← set data n 0
    pure ⟨n, some data⟩

/-- The body of the loop over the headers in `generate_response`. -/
def addHeader (r : HttpResponse) (mem : ℕ → Bool) (resp : StringT) (i : ℕ) : Eval StringT := do
  let h ← get r.headers i
  let key ← readString h.key
  let value ← readString h.value
  let a ← tempString (headerLine key value) (mem (3 + 2 * i))
  let (_, resp) ← resp.appendString a (mem (4 + 2 * i))    -- a failure is only printed
  pure resp

/-- `generate_response`. -/
def generateResponse (r : HttpResponse) (mem : ℕ → Bool) : Eval StringT := do
  let tempResp ← tempString (firstLine r.statusCode) (mem 0)
  let resp ← StringT.newString (some (terminated [])) (mem 1)
  let (_, resp) ← resp.appendString tempResp (mem 2)
  let n := r.headerCount.toNat
  let resp ← (List.range n).foldlM (addHeader r mem) resp
  let seperator ← StringT.newString (some (terminated crlf)) (mem (3 + 2 * n))
  let (_, resp) ← resp.appendString seperator (mem (4 + 2 * n))
  let body ← r.body.copyString (mem (5 + 2 * n))
  let (_, resp) ← resp.appendString body (mem (6 + 2 * n))
  pure resp

/-- `set_header`. -/
def setHeader (r : HttpResponse) (header value : Block) : Eval HttpResponse := do
  let klen ← strlen header
  let vlen ← strlen value
  let h ← get r.headers r.headerCount
  let key ← memcpy h.key 0 header klen
  let value ← memcpy h.value 0 value vlen
  let headers ← set r.headers r.headerCount ⟨key, value⟩
  let headerCount ← add r.headerCount 1
  pure { r with headers := headers, headerCount := headerCount }

/-- The array `length` after the length of the body was printed into it. -/
def lengthText (r : HttpResponse) : Eval Block := do
  let (_, length) ← snprintf (List.replicate 33 none) 33 (formatInt r.body.len)
  pure length

/-- `set_header` with a name and a value that are literals. -/
def setText (r : HttpResponse) (header value : List Char) : Eval HttpResponse :=
  setHeader r (terminated (ascii header)) (terminated (ascii value))

/-! ### The pages -/

/-- `send_close_resp`. -/
def sendCloseResp (r : HttpResponse) (mem : ℕ → Bool) : Eval HttpResponse := do
  let r := { r with statusCode := 200 }
  let temp ← StringT.newString (some (terminated (ascii "closed".toList))) (mem 0)
  let body ← temp.copyString (mem 1)
  let r := { r with body := body }
  let length ← lengthText r
  let r ← setHeader r (terminated (ascii "Content-Length".toList)) length
  let r ← setText r "Content-Type".toList "text/plain".toList
  setText r "Connection".toList "close".toList

/-- `not_found_page`; the results of the calls are only printed. -/
def notFoundPage (r : HttpResponse) (req : HttpRequest) (mem : ℕ → Bool) : Eval HttpResponse := do
  let r := { r with statusCode := 404 }
  let temp ← StringT.newString (some (terminated (ascii "Path=".toList))) (mem 0)
  let (_, temp) ← temp.appendStringCstr (some req.rawPath) (mem 1)
  let (_, temp) ← temp.appendStringCstr (some (terminated (ascii " not found".toList))) (mem 2)
  let body ← temp.copyString (mem 3)
  let r := { r with body := body }
  let length ← lengthText r
  let r ← setHeader r (terminated (ascii "Content-Length".toList)) length
  let r ← setText r "Content-Type".toList "text/plain".toList
  setText r "Connection".toList "keep-alive".toList

/-! ### Files -/

inductive MimeType where
  | js
  | html
  | css
  | png
  deriving DecidableEq

/-- The first loop of `get_mime`, when `i` characters of the path are left. -/
def scanExt (path : Block) : ℕ → ℕ → Block → Eval (ℕ × Block)
  | 0, extLen, ext => pure (extLen, ext)
  | i + 1, extLen, ext => do
    let c ← get path i
    if c = chr '.' then pure (extLen, ext)
    else
      let ext ← set ext extLen c
      scanExt path i (extLen + 1) ext

/-- The body of the second loop of `get_mime`. -/
def swapExt (extLen : ℕ) (ext : Block) (i : ℕ) : Eval Block := do
  let x ← get ext i
  let y ← get ext (extLen - i - 1 : ℕ)
  let ext ← set ext i y
  set ext (extLen - i - 1 : ℕ) x

/-- `get_mime`; `none` is -1. -/
def getMime (path : Block) : Eval (Option MimeType) := do
  let n ← strlen path
  let (extLen, ext) ← scanExt path (toInt n).toNat 0 (List.replicate 10 none)
  let ext ← (List.range (extLen / 2)).foldlM (swapExt extLen) ext
  let ext ← set ext extLen 0
  let name ← readString ext
  if sameIgnoringCase name (ascii "js".toList) then pure (some .js)
  else if sameIgnoringCase name (ascii "css".toList) then pure (some .css)
  else if sameIgnoringCase name (ascii "html".toList) then pure (some .html)
  else if sameIgnoringCase name (ascii "png".toList) then pure (some .png)
  else pure none

inductive FileKind where
  | directory
  | regular
  | other
  deriving DecidableEq

/-- The answers of the file system; `none` is -1. -/
structure Files where
  stat : Option (FileKind × ℕ)     -- `st_mode` and `st_size`
  opened : Option Fd
  read : ℕ → Option Bytes          -- the bytes that are stored, by the number asked for

/-- The value of the header `Content-Type`. -/
def MimeType.contentType : MimeType → List Char
  | .js => "application/javascript".toList
  | .html => "text/html".toList
  | .png => "image/png".toList
  | .css => "text/css".toList

/-- `read` into a string: the string with its new length. -/
def readFile (files : Files) (temp : StringT) : Eval (Option StringT) :=
  match files.read temp.len.toNat with
  | none => pure none
  | some bs => do
    let data ← blit (temp.data.getD []) 0 (bs.map some)
    pure (some ⟨toInt bs.length, temp.data.map fun _ => data⟩)

/-- `handle_static_files`: the response, and the descriptors that were opened and not closed. -/
def handleStaticFiles (files : Files) (r : HttpResponse) (filePath : Block) (fileSize : Int)
    (mem : ℕ → Bool) : Eval (HttpResponse × List Fd) := do
  match ← getMime filePath with
  | none => pure (r, [])
  | some mimeId =>
    match files.opened with
    | none => pure (r, [])
    | some fd =>
      let r := { r with statusCode := 200 }
      let size ← add fileSize 1
      let temp ← StringT.newNString size (mem 0)
      match ← readFile files temp with
      | none => pure (r, [fd])
      | some temp =>
        let body ← temp.copyString (mem 1)
        let r := { r with body := body }
        let length ← lengthText r
        let r ← setHeader r (terminated (ascii "Content-Length".toList)) length
        let r ← setText r "Content-Type".toList mimeId.contentType
        let r ← setText r "Connection".toList "keep-alive".toList
        pure (r, [fd])

/-- `handle_not_found`. -/
def handleNotFound (files : Files) (r : HttpResponse) (req : HttpRequest) (mem : ℕ → Bool) :
    Eval (HttpResponse × List Fd) := do
  let tempPath ← StringT.newString (some (terminated (ascii "./www".toList))) (mem 0)
  let (ok, tempPath) ← tempPath.appendStringCstr (some req.url.path) (mem 1)
  if !ok then pure ({ r with statusCode := 500 }, [])
  else match files.stat with
    | none => do
      let r ← notFoundPage r req fun k => mem (2 + k)
      pure (r, [])
    | some (.regular, size) =>
      handleStaticFiles files r (tempPath.data.getD []) (toInt size) fun k => mem (2 + k)
    | some _ => pure (r, [])

end Ccybe
