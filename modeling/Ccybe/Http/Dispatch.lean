import Ccybe.Messages
import Ccybe.Route

/-!
# What `handle_conn` calls for a request

The function is looked up by the path of the decoded URL, and by nothing else of the request.
-/

namespace Ccybe

open CSem

/-- What is called in the `switch` of `handle_conn`. -/
inductive Target (V : Type) where
  | handler (func : V)
  | notFound
  | nothing
  deriving DecidableEq

section Dispatch

variable {V : Type} (kh : KHash V)

/-- The `switch` of `handle_conn`, up to the call. -/
def dispatch (route : kh.Table) (req : HttpRequest) : Eval (Target V) := do
  match ← getMothodType req.method with
  | .get => do
    let path ← readString req.url.path
    match routeLookup kh route path with
    | some func => pure (.handler func)
    | none => pure .notFound
  | .post => pure .nothing
  | .unknown => pure .nothing

/-- `handle_conn` up to the call, which is not made for a bad request. -/
def dispatchConn (llhttp : Llhttp) (route : kh.Table) (buf : Bytes) :
    Eval (Option (HttpRequest × Target V)) := do
  let (ok, req) ← parseHttpRequest llhttp buf
  if ok = 1 then pure none
  else do
    let target ← dispatch kh route req
    pure (some (req, target))

end Dispatch

/-! ### Accepted requests -/

/-- What `seperate_query` leaves for a raw path that it accepts. -/
lemma seperateQuery_accepted {rawPath : Block} (hsize : rawPath.length = 256) {result : Int} {url : UrlT}
    (h : seperateQuery rawPath = .ok (result, url)) (hresult : result ≠ 1) :
    ∃ raw text, HasString rawPath raw ∧ raw.length ≤ 255 ∧ DecodesTo rawPath text ∧
      HasString url.path (pathOf text) ∧ (pathOf text).length ≤ 255 := by
  obtain ⟨n, hlen, -⟩ := bind_eq_ok.mp h
  obtain ⟨raw, hraw⟩ := hasString_of_strlen hlen
  have hrawLen := hraw.length_lt
  by_cases hdec : ∃ text, DecodesTo rawPath text
  · obtain ⟨text, htext⟩ := hdec
    have hpath : (pathOf text).length ≤ 255 := by
      have := length_pathOf_le ((decodesTo_iff hraw text).mp htext)
      omega
    have hnul : (0 : UInt8) ∉ pathOf text := fun hmem =>
      htext.zero_notMem ((List.takeWhile_sublist _).subset hmem)
    rw [seperateQuery_eq htext] at h
    rcases separateText_cases hpath with ⟨-, pairs, -, hok⟩ | ⟨-, herror⟩
    · rw [hok] at h
      cases h
      exact ⟨raw, text, hraw, by omega, htext, pathCells_hasString hpath hnul, hpath⟩
    · rw [herror] at h
      cases h
  · push Not at hdec
    rw [seperateQuery_refused hraw hdec] at h
    cases h
    exact absurd rfl hresult

/-- The raw path and the path of the URL of an accepted request are strings, and the latter is what is
before the first `?` of the decoded text. -/
lemma parse_accepted {llhttp : Llhttp} {buf : Bytes} {ok : Int} {req : HttpRequest}
    (h : parseHttpRequest llhttp buf = .ok (ok, req)) (hok : ok ≠ 1) :
    ∃ raw text, HasString req.rawPath raw ∧ raw.length ≤ 255 ∧ DecodesTo req.rawPath text ∧
      HasString req.url.path (pathOf text) ∧ (pathOf text).length ≤ 255 := by
  obtain ⟨r, hfold, h⟩ := bind_eq_ok.mp h
  obtain ⟨m, hsized⟩ := HttpRequest.fold_sized _ httpRequestInit_sized (Nat.zero_le _) hfold
  split_ifs at h with herr
  · cases h
    exact absurd rfl hok
  · obtain ⟨result, hsep, h⟩ := bind_eq_ok.mp h
    cases h
    exact seperateQuery_accepted hsized.rawPath hsep hok

/-! ### Routing -/

/-- The request in the buffer is accepted, it is a `GET` request, and its decoded URL is `text`. -/
def GetRequest (llhttp : Llhttp) (buf : Bytes) (req : HttpRequest) (text : Bytes) : Prop :=
  ∃ ok, parseHttpRequest llhttp buf = .ok (ok, req) ∧ ok ≠ 1 ∧ getMothodType req.method = .ok .get ∧
    DecodesTo req.rawPath text

section Routing

variable {V : Type} {kh : KHash V} {content : kh.Table → Bytes → Option V} (hkh : kh.Correct content)

/-- What is called for the path `p` after these calls of `register_route`. -/
def targetOf (calls : List (Bytes × V)) (p : Bytes) : Target V :=
  match calls.lookup p with
  | some func => .handler func
  | none => .notFound

omit hkh in
lemma targetOf_eq_handler_iff (calls : List (Bytes × V)) (p : Bytes) (func : V) :
    targetOf calls p = .handler func ↔ ∃ before after, calls = before ++ (p, func) :: after ∧
      ∀ call ∈ before, call.1 ≠ p := by
  have hlookup : targetOf calls p = .handler func ↔ calls.lookup p = some func := by
    rw [targetOf]
    cases calls.lookup p <;> simp
  rw [hlookup, List.lookup_eq_some_iff]
  simp only [bne_iff_ne, ne_comm]

omit hkh in
lemma targetOf_eq_notFound_iff (calls : List (Bytes × V)) (p : Bytes) :
    targetOf calls p = .notFound ↔ ∀ call ∈ calls, call.1 ≠ p := by
  have hlookup : targetOf calls p = .notFound ↔ calls.lookup p = none := by
    rw [targetOf]
    cases calls.lookup p <;> simp
  rw [hlookup, List.lookup_eq_none_iff]
  simp only [bne_iff_ne, ne_comm]

include hkh

/-- A `GET` request is answered by the function of its path. -/
lemma dispatch_get {req : HttpRequest} (hget : getMothodType req.method = .ok .get) {p : Bytes}
    (hpath : HasString req.url.path p) (calls : List (Bytes × V)) :
    dispatch kh (registerRoutes kh calls) req = .ok (targetOf calls p) := by
  rw [dispatch, hget, ok_bind]
  simp only [hpath.readString_eq, ok_bind, routeLookup_registerRoutes hkh, targetOf]
  cases calls.lookup p <;> rfl

lemma dispatchConn_get {llhttp : Llhttp} {buf : Bytes} {req : HttpRequest} {text : Bytes}
    (h : GetRequest llhttp buf req text) (calls : List (Bytes × V)) :
    dispatchConn kh llhttp (registerRoutes kh calls) buf =
      .ok (some (req, targetOf calls (pathOf text))) := by
  obtain ⟨ok, hparse, hok, hget, hdec⟩ := h
  obtain ⟨-, text', -, -, hdec', hpath, -⟩ := parse_accepted hparse hok
  obtain rfl := hdec.unique hdec'
  rw [dispatchConn, hparse, ok_bind]
  simp only [if_neg hok, dispatch_get hkh hget hpath, ok_bind]
  rfl

/-- Two `GET` requests with the same path call the function of the first call for this path, and
`handle_not_found` if and only if there is none. -/
theorem routed_by_path (calls : List (Bytes × V)) {llhttp : Llhttp} {buf buf' : Bytes}
    {req req' : HttpRequest} {text text' : Bytes} (h : GetRequest llhttp buf req text)
    (h' : GetRequest llhttp buf' req' text') (hpath : pathOf text = pathOf text') :
    ∃ target, dispatchConn kh llhttp (registerRoutes kh calls) buf = .ok (some (req, target)) ∧
      dispatchConn kh llhttp (registerRoutes kh calls) buf' = .ok (some (req', target)) ∧
      (∀ func, target = .handler func ↔ ∃ before after, calls = before ++ (pathOf text, func) :: after ∧
        ∀ call ∈ before, call.1 ≠ pathOf text) ∧
      (target = .notFound ↔ ∀ call ∈ calls, call.1 ≠ pathOf text) := by
  refine ⟨targetOf calls (pathOf text), dispatchConn_get hkh h calls, ?_,
    targetOf_eq_handler_iff calls _, targetOf_eq_notFound_iff calls _⟩
  rw [hpath]
  exact dispatchConn_get hkh h' calls

end Routing

/-- One message with the method `GET` makes such a request. -/
lemma exists_getRequest {llhttp : Llhttp} {buf : Bytes} {m : Message}
    (hparse : llhttp buf = (true, m.callbacks)) (hfits : Fits m.callbacks)
    (hget : sameIgnoringCase (ascii ['g', 'e', 't']) m.method = true) {text : Bytes}
    (hdec : DecodesTo (terminated m.url) text) (hquery : QueryFits text) :
    ∃ req, GetRequest llhttp buf req text := by
  have hurl : HasString (terminated m.url) m.url := hasString_terminated m.url_nul
  have hmost := (decodesTo_iff hurl text).mp hdec
  obtain ⟨result, req, hok, hsep, hmethod, hraw, -⟩ :=
    @parse_messages llhttp buf [] m (by simpa using hparse) (by simpa using hfits)
      (query_fits text m.url_nul hmost hquery)
  have hdec' : DecodesTo req.rawPath text := (decodesTo_iff hraw text).mpr hmost
  have hlen : m.url.length ≤ 255 :=
    Nat.le_of_lt_succ (hfits.1 (.url m.url) (by simp [Message.callbacks]))
  obtain ⟨url, -, hok', -⟩ :=
    seperateQuery_of_fits hdec' ((length_pathOf_le hmost).trans hlen) hquery
  rw [hsep] at hok'
  cases hok'
  refine ⟨req, 0, hok, by decide, ?_, hdec'⟩
  rw [getMothodType, hmethod.readString_eq, ok_bind, if_pos hget]
  rfl

lemma get_nul : (0 : UInt8) ∉ ascii "GET".toList := by decide

lemma root_nul : (0 : UInt8) ∉ ascii "/".toList := by decide

lemma query_nul : (0 : UInt8) ∉ ascii "/?a=b".toList := by decide

lemma noHeaders_nul : ∀ h ∈ ([] : List (Bytes × Bytes)), (0 : UInt8) ∉ h.1 ∧ (0 : UInt8) ∉ h.2 :=
  List.forall_mem_nil _

/-- The requests for `/` and `/?a=b`. -/
def rootMessage : Message := ⟨ascii "GET".toList, ascii "/".toList, [], [], get_nul, root_nul, noHeaders_nul⟩

def queryMessage : Message :=
  ⟨ascii "GET".toList, ascii "/?a=b".toList, [], [], get_nul, query_nul, noHeaders_nul⟩

/-- What `llhttp` reports for these two. -/
def rootLlhttp (buf : Bytes) : Bool × List Callback :=
  if buf = ascii "GET / HTTP/1.1\r\n\r\n".toList then (true, rootMessage.callbacks)
  else (true, queryMessage.callbacks)

/-- The path is registered twice; the first function is called with and without a query. -/
theorem routed_by_path_root :
    ∃ req req' target, dispatchConn (listHash ℕ) rootLlhttp
        (registerRoutes (listHash ℕ) [(ascii ['/'], 1), (ascii ['/'], 2)])
        (ascii "GET / HTTP/1.1\r\n\r\n".toList) = .ok (some (req, target)) ∧
      dispatchConn (listHash ℕ) rootLlhttp
        (registerRoutes (listHash ℕ) [(ascii ['/'], 1), (ascii ['/'], 2)])
        (ascii "GET /?a=b HTTP/1.1\r\n\r\n".toList) = .ok (some (req', target)) ∧
      target = .handler 1 := by
  obtain ⟨req, h⟩ := @exists_getRequest rootLlhttp (ascii "GET / HTTP/1.1\r\n\r\n".toList) rootMessage
    (by decide) (by decide) (by decide) (ascii "/".toList)
    ((decodesTo_iff (hasString_terminated (by decide)) _).mpr (by decide)) (by decide)
  obtain ⟨req', h'⟩ := @exists_getRequest rootLlhttp (ascii "GET /?a=b HTTP/1.1\r\n\r\n".toList)
    queryMessage (by decide) (by decide) (by decide) (ascii "/?a=b".toList)
    ((decodesTo_iff (hasString_terminated (by decide)) _).mpr (by decide)) (by decide)
  obtain ⟨target, hdispatch, hdispatch', hhandler, -⟩ :=
    routed_by_path (listHash_correct ℕ) [(ascii ['/'], 1), (ascii ['/'], 2)] h h' (by decide)
  refine ⟨req, req', target, hdispatch, hdispatch', ?_⟩
  exact (hhandler 1).mpr ⟨[], [(ascii ['/'], 2)], by decide, by simp⟩

end Ccybe
