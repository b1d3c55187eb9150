import Ccybe.Http.Dispatch
import Ccybe.Response.Framing
import Ccybe.Response.Mime

/-!
# The status of a response

The context is cleared before the request is looked at, and `generate_response` prints what is in it
afterwards, whether or not it was filled in.
-/

namespace Ccybe

open CSem

/-- The status is one of HTTP, and there is a header with the length of the body. -/
structure HttpResponse.Real (r : HttpResponse) : Prop where
  status : 100 ≤ r.statusCode ∧ r.statusCode ≤ 599
  length : ∃ (i : ℕ) (pair : PairT) (key : Bytes), (i : Int) < r.headerCount ∧
    r.headers[i]? = some (some pair) ∧ HasString pair.key key ∧
    sameIgnoringCase key (ascii "Content-Length".toList) = true

/-- `route_handler_fn`: the function fills in the response. -/
abbrev HandlerFn := HttpResponse → HttpRequest → Eval HttpResponse

instance : Inhabited HandlerFn := ⟨fun r _ => pure r⟩

/-- The call in the `switch` of `handle_conn`. -/
def fillResponse (files : Files) (mem : ℕ → Bool) (r : HttpResponse) (req : HttpRequest) :
    Target HandlerFn → Eval HttpResponse
  | .handler func => func r req
  | .notFound => do
    let (r, _) ← handleNotFound files r req mem
    pure r
  | .nothing => pure r

/-- `handle_conn` up to `generate_response`: the response that is printed, if there is one. -/
def respondConn (kh : KHash HandlerFn) (llhttp : Llhttp) (route : kh.Table) (files : Files)
    (mem : ℕ → Bool) (buf : Bytes) : Eval (Option HttpResponse) := do
  match ← dispatchConn kh llhttp route buf with
  | none => pure none
  | some (req, target) => do
    let r ← fillResponse files mem initResp req target
    pure (some r)

/-! ### Filled responses -/

lemma HttpResponse.Filled.real {r : HttpResponse} {code : Int} {extra : List (Bytes × Bytes)}
    {bs : Bytes} (h : r.Filled code extra bs) (hcode : 100 ≤ code ∧ code ≤ 599) : r.Real := by
  obtain ⟨pair, hpair, hkey, -⟩ := h.headers.held 0 _ rfl
  have hname : sameIgnoringCase (ascii "Content-Length".toList) (ascii "Content-Length".toList) = true := by
    decide
  refine ⟨by rw [h.status]; exact hcode, 0, pair, _, ?_, hpair, hkey, hname⟩
  rw [h.headers.count, List.length_cons]
  omega

/-- Without a header the response is not real. -/
lemma not_real {r : HttpResponse} (hcount : r.headerCount = 0) : ¬ r.Real := by
  rintro ⟨-, i, pair, key, hi, -⟩
  omega

/-- A function that returns a response without a header does not fill it in. -/
lemma not_filled {f : Eval (HttpResponse × List Fd)} {p : HttpResponse × List Fd} (hf : f = .ok p)
    (hcount : p.1.headerCount = 0) : ¬ ∃ q, f = .ok q ∧ q.1.Real := by
  rintro ⟨q, hq, hreal⟩
  obtain rfl : p = q := Except.ok.inj (hf.symm.trans hq)
  exact not_real hcount hreal

/-- `not_found_page` fills in the response, with or without memory. -/
lemma notFoundPage_real {req : HttpRequest} {raw : Bytes} (hraw : HasString req.rawPath raw)
    (hlen : raw.length ≤ 255) (mem : ℕ → Bool) :
    ∃ r, notFoundPage initResp req mem = .ok r ∧ r.Real := by
  have hname : HasString (terminated (ascii "Path=".toList)) (ascii "Path=".toList) :=
    hasString_terminated (by decide)
  have hend : HasString (terminated (ascii " not found".toList)) (ascii " not found".toList) :=
    hasString_terminated (by decide)
  have hnameLen : (ascii "Path=".toList).length = 5 := by decide
  have hendLen : (ascii " not found".toList).length = 10 := by decide
  obtain ⟨text, htext, htextLen⟩ := StringT.holdsOrNull_if (ascii "Path=".toList) (mem 0)
  obtain ⟨ok₁, temp₁, text₁, happend₁, htext₁, hlen₁⟩ := htext.appendStringCstr hraw (by omega) (mem 1)
  obtain ⟨ok₂, temp₂, text₂, happend₂, htext₂, hlen₂⟩ := htext₁.appendStringCstr hend (by omega) (mem 2)
  have hcopy := htext₂.begins.copyString_if (by omega) (mem 3)
  obtain ⟨bs, hbody, hbs⟩ := StringT.holdsOrNull_if text₂ (mem 3)
  obtain ⟨r, hset, hfilled⟩ := @setTwo_eq { initResp with
      statusCode := 404, body := if mem 3 then StringT.of text₂ else StringT.null } _
    (hasHeaders_nil rfl rfl) hbody.begins (by omega) "text/plain".toList "keep-alive".toList (by decide)
    (by decide)
  refine ⟨r, ?_, hfilled.real (show (100 : Int) ≤ 404 ∧ (404 : Int) ≤ 599 by decide)⟩
  rw [notFoundPage, StringT.newString_if hname (by omega), ok_bind, happend₁, ok_bind]
  simp only [happend₂, ok_bind, hcopy]
  exact hset

/-! ### Files -/

/-- The extension of the file is known, the file is opened, there is room for it, and it is read. -/
def FileSent (files : Files) (mem : Bool) (path : Bytes) (fileSize : Int) : Prop :=
  (extension path).length ≤ 9 ∧ (mimeOf (extension path)).isSome ∧ files.opened.isSome ∧
    fileSize + 2 ≤ 2147483647 ∧
    ∃ l : ℕ, (if mem then fileSize + 1 = l else l = 0) ∧ (files.read l).isSome

section Static

variable {files : Files} (hread : ∀ n bs, files.read n = some bs → bs.length ≤ n)

include hread

/-- From `read` on: the response is real if and only if the file can be read. -/
lemma readFile_real_iff {cells : Block} {mimeId : MimeType} {fd : Fd} {fileSize size : Int} {l : ℕ}
    {temp : StringT} {mem : ℕ → Bool} (hmime : getMime cells = .ok (some mimeId))
    (hopen : files.opened = some fd) (hsize : add fileSize 1 = .ok size)
    (hnew : StringT.newNString size (mem 0) = .ok temp) (hlen : temp.len = l)
    (hcells : l ≤ (temp.data.getD []).length) (hint : l + 1 ≤ 2147483647) :
    (∃ p, handleStaticFiles files initResp cells fileSize mem = .ok p ∧ p.1.Real) ↔
      (files.read l).isSome := by
  rw [handleStaticFiles, hmime, ok_bind]
  simp only [hopen, hsize, ok_bind, hnew]
  cases hbytes : files.read l with
  | none =>
    have hnone : readFile files temp = .ok none := by
      rw [readFile, hlen, Int.toNat_natCast, hbytes]
      rfl
    rw [hnone]
    exact iff_of_false (not_filled rfl rfl) (by simp)
  | some bs =>
    have hle := hread l bs hbytes
    obtain ⟨temp', htemp', hbegins⟩ := readFile_eq hbytes hle hint hlen hcells
    have hcopy := hbegins.copyString_if (by omega) (mem 1)
    obtain ⟨body, hbody, hbodyLen⟩ := StringT.holdsOrNull_if bs (mem 1)
    obtain ⟨r, hset, hfilled⟩ := @setTwo_eq { initResp with
        statusCode := 200, body := if mem 1 then StringT.of bs else StringT.null } _
      (hasHeaders_nil rfl rfl) hbody.begins (by omega) mimeId.contentType "keep-alive".toList
      (by cases mimeId <;> decide) (by decide)
    have hreal := hfilled.real (show (100 : Int) ≤ 200 ∧ (200 : Int) ≤ 599 by decide)
    refine iff_of_true ⟨(r, [fd]), ?_, hreal⟩ rfl
    simp only [htemp', ok_bind, hcopy]
    simp only [← bind_assoc] at hset ⊢
    rw [hset]
    rfl

/-- Behind `open`: the response is real if and only if there is room for the file and it can be read. -/
lemma roomForFile_iff {cells : Block} {mimeId : MimeType} {fd : Fd} {fileSize : Int} {mem : ℕ → Bool}
    (hmime : getMime cells = .ok (some mimeId)) (hopen : files.opened = some fd)
    (hlow : -2147483648 ≤ fileSize) :
    (∃ p, handleStaticFiles files initResp cells fileSize mem = .ok p ∧ p.1.Real) ↔
      fileSize + 2 ≤ 2147483647 ∧
        ∃ l : ℕ, (if mem 0 then fileSize + 1 = l else l = 0) ∧ (files.read l).isSome := by
  have hrun : ∀ u, (do
      let size ← add fileSize 1
      StringT.newNString size (mem 0)) = .error u →
        ¬ ∃ p, handleStaticFiles files initResp cells fileSize mem = .ok p ∧ p.1.Real := by
    rintro u hu ⟨p, hp, -⟩
    rw [handleStaticFiles, hmime, ok_bind] at hp
    simp only [hopen] at hp
    rw [← bind_assoc, hu] at hp
    cases hp
  rcases le_or_gt (fileSize + 2) 2147483647 with hle | hgt
  · have hsize : add fileSize 1 = .ok (fileSize + 1) := add_ok (by omega) (by omega)
    rcases @StringT.newNString_cases (fileSize + 1) (by omega) (by omega) (mem 0) with
      ⟨l, temp, hl, hnew, hlen, hcells, hint⟩ | ⟨hmem, hneg, hnew⟩
    · rw [readFile_real_iff hread hmime hopen hsize hnew hlen hcells hint]
      refine ⟨fun hsome => ⟨hle, l, hl, hsome⟩, ?_⟩
      rintro ⟨-, l', hl', hsome⟩
      obtain rfl : l' = l := by
        split_ifs at hl hl' <;> omega
      exact hsome
    · refine iff_of_false (hrun .bounds (by rw [hsize, ok_bind, hnew])) ?_
      rintro ⟨-, l, hl, -⟩
      rw [if_pos hmem] at hl
      omega
  · refine iff_of_false (hrun .overflow ?_) fun h => absurd h.1 (by omega)
    rcases le_or_gt (fileSize + 1) 2147483647 with hle | hgt'
    · rw [add, int_ok (by omega) hle, ok_bind, StringT.newNString, add_overflow (by omega), error_bind]
    · rw [add_overflow (by omega), error_bind]

/-- `handle_static_files` fills in the response if and only if the file is sent. -/
lemma handleStaticFiles_real_iff {cells : Block} {path : Bytes} (hpath : HasString cells path)
    (hint : path.length ≤ 2147483647) {fileSize : Int} (hlow : -2147483648 ≤ fileSize)
    (mem : ℕ → Bool) :
    (∃ p, handleStaticFiles files initResp cells fileSize mem = .ok p ∧ p.1.Real) ↔
      FileSent files (mem 0) path fileSize := by
  rcases getMime_cases hpath hint with ⟨hext, hmime⟩ | ⟨hlong, herror⟩
  · cases hid : mimeOf (extension path) with
    | none =>
      refine iff_of_false ?_ ?_
      · rw [handleStaticFiles, hmime, hid]
        exact not_filled rfl rfl
      · rintro ⟨-, hsome, -⟩
        rw [hid] at hsome
        cases hsome
    | some mimeId =>
      cases hopen : files.opened with
      | none =>
        refine iff_of_false ?_ ?_
        · rw [handleStaticFiles, hmime, hid, ok_bind, hopen]
          exact not_filled rfl rfl
        · rintro ⟨-, -, hsome, -⟩
          rw [hopen] at hsome
          cases hsome
      | some fd =>
        have hsent : FileSent files (mem 0) path fileSize ↔ fileSize + 2 ≤ 2147483647 ∧
            ∃ l : ℕ, (if mem 0 then fileSize + 1 = l else l = 0) ∧ (files.read l).isSome := by
          simp [FileSent, hext, hid, hopen]
        rw [hid] at hmime
        rw [hsent]
        exact roomForFile_iff hread hmime hopen hlow
  · refine iff_of_false ?_ fun hsent => absurd hsent.1 (by omega)
    rw [handleStaticFiles, herror]
    rintro ⟨p, hp, -⟩
    cases hp

/-- There is memory for the path, and either no file is there or it is a regular one that is sent. -/
def ServedPath (files : Files) (mem : ℕ → Bool) (path : Bytes) : Prop :=
  mem 0 = true ∧ mem 1 = true ∧ (files.stat = none ∨
    ∃ size : ℕ, files.stat = some (.regular, size) ∧
      FileSent files (mem 2) (filePath path) (toInt size))

section NotFound

variable {req : HttpRequest} {path raw : Bytes} (hpath : HasString req.url.path path)
  (hpathLen : path.length ≤ 255) (hraw : HasString req.rawPath raw) (hrawLen : raw.length ≤ 255)

include hpath hpathLen hraw hrawLen

/-- `handle_not_found` fills in the response if and only if it serves the path. -/
lemma handleNotFound_real_iff (mem : ℕ → Bool) :
    (∃ q, handleNotFound files initResp req mem = .ok q ∧ q.1.Real) ↔ ServedPath files mem path := by
  have hfile := filePath_string hpath.1
  rw [ServedPath, ← and_assoc]
  by_cases hmem : mem 0 = true ∧ mem 1 = true
  · rw [handleNotFound_mem hpath hpathLen hmem.1 hmem.2, and_iff_right hmem]
    rcases hstat : files.stat with - | ⟨kind, size⟩
    · obtain ⟨r, hok, hreal⟩ := notFoundPage_real hraw hrawLen fun k => mem (2 + k)
      refine iff_of_true ⟨(r, []), ?_, hreal⟩ (.inl rfl)
      simp only [hok, Except.map]
    · cases kind with
      | regular =>
        have hint : (filePath path).length ≤ 2147483647 := by
          rw [length_filePath]
          omega
        have hstatic := handleStaticFiles_real_iff hread hfile hint (le_toInt size) fun k => mem (2 + k)
        refine hstatic.trans ⟨fun hsent => .inr ⟨size, rfl, hsent⟩, ?_⟩
        rintro (hnone | ⟨size', hsize', hsent⟩)
        · cases hnone
        · cases hsize'
          exact hsent
      | directory | other =>
        refine iff_of_false (not_filled rfl rfl) ?_
        rintro (hnone | ⟨size', hsize', -⟩)
        · cases hnone
        · cases hsize'
  · rw [handleNotFound_noMem hpath hpathLen hmem]
    exact iff_of_false (not_filled rfl rfl) fun hserved => hmem hserved.1

end NotFound

end Static

/-! ### Every answered request -/

section Answered

variable {kh : KHash HandlerFn} {content : kh.Table → Bytes → Option HandlerFn}
  (hkh : kh.Correct content)

/-- For an accepted request the response is what is filled in after `dispatch`. -/
lemma respondConn_accepted {llhttp : Llhttp} {buf : Bytes} {ok : Int} {req : HttpRequest}
    (hparse : parseHttpRequest llhttp buf = .ok (ok, req)) (hok : ok ≠ 1) (route : kh.Table)
    (files : Files) (mem : ℕ → Bool) (r : HttpResponse) :
    respondConn kh llhttp route files mem buf = .ok (some r) ↔
      ∃ target, dispatch kh route req = .ok target ∧
        fillResponse files mem initResp req target = .ok r := by
  rw [respondConn, dispatchConn, hparse, ok_bind]
  simp only [if_neg hok]
  constructor
  · intro h
    obtain ⟨dispatched, hdispatch, h⟩ := bind_eq_ok.mp h
    obtain ⟨target, htarget, hdispatch⟩ := bind_eq_ok.mp hdispatch
    cases hdispatch
    obtain ⟨r', hfill, h⟩ := bind_eq_ok.mp h
    cases h
    exact ⟨target, htarget, hfill⟩
  · rintro ⟨target, htarget, hfill⟩
    simp only [htarget, ok_bind, pure_eq_ok, hfill]

/-- Only for a `GET` request something is called. -/
lemma dispatch_not_get {req : HttpRequest} (hget : getMothodType req.method ≠ .ok .get)
    {route : kh.Table} {target : Target HandlerFn} (h : dispatch kh route req = .ok target) :
    target = .nothing := by
  obtain ⟨method, hmethod, h⟩ := bind_eq_ok.mp h
  cases method with
  | get => exact absurd hmethod hget
  | post | unknown =>
    cases h
    rfl

/-- What is called for a path fills in the response if and only if the path is registered or served. -/
lemma fillResponse_real_iff {calls : List (Bytes × HandlerFn)} {req : HttpRequest} {path raw : Bytes}
    (hpath : HasString req.url.path path) (hpathLen : path.length ≤ 255)
    (hraw : HasString req.rawPath raw) (hrawLen : raw.length ≤ 255)
    (hcalls : ∀ call ∈ calls, ∃ r, call.2 initResp req = .ok r ∧ r.Real) {files : Files}
    (hread : ∀ n bs, files.read n = some bs → bs.length ≤ n) (mem : ℕ → Bool) :
    (∃ r, fillResponse files mem initResp req (targetOf calls path) = .ok r ∧ r.Real) ↔
      (∃ call ∈ calls, call.1 = path) ∨ ServedPath files mem path := by
  cases htarget : targetOf calls path with
  | handler func =>
    obtain ⟨before, behind, rfl, -⟩ := (targetOf_eq_handler_iff calls path func).mp htarget
    exact iff_of_true (hcalls (path, func) (by simp)) (.inl ⟨(path, func), by simp, rfl⟩)
  | notFound =>
    have hnone := (targetOf_eq_notFound_iff calls path).mp htarget
    have hserved := handleNotFound_real_iff hread hpath hpathLen hraw hrawLen mem
    rw [← hserved, or_iff_right (fun ⟨call, hmem, heq⟩ => hnone call hmem heq), fillResponse]
    constructor
    · rintro ⟨r, hr, hreal⟩
      obtain ⟨q, hq, hr⟩ := bind_eq_ok.mp hr
      cases hr
      exact ⟨q, hq, hreal⟩
    · rintro ⟨q, hq, hreal⟩
      exact ⟨q.1, by rw [hq]; rfl, hreal⟩
  | nothing =>
    rw [targetOf] at htarget
    split at htarget <;> cases htarget

include hkh

/-- The response to an accepted request is real if and only if it is a `GET` request for a path that
is registered or served. -/
theorem real_response_iff (calls : List (Bytes × HandlerFn)) {llhttp : Llhttp} {buf : Bytes} {ok : Int}
    {req : HttpRequest} {text : Bytes} (hparse : parseHttpRequest llhttp buf = .ok (ok, req))
    (hok : ok ≠ 1) (hdec : DecodesTo req.rawPath text)
    (hcalls : ∀ call ∈ calls, ∃ r, call.2 initResp req = .ok r ∧ r.Real) {files : Files}
    (hread : ∀ n bs, files.read n = some bs → bs.length ≤ n) (mem : ℕ → Bool) :
    (∃ r, respondConn kh llhttp (registerRoutes kh calls) files mem buf = .ok (some r) ∧ r.Real) ↔
      getMothodType req.method = .ok .get ∧
        ((∃ call ∈ calls, call.1 = pathOf text) ∨ ServedPath files mem (pathOf text)) := by
  obtain ⟨raw, text', hraw, hrawLen, hdec', hpath, hpathLen⟩ := parse_accepted hparse hok
  obtain rfl := hdec.unique hdec'
  simp only [respondConn_accepted hparse hok]
  by_cases hget : getMothodType req.method = .ok .get
  · simp only [dispatch_get hkh hget hpath, hget, true_and, Except.ok.injEq, exists_eq_left']
    exact fillResponse_real_iff hpath hpathLen hraw hrawLen hcalls hread mem
  · refine iff_of_false ?_ fun h => hget h.1
    rintro ⟨r, ⟨target, htarget, hfill⟩, hreal⟩
    obtain rfl := dispatch_not_get hget htarget
    cases hfill
    exact not_real rfl hreal

end Answered

/-- `home_page`, registered for `/`, answers a request for `/`. -/
theorem real_response_iff_home :
    ∃ r, respondConn (listHash HandlerFn) rootLlhttp
        (registerRoutes (listHash HandlerFn) [(ascii ['/'], fun r req => homePage r req memAll)])
        ⟨none, none, fun _ => none⟩ memAll (ascii "GET / HTTP/1.1\r\n\r\n".toList) = .ok (some r) ∧
      r.Real := by
  obtain ⟨req, ok, hparse, hok, hget, hdec⟩ :=
    @exists_getRequest rootLlhttp (ascii "GET / HTTP/1.1\r\n\r\n".toList) rootMessage
      (by decide) (by decide) (by decide) (ascii "/".toList)
      ((decodesTo_iff (hasString_terminated (by decide)) _).mpr (by decide)) (by decide)
  obtain ⟨raw, -, hraw, hrawLen, -⟩ := parse_accepted hparse hok
  obtain ⟨r, hhome, hfilled⟩ := homePage_eq hraw hrawLen
  refine (real_response_iff (listHash_correct HandlerFn) _ hparse hok hdec ?_ ?_ memAll).mpr
    ⟨hget, .inl ⟨_, List.mem_cons_self, by decide⟩⟩
  · rw [List.forall_mem_singleton]
    exact ⟨r, hhome, hfilled.real (by decide)⟩
  · exact fun _ _ h => by cases h

lemma text_nul : (0 : UInt8) ∉ ascii "/a.txt".toList := by decide

/-- The request for `/a.txt`, and a file of two bytes. -/
def textMessage : Message :=
  ⟨ascii "GET".toList, ascii "/a.txt".toList, [], [], get_nul, text_nul, noHeaders_nul⟩

def textFile : Files := ⟨some (.regular, 2), some 5, fun n => some (List.replicate (min n 2) 65)⟩

/-- There is no type for `txt`: the status stays zero, and no header is set. -/
theorem text_file_without_status :
    ∃ req, GetRequest (fun _ => (true, textMessage.callbacks))
        (ascii "GET /a.txt HTTP/1.1\r\n\r\n".toList) req (ascii "/a.txt".toList) ∧
      respondConn (listHash HandlerFn) (fun _ => (true, textMessage.callbacks))
        (registerRoutes (listHash HandlerFn) []) textFile memAll
        (ascii "GET /a.txt HTTP/1.1\r\n\r\n".toList) = .ok (some initResp) ∧
      initResp.statusCode = 0 ∧ ¬ initResp.Real := by
  obtain ⟨req, hreq⟩ := @exists_getRequest (fun _ => (true, textMessage.callbacks))
    (ascii "GET /a.txt HTTP/1.1\r\n\r\n".toList) textMessage rfl (by decide) (by decide)
    (ascii "/a.txt".toList) ((decodesTo_iff (hasString_terminated (by decide)) _).mpr (by decide))
    (by decide)
  refine ⟨req, hreq, ?_, rfl, not_real rfl⟩
  obtain ⟨ok, hparse, hok, hget, hdec⟩ := hreq
  obtain ⟨-, text, -, -, hdec', hpath, -⟩ := parse_accepted hparse hok
  obtain rfl := hdec.unique hdec'
  have hpathOf : pathOf (ascii "/a.txt".toList) = ascii "/a.txt".toList := by decide
  rw [hpathOf] at hpath
  refine (respondConn_accepted hparse hok _ _ _ _).mpr
    ⟨.notFound, dispatch_get (listHash_correct _) hget hpath [], ?_⟩
  have hfile : HasString (terminated (ascii "./www".toList ++ ascii "/a.txt".toList))
      (ascii "./www".toList ++ ascii "/a.txt".toList) := hasString_terminated (by decide)
  have hmime : getMime (terminated (ascii "./www".toList ++ ascii "/a.txt".toList)) = .ok none := by
    rcases getMime_cases hfile (by decide) with ⟨-, hmime⟩ | ⟨hlong, -⟩
    · exact hmime
    · exact absurd hlong (by decide)
  rw [fillResponse, handleNotFound_mem hpath (by decide) rfl rfl]
  simp only [textFile, handleStaticFiles, filePath, hmime, ok_bind]
  rfl

end Ccybe
