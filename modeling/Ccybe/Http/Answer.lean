import Ccybe.Http.Delivered
import Ccybe.Http.Status
import Ccybe.Response.Served

/-!
# What the server of `main.c` answers

With the routes of `main`, the bytes of a response are a function of the method, of the path and of
what the file system says, where there is memory: `expected` computes them without a string or a
header array. All that the server generates in a run, and all that it sends, is of this form.
-/

namespace Ccybe

open CSem Trace

/-- What a request meets: the file system, and the memory for its handler and for
`generate_response`. -/
structure World where
  files : Files
  mem : ℕ → Bool
  memResp : ℕ → Bool

/-- A handler, with the memory for its allocations. -/
abbrev RouteFn := (ℕ → Bool) → HandlerFn

/-- The calls of `register_route` in `main`. -/
def mainRoutes : List (Bytes × RouteFn) :=
  [(ascii "/".toList, fun mem r req => homePage r req mem),
    (ascii "/api".toList, fun mem r req => apiHomePage r req mem)]

/-- The function that is called has the memory `mem`. -/
def Target.withMem (mem : ℕ → Bool) : Target RouteFn → Target HandlerFn
  | .handler func => .handler (func mem)
  | .notFound => .notFound
  | .nothing => .nothing

/-- The bytes that `write_to_client` sends of a response; a string without data has no length. -/
def sentBytes (r : HttpResponse) (mem : ℕ → Bool) : Eval Bytes := do
  let s ← generateResponse r mem
  if s.data.isNone then pure [] else s.bytes

/-- `handle_conn` from the `switch` on, up to the bytes of the response. -/
def answerBytes (kh : KHash RouteFn) (route : kh.Table) (w : World) (req : HttpRequest) :
    Eval Bytes := do
  let target ← dispatch kh route req
  let r ← fillResponse w.files w.mem initResp req (target.withMem w.mem)
  sentBytes r w.memResp

/-! ### What is expected -/

/-- A response with the length of its body. -/
def page (code : Int) (extra : List (Bytes × Bytes)) (body : Bytes) : Bytes :=
  headText code (lengthHeader body.length :: extra) ++ body

/-- The response to a request for a regular file, `none` where it is undefined. -/
def expectedFile (files : Files) (file : Bytes) (size : Int) : Option Bytes :=
  if 9 < (extension file).length then none
  else match mimeOf (extension file), files.opened with
    | some mimeId, some _ =>
      if 0 ≤ size + 1 ∧ size + 2 ≤ 2147483647 then
        match files.read (size + 1).toNat with
        | none => some (headText 200 [])
        | some bs =>
          if bs.length ≤ mimeId.maxBody then some (page 200 (fileHeaders mimeId) (padded bs)) else none
      else none
    | _, _ => some (headText 0 [])

/-- The response to a request with the raw path `raw`, whose decoded path is `path`. -/
def expected (files : Files) (method : MethodType) (path raw : Bytes) : Option Bytes :=
  match method with
  | .post | .unknown => some (headText 0 [])
  | .get =>
    if path = ascii "/".toList ∨ path = ascii "/api".toList then
      some (page 200 pageHeaders (ascii "Path=".toList ++ raw))
    else match files.stat with
      | none => some (page 404 (twoHeaders "text/plain".toList "keep-alive".toList)
          (ascii "Path=".toList ++ raw ++ ascii " not found".toList))
      | some (.regular, size) => expectedFile files (filePath path) (toInt size)
      | some _ => some (headText 0 [])

/-! ### The bytes of a response -/

lemma sentBytes_of_holds {r : HttpResponse} {s : StringT} {bs : Bytes}
    (h : generateResponse r memAll = .ok s) (hs : s.Holds bs) : sentBytes r memAll = .ok bs := by
  rw [sentBytes, h, ok_bind, hs.data]
  exact hs.bytes_eq

/-- A response that was not filled in has no header. -/
lemma sentBytes_empty {r : HttpResponse} (hheaders : r.headers = initResp.headers)
    (hcount : r.headerCount = 0) (hbody : r.body = .null)
    (hcode : r.statusCode = 0 ∨ r.statusCode = 200) :
    sentBytes r memAll = .ok (headText r.statusCode []) := by
  have hlists := (hasHeaders_nil hheaders hcount).lists
  have hbegins : r.body.Begins [] := by
    rw [hbody]
    exact ⟨rfl, [], rfl⟩
  have hlen : (headText r.statusCode []).length ≤ 100 := by
    rcases hcode with hcode | hcode <;> rw [hcode] <;> decide
  have hfit : LinesFit r.statusCode [] := by
    refine ⟨?_, List.forall_mem_nil _⟩
    rcases hcode with hcode | hcode <;> rw [hcode] <;> decide
  rcases generateResponse_cases hlists (by decide) hfit hbegins with ⟨-, s, hok, hs⟩ | ⟨hgt, -⟩
  · have hbytes := sentBytes_of_holds hok hs
    rwa [padded, List.append_nil] at hbytes
  · rw [List.length_nil] at hgt
    omega

/-- A response that was filled in is sent if its length is an `int`. -/
lemma sentBytes_filled {r : HttpResponse} {code : Int} {extra : List (Bytes × Bytes)} {bs : Bytes}
    (h : r.Filled code extra bs) (hcode : code = 200 ∨ code = 404) (hextra : Extra extra) (sent : Bytes) :
    sentBytes r memAll = .ok sent ↔
      (headText code (lengthHeader bs.length :: extra)).length + bs.length + 1 ≤ 2147483647 ∧
        page code extra (padded bs) = sent := by
  have hpage : page code extra (padded bs) =
      headText code (lengthHeader bs.length :: extra) ++ padded bs := by
    rw [page, length_padded]
  rcases h.generate_cases hcode hextra with ⟨hle, s, hok, hbytes⟩ | ⟨hgt, herror⟩
  · have hdata : s.data.isNone = false := by
      cases hdata : s.data with
      | some cells => rfl
      | none =>
        rw [StringT.bytes, hdata] at hbytes
        cases hbytes
    have hsent : sentBytes r memAll = .ok (page code extra (padded bs)) := by
      rw [sentBytes, hok, ok_bind, hdata, hpage]
      exact hbytes
    rw [hsent, Except.ok.injEq, and_iff_right hle]
  · rw [sentBytes, herror]
    exact iff_of_false (fun hok => by cases hok) fun hsent => by omega

lemma sentBytes_short {r : HttpResponse} {code : Int} {extra : List (Bytes × Bytes)} {bs : Bytes}
    (h : r.Filled code extra bs) (hcode : code = 200 ∨ code = 404) (hextra : Extra extra)
    (hnul : (0 : UInt8) ∉ bs) (hshort : extra.length ≤ 3) (hbs : bs.length ≤ 270) :
    sentBytes r memAll = .ok (page code extra bs) := by
  have hlen := length_headText_le (linesFit_of_extra hcode h.int hextra)
  rw [List.length_cons] at hlen
  refine (sentBytes_filled h hcode hextra _).mpr ⟨by omega, ?_⟩
  rw [(padded_eq_iff bs).mpr fun u v heq => absurd (heq ▸ List.mem_append_right u List.mem_cons_self) hnul]

/-! ### Files -/

/-- Where the file cannot be read, the status is all that is set. -/
lemma handleStaticFiles_unread {files : Files} {cells : Block} {mimeId : MimeType} {fd : Fd} {l : ℕ}
    {fileSize : Int} (hmime : getMime cells = .ok (some mimeId)) (hopen : files.opened = some fd)
    (hl : fileSize + 1 = l) (hint : l + 1 ≤ 2147483647) (hread : files.read l = none) :
    handleStaticFiles files initResp cells fileSize memAll =
      .ok ({ initResp with statusCode := 200 }, [fd]) := by
  have hsize : add fileSize 1 = .ok (l : Int) := by
    rw [← hl]
    exact add_ok (by omega) (by omega)
  rw [handleStaticFiles, hmime, ok_bind]
  simp only [hopen, hsize, ok_bind, StringT.newNString_eq hint, readFile, Int.toNat_natCast, hread,
    pure_eq_ok]

section Static

variable {files : Files} (hread : ∀ n bs, files.read n = some bs → bs.length ≤ n)

include hread

/-- What is sent for a file, where its type is known and it is opened. -/
lemma opened_answer_iff {cells : Block} {mimeId : MimeType} {fd : Fd} {fileSize : Int}
    (hmime : getMime cells = .ok (some mimeId)) (hopen : files.opened = some fd) (sent : Bytes) :
    (handleStaticFiles files initResp cells fileSize memAll >>= fun p => sentBytes p.1 memAll) =
        .ok sent ↔
      (if 0 ≤ fileSize + 1 ∧ fileSize + 2 ≤ 2147483647 then
        match files.read (fileSize + 1).toNat with
        | none => some (headText 200 [])
        | some bs =>
          if bs.length ≤ mimeId.maxBody then some (page 200 (fileHeaders mimeId) (padded bs)) else none
      else none) = some sent := by
  split_ifs with hint
  · obtain ⟨l, hl⟩ := Int.eq_ofNat_of_zero_le hint.1
    rw [hl, Int.toNat_natCast]
    cases hbytes : files.read l with
    | none =>
      have hstatic := handleStaticFiles_unread hmime hopen hl (by omega) hbytes
      have hsent := @sentBytes_empty { initResp with statusCode := 200 } rfl rfl rfl (.inr rfl)
      rw [hstatic, ok_bind, hsent, Except.ok.injEq, Option.some.injEq]
    | some bs =>
      obtain ⟨r, hstatic, hfilled⟩ :=
        handleStaticFiles_eq hmime hopen hl (by omega) hbytes (hread l bs hbytes)
      rw [hstatic, ok_bind, sentBytes_filled hfilled (.inl rfl) (extra_fileHeaders mimeId),
        fileHead_fits_iff]
      simp
  · refine iff_of_false ?_ (by simp)
    intro hok
    obtain ⟨⟨r, left⟩, hstatic, -⟩ := bind_eq_ok.mp hok
    obtain ⟨l, hl, hle⟩ := handleStaticFiles_int hmime hopen hstatic
    omega

/-- What is sent for a regular file. -/
lemma file_answer_iff {path : Bytes} (hnul : (0 : UInt8) ∉ path) (hlen : path.length ≤ 255)
    (fileSize : Int) (sent : Bytes) :
    (handleStaticFiles files initResp (terminated (filePath path)) fileSize memAll >>=
        fun p => sentBytes p.1 memAll) = .ok sent ↔
      expectedFile files (filePath path) fileSize = some sent := by
  have hint : (filePath path).length ≤ 2147483647 := by
    rw [length_filePath]
    omega
  have hempty := @sentBytes_empty initResp rfl rfl rfl (.inl rfl)
  rcases getMime_cases (filePath_string hnul) hint with ⟨hext, hmime⟩ | ⟨hext, herror⟩
  · rw [expectedFile, if_neg (by omega)]
    cases hid : mimeOf (extension (filePath path)) with
    | none =>
      rw [handleStaticFiles, hmime, hid, ok_bind]
      simp only [pure_eq_ok, ok_bind, hempty, Except.ok.injEq, Option.some.injEq]
      rfl
    | some mimeId =>
      cases hopen : files.opened with
      | none =>
        rw [handleStaticFiles, hmime, hid, ok_bind, hopen]
        simp only [pure_eq_ok, ok_bind, hempty, Except.ok.injEq, Option.some.injEq]
        rfl
      | some fd =>
        rw [hid] at hmime
        exact opened_answer_iff hread hmime hopen sent
  · rw [expectedFile, if_pos hext, handleStaticFiles, herror]
    exact iff_of_false (fun hok => by cases hok) (fun hnone => by cases hnone)

/-! ### Requests -/

omit hread in
lemma pathText_nul {raw : Bytes} (hraw : (0 : UInt8) ∉ raw) :
    (0 : UInt8) ∉ ascii "Path=".toList ++ raw := by
  rw [List.mem_append, not_or]
  exact ⟨by decide, hraw⟩

variable {req : HttpRequest} {path raw : Bytes} (hpath : HasString req.url.path path)
  (hpathLen : path.length ≤ 255) (hraw : HasString req.rawPath raw) (hrawLen : raw.length ≤ 255)

include hpath hpathLen hraw hrawLen

/-- What is sent where no route is found. -/
lemma notFound_answer_iff (sent : Bytes) :
    (handleNotFound files initResp req memAll >>= fun p => sentBytes p.1 memAll) = .ok sent ↔
      (match files.stat with
        | none => some (page 404 (twoHeaders "text/plain".toList "keep-alive".toList)
            (ascii "Path=".toList ++ raw ++ ascii " not found".toList))
        | some (.regular, size) => expectedFile files (filePath path) (toInt size)
        | some _ => some (headText 0 [])) = some sent := by
  rw [handleNotFound_mem hpath hpathLen rfl rfl]
  rcases hstat : files.stat with - | ⟨kind, size⟩
  · obtain ⟨r, hpage, hfilled⟩ := notFoundPage_eq hraw hrawLen
    have hnul : (0 : UInt8) ∉ ascii "Path=".toList ++ raw ++ ascii " not found".toList := by
      rw [List.mem_append, not_or]
      exact ⟨pathText_nul hraw.1, by decide⟩
    have hlen : (ascii "Path=".toList ++ raw ++ ascii " not found".toList).length ≤ 270 := by
      rw [List.length_append, show (ascii " not found".toList).length = 10 by decide]
      exact Nat.add_le_add_right (length_pathText hrawLen) 10
    have hsent := sentBytes_short hfilled (.inr rfl) (extra_text (.inr rfl)) hnul (by decide) hlen
    have hrun : (notFoundPage initResp req fun k => memAll (2 + k)) = .ok r := hpage
    rw [hrun]
    simp only [Except.map, ok_bind, hsent, Except.ok.injEq, Option.some.injEq]
  · cases kind with
    | regular => exact file_answer_iff hread hpath.1 hpathLen (toInt size) sent
    | directory | other =>
      have hempty := @sentBytes_empty initResp rfl rfl rfl (.inl rfl)
      simp only [ok_bind, hempty, Except.ok.injEq, Option.some.injEq]
      rfl

omit hread hpath hpathLen in
/-- What is sent for a path of `main`. -/
lemma page_answer {func : RouteFn} (h : func = (fun mem r req => homePage r req mem) ∨
    func = fun mem r req => apiHomePage r req mem) :
    (func memAll initResp req >>= fun r => sentBytes r memAll) =
      .ok (page 200 pageHeaders (ascii "Path=".toList ++ raw)) := by
  have hlen := length_pathText hrawLen
  have hfilled : ∃ r, func memAll initResp req = .ok r ∧
      r.Filled 200 pageHeaders (ascii "Path=".toList ++ raw) := by
    rcases h with rfl | rfl
    · exact homePage_eq hraw hrawLen
    · exact apiHomePage_eq hraw hrawLen
  obtain ⟨r, hrun, hfilled⟩ := hfilled
  rw [hrun, ok_bind]
  exact sentBytes_short hfilled (.inl rfl) extra_pageHeaders (pathText_nul hraw.1) (by decide) (by omega)

omit hread hpath hpathLen hraw hrawLen in
lemma targetOf_mainRoutes (path : Bytes) :
    (path = ascii "/".toList ∧
      targetOf mainRoutes path = .handler fun mem r req => homePage r req mem) ∨
    (path = ascii "/api".toList ∧
      targetOf mainRoutes path = .handler fun mem r req => apiHomePage r req mem) ∨
    (¬ (path = ascii "/".toList ∨ path = ascii "/api".toList) ∧ targetOf mainRoutes path = .notFound) := by
  by_cases hroot : path = ascii "/".toList
  · refine .inl ⟨hroot, (targetOf_eq_handler_iff _ _ _).mpr ⟨[], mainRoutes.tail, ?_, ?_⟩⟩
    · rw [hroot]
      rfl
    · exact fun call hmem => absurd hmem List.not_mem_nil
  · by_cases hapi : path = ascii "/api".toList
    · refine .inr (.inl ⟨hapi, (targetOf_eq_handler_iff _ _ _).mpr ⟨mainRoutes.take 1, [], ?_, ?_⟩⟩)
      · rw [hapi]
        rfl
      · intro call hmem
        rw [List.mem_singleton.mp hmem]
        exact Ne.symm hroot
    · refine .inr (.inr ⟨not_or.mpr ⟨hroot, hapi⟩, (targetOf_eq_notFound_iff _ _).mpr ?_⟩)
      rw [mainRoutes, List.forall_mem_cons, List.forall_mem_singleton]
      exact ⟨Ne.symm hroot, Ne.symm hapi⟩

/-- What is sent after a lookup in the routes of `main`. -/
lemma get_answer_iff (sent : Bytes) :
    (fillResponse files memAll initResp req ((targetOf mainRoutes path).withMem memAll) >>=
        fun r => sentBytes r memAll) = .ok sent ↔ expected files .get path raw = some sent := by
  rcases targetOf_mainRoutes path with ⟨hroot, htarget⟩ | ⟨hapi, htarget⟩ | ⟨hnone, htarget⟩
  · have hanswer := @page_answer req raw hraw hrawLen _ (.inl rfl)
    rw [htarget, expected, if_pos (.inl hroot)]
    simp only [Target.withMem, fillResponse, hanswer, Except.ok.injEq, Option.some.injEq]
  · have hanswer := @page_answer req raw hraw hrawLen _ (.inr rfl)
    rw [htarget, expected, if_pos (.inr hapi)]
    simp only [Target.withMem, fillResponse, hanswer, Except.ok.injEq, Option.some.injEq]
  · have hanswer := notFound_answer_iff hread hpath hpathLen hraw hrawLen sent
    rw [htarget, expected, if_neg hnone, ← hanswer]
    simp only [Target.withMem, fillResponse, bind_assoc, pure_eq_ok, ok_bind]

end Static

/-! ### The answer to a request -/

section Answered

variable {kh : KHash RouteFn} {content : kh.Table → Bytes → Option RouteFn} (hkh : kh.Correct content)

include hkh

end Answered

/-- Where `handle_conn` is defined with the routes of `main`, the application answers as it does. -/
def App.RunsMain (app : App World) (kh : KHash RouteFn) : Prop :=
  ∀ w req sent, answerBytes kh (registerRoutes kh mainRoutes) w req = .ok sent →
    app.respond w req = sent

/-- The server of `main`, with a library for its routes and one for its requests. -/
def mainApp (kh : KHash RouteFn) (lnFd : Fd) (llhttp : Llhttp) : App World where
  lnFd := lnFd
  llhttp := llhttp
  respond w req :=
    match answerBytes kh (registerRoutes kh mainRoutes) w req with
    | .ok sent => sent
    | .error _ => []

lemma mainApp_runsMain (kh : KHash RouteFn) (lnFd : Fd) (llhttp : Llhttp) :
    (mainApp kh lnFd llhttp).RunsMain kh := by
  intro w req sent h
  simp only [mainApp, h]

/-- There is memory, and `read` returns no more than was asked for. -/
def World.Ample (w : World) : Prop :=
  w.mem = memAll ∧ w.memResp = memAll ∧ ∀ n bs, w.files.read n = some bs → bs.length ≤ n

/-- What is expected for the request that was received in these chunks is `sent`. -/
def App.Expects (app : App World) (files : Files) (chunks : List Bytes) (sent : Bytes) : Prop :=
  ∃ ok req method raw text, parseHttpRequest app.llhttp (textOf chunks) = .ok (ok, req) ∧ ok ≠ 1 ∧
    getMothodType req.method = .ok method ∧ HasString req.rawPath raw ∧ DecodesTo req.rawPath text ∧
    expected files method (pathOf text) raw = some sent

namespace Server

variable {n : ℕ} {kh : KHash RouteFn} {content : kh.Table → Bytes → Option RouteFn}

end Server

end Ccybe
