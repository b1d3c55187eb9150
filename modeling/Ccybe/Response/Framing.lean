import Ccybe.Lib.Lines
import Ccybe.Response.Generate
import Ccybe.Response.Pages

/-!
# The length of the body

Each handler prints the length of the body before `generate_response` appends it. The header block
has one line with that length, and it is followed by the first empty line, so that the length is
that of what comes behind, whatever the bytes of the body are.
-/

namespace Ccybe

open CSem

/-! ### Framed responses -/

/-- The line is one of a `Content-Length` header. -/
def isContentLength (line : Bytes) : Bool :=
  sameIgnoringCase (line.takeWhile (· ≠ chr ':')) (ascii "Content-Length".toList)

/-- The number behind the colon of a line. -/
def contentLength (line : Bytes) : Option ℕ :=
  numeral (((line.dropWhile (· ≠ chr ':')).drop 1).dropWhile (· = chr ' '))

/-- Lines, the first empty line, and as many bytes as the only `Content-Length` line says. -/
def Framed (bytes : Bytes) : Prop :=
  ∃ lines body line, Lines.FirstAt (crlf ++ crlf) bytes (crlf.intercalate lines) body ∧
    (∀ l ∈ lines, (13 : UInt8) ∉ l) ∧ lines.filter isContentLength = [line] ∧
    contentLength line = some body.length

/-- The status line without its end. -/
def statusLine (code : Int) : Bytes :=
  ascii "HTTP/1.1 ".toList ++ formatInt code ++ chr ' ' :: getStatusCode code

/-- The line of a header without its end. -/
def headerText (h : Bytes × Bytes) : Bytes := h.1 ++ ascii ": ".toList ++ h.2

/-- The header with the length of the body. -/
def lengthHeader (n : ℕ) : Bytes × Bytes := (ascii "Content-Length".toList, decimal n)

/-- The line has no end in it and gives no length. -/
def Plain (line : Bytes) : Prop := line ≠ [] ∧ (13 : UInt8) ∉ line ∧ isContentLength line = false

instance (line : Bytes) : Decidable (Plain line) := inferInstanceAs (Decidable (_ ∧ _ ∧ _))

lemma headText_eq (code : Int) (hs : List (Bytes × Bytes)) :
    headText code hs = Lines.block 13 10 (statusLine code :: hs.map headerText) ++ crlf := by
  have hlines : ∀ hs : List (Bytes × Bytes), hs.flatMap (fun h => headerLine h.1 h.2) =
      Lines.block 13 10 (hs.map headerText) := by
    intro hs
    rw [Lines.block, List.flatMap_map]
    rfl
  rw [headText, hlines]
  rfl

-- Over the list: for all bytes at once it takes too long.
lemma colon_notMem : ∀ c ∈ ascii "Content-Length".toList, decide (c ≠ chr ':') = true :=
  List.all_eq_true.mp (by decide)

lemma isContentLength_lengthHeader (n : ℕ) : isContentLength (headerText (lengthHeader n)) = true := by
  have hname : (headerText (lengthHeader n)).takeWhile (· ≠ chr ':') = ascii "Content-Length".toList := by
    rw [headerText, lengthHeader, List.append_assoc, List.takeWhile_append_of_pos colon_notMem]
    exact List.append_nil _
  rw [isContentLength, hname]
  decide

lemma contentLength_lengthHeader (n : ℕ) :
    contentLength (headerText (lengthHeader n)) = some n := by
  have hvalue : (headerText (lengthHeader n)).dropWhile (· ≠ chr ':') =
      ascii ": ".toList ++ decimal n := by
    rw [headerText, lengthHeader, List.append_assoc, List.dropWhile_append_of_pos colon_notMem]
    rfl
  obtain ⟨d, rest, hdigits⟩ := List.exists_cons_of_ne_nil (decimal_ne_nil n)
  have hd : d ≠ chr ' ' := by
    rintro rfl
    have := (mem_decimal (n := n) (by rw [hdigits]; exact List.mem_cons_self)).1
    exact absurd this (by decide)
  have hspace : ((ascii ": ".toList ++ decimal n).drop 1).dropWhile (· = chr ' ') = decimal n := by
    rw [hdigits]
    simp [ascii, hd]
  rw [contentLength, hvalue, hspace, numeral_decimal]

/-- A head with one length is followed by the first empty line. -/
lemma firstAt_headText {code : Int} {hs : List (Bytes × Bytes)} (hstatus : Plain (statusLine code))
    (hheaders : ∀ h ∈ hs, headerText h ≠ [] ∧ (13 : UInt8) ∉ headerText h) (body : Bytes) :
    Lines.FirstAt (crlf ++ crlf) (headText code hs ++ body)
      (crlf.intercalate (statusLine code :: hs.map headerText)) body := by
  rw [headText_eq]
  refine Lines.firstAt_block (by decide) (List.cons_ne_nil _ _) ?_ body
  rw [List.forall_mem_cons, List.forall_mem_map]
  exact ⟨⟨hstatus.1, hstatus.2.1⟩, hheaders⟩

lemma lengthHeader_line (n : ℕ) :
    headerText (lengthHeader n) ≠ [] ∧ (13 : UInt8) ∉ headerText (lengthHeader n) := by
  have hname : (13 : UInt8) ∉ ascii "Content-Length".toList := by decide
  have hcolon : (13 : UInt8) ∉ ascii ": ".toList := by decide
  have hdigits : (13 : UInt8) ∉ decimal n := fun h => absurd (mem_decimal h).1 (by decide)
  refine ⟨by simp [headerText, lengthHeader, ascii], ?_⟩
  simp only [headerText, lengthHeader, List.mem_append, not_or]
  exact ⟨⟨hname, hcolon⟩, hdigits⟩

/-- The same for the head that the handlers fill in. -/
lemma firstAt_lengthHead {code : Int} {extra : List (Bytes × Bytes)} (hstatus : Plain (statusLine code))
    (hextra : ∀ h ∈ extra, Plain (headerText h)) (n : ℕ) (body : Bytes) :
    Lines.FirstAt (crlf ++ crlf) (headText code (lengthHeader n :: extra) ++ body)
      (crlf.intercalate (statusLine code :: (lengthHeader n :: extra).map headerText)) body :=
  firstAt_headText hstatus (List.forall_mem_cons.mpr ⟨lengthHeader_line n, fun h hh =>
    ⟨(hextra h hh).1, (hextra h hh).2.1⟩⟩) body

/-- A response with the length of its body in front of other headers is framed. -/
lemma framed_headText {code : Int} {extra : List (Bytes × Bytes)} (hstatus : Plain (statusLine code))
    (hextra : ∀ h ∈ extra, Plain (headerText h)) (body : Bytes) :
    Framed (headText code (lengthHeader body.length :: extra) ++ body) := by
  refine ⟨_, body, headerText (lengthHeader body.length), firstAt_lengthHead hstatus hextra _ body, ?_, ?_,
    contentLength_lengthHeader _⟩
  · rw [List.forall_mem_cons, List.forall_mem_map, List.forall_mem_cons]
    exact ⟨hstatus.2.1, (lengthHeader_line _).2, fun h hh => (hextra h hh).2.1⟩
  · have hnone : (extra.map headerText).filter isContentLength = [] := by
      rw [List.filter_eq_nil_iff, List.forall_mem_map]
      exact fun h hh => by simp [(hextra h hh).2.2]
    rw [List.filter_cons_of_neg (by simp [hstatus.2.2]), List.map_cons,
      List.filter_cons_of_pos (isContentLength_lengthHeader _), hnone]

/-! ### Filling in a response -/

/-- The status, the length of the body, the other headers and the body. -/
structure HttpResponse.Filled (r : HttpResponse) (code : Int) (extra : List (Bytes × Bytes))
    (bs : Bytes) : Prop where
  status : r.statusCode = code
  headers : r.HasHeaders (lengthHeader bs.length :: extra)
  body : r.body.Begins bs
  int : bs.length + 1 ≤ 2147483647

/-- A string of up to 127 characters without a zero byte. -/
def Short (text : List Char) : Prop := (0 : UInt8) ∉ ascii text ∧ text.length ≤ 127

instance (text : List Char) : Decidable (Short text) := inferInstanceAs (Decidable (_ ∧ _))

/-- `r'` is `r` but for its headers. -/
def HttpResponse.SameBody (r r' : HttpResponse) : Prop :=
  r'.statusCode = r.statusCode ∧ r'.body = r.body

lemma setText_eq {r : HttpResponse} {hs : List (Bytes × Bytes)} (hr : r.HasHeaders hs)
    (hroom : hs.length < 128) (header value : List Char) (hheader : Short header)
    (hvalue : Short value) :
    ∃ r', setText r header value = .ok r' ∧ r'.HasHeaders (hs ++ [(ascii header, ascii value)]) ∧
      r.SameBody r' :=
  setHeader_eq hr (h := (ascii header, ascii value)) (hasString_terminated hheader.1)
    (hasString_terminated hvalue.1)
    ⟨by simpa [ascii] using hheader.2, by simpa [ascii] using hvalue.2⟩ hroom

/-- The length of the body becomes the first header. -/
lemma setLength_eq {r : HttpResponse} {bs : Bytes} (hr : r.HasHeaders []) (hbody : r.body.Begins bs)
    (hint : bs.length + 1 ≤ 2147483647) :
    ∃ length r', lengthText r = .ok length ∧
      setHeader r (terminated (ascii "Content-Length".toList)) length = .ok r' ∧
      r'.HasHeaders [lengthHeader bs.length] ∧ r.SameBody r' := by
  obtain ⟨length, hlength, hdigits⟩ := lengthText_eq hbody.1 (by omega)
  have hlen : (decimal bs.length).length ≤ 10 := length_decimal_le (by decide) (by omega)
  have hname : HasString (terminated (ascii "Content-Length".toList)) (lengthHeader bs.length).1 :=
    hasString_terminated (by decide)
  have hshort : (lengthHeader bs.length).1.length ≤ 127 ∧ (lengthHeader bs.length).2.length ≤ 127 :=
    ⟨show (ascii "Content-Length".toList).length ≤ 127 by decide, hlen.trans (by decide)⟩
  obtain ⟨r', hset, hheaders, hsame⟩ := setHeader_eq hr hname hdigits hshort (by decide)
  exact ⟨length, r', hlength, hset, hheaders, hsame⟩

lemma HttpResponse.SameBody.trans {r₁ r₂ r₃ : HttpResponse} (h : r₁.SameBody r₂) (h' : r₂.SameBody r₃) :
    r₁.SameBody r₃ :=
  ⟨h'.1.trans h.1, h'.2.trans h.2⟩

/-- The other headers of `not_found_page`, `send_close_resp` and `handle_static_files`. -/
def twoHeaders (type connection : List Char) : List (Bytes × Bytes) :=
  [header "Content-Type".toList type, header "Connection".toList connection]

/-- Those of the pages of `main.c`. -/
def pageHeaders : List (Bytes × Bytes) :=
  [header "Content-Type".toList "text/plain".toList, header "X-Hackerone-Id".toList "0xfaisal".toList,
    header "Connection".toList "close".toList]

/-- The length of the body and two other headers are set. -/
lemma setTwo_eq {r : HttpResponse} {bs : Bytes} (hr : r.HasHeaders []) (hbody : r.body.Begins bs)
    (hint : bs.length + 1 ≤ 2147483647) {type connection : List Char} (htype : Short type)
    (hconnection : Short connection) :
    ∃ r', (do
        let length ← lengthText r
        let r ← setHeader r (terminated (ascii "Content-Length".toList)) length
        let r ← setText r "Content-Type".toList type
        setText r "Connection".toList connection) = .ok r' ∧
      r'.Filled r.statusCode (twoHeaders type connection) bs := by
  obtain ⟨length, r₁, hlength, hset, hr₁, hsame₁⟩ := setLength_eq hr hbody hint
  obtain ⟨r₂, hset₂, hr₂, hsame₂⟩ :=
    setText_eq hr₁ (by simp) "Content-Type".toList type (by decide) htype
  obtain ⟨r₃, hset₃, hr₃, hsame₃⟩ :=
    setText_eq hr₂ (by simp) "Connection".toList connection (by decide) hconnection
  have hsame := (hsame₁.trans hsame₂).trans hsame₃
  refine ⟨r₃, ?_, hsame.1, hr₃, ?_, hint⟩
  · rw [hlength, ok_bind, hset, ok_bind, hset₂, ok_bind, hset₃]
  · rw [hsame.2]
    exact hbody

lemma writeHeader_eq {r : HttpResponse} {bs : Bytes} (hr : r.HasHeaders []) (hbody : r.body.Begins bs)
    (hint : bs.length + 1 ≤ 2147483647) :
    ∃ r', writeHeader r = .ok r' ∧ r'.Filled r.statusCode pageHeaders bs := by
  obtain ⟨length, r₁, hlength, hset, hr₁, hsame₁⟩ := setLength_eq hr hbody hint
  obtain ⟨r₂, hset₂, hr₂, hsame₂⟩ :=
    setText_eq hr₁ (by simp) "Content-Type".toList "text/plain".toList (by decide) (by decide)
  obtain ⟨r₃, hset₃, hr₃, hsame₃⟩ :=
    setText_eq hr₂ (by simp) "X-Hackerone-Id".toList "0xfaisal".toList (by decide) (by decide)
  obtain ⟨r₄, hset₄, hr₄, hsame₄⟩ :=
    setText_eq hr₃ (by simp) "Connection".toList "close".toList (by decide) (by decide)
  have hsame := ((hsame₁.trans hsame₂).trans hsame₃).trans hsame₄
  refine ⟨r₄, ?_, hsame.1, hr₄, ?_, hint⟩
  · rw [writeHeader, hlength, ok_bind, hset, ok_bind, hset₂, ok_bind, hset₃, ok_bind, hset₄]
  · rw [hsame.2]
    exact hbody

/-! ### The pages -/

lemma length_pathText {path : Bytes} (h : path.length ≤ 255) :
    (ascii "Path=".toList ++ path).length ≤ 260 := by
  rw [List.length_append, show (ascii "Path=".toList).length = 5 by decide]
  omega

section Pages

variable {req : HttpRequest} {path : Bytes} (hraw : HasString req.rawPath path)
  (hpath : path.length ≤ 255)

include hraw hpath

/-- `Path=` and the raw path. -/
lemma pathText_eq :
    ∃ temp temp', StringT.newString (some (terminated (ascii "Path=".toList))) true = .ok temp ∧
      temp.appendStringCstr (some req.rawPath) true = .ok (true, temp') ∧
      temp'.Holds (ascii "Path=".toList ++ path) := by
  have hname : HasString (terminated (ascii "Path=".toList)) (ascii "Path=".toList) :=
    hasString_terminated (by decide)
  have hlen : (ascii "Path=".toList).length = 5 := by decide
  obtain ⟨temp, hnew, htemp⟩ := StringT.newString_eq hname (by decide)
  obtain ⟨temp', happend, htemp'⟩ := StringT.appendStringCstr_eq htemp hraw (by omega)
  exact ⟨temp, temp', hnew, happend, htemp'⟩

lemma homePage_eq :
    ∃ r, homePage initResp req memAll = .ok r ∧
      r.Filled 200 pageHeaders (ascii "Path=".toList ++ path) := by
  have hlen := length_pathText hpath
  obtain ⟨temp, temp', hnew, happend, htemp⟩ := pathText_eq hraw hpath
  obtain ⟨r, hwrite, hfilled⟩ := @writeHeader_eq { initResp with body := temp', statusCode := 200 } _
    (hasHeaders_nil rfl rfl) htemp.begins (by omega)
  refine ⟨r, ?_, hfilled⟩
  rw [homePage, hnew, ok_bind, happend, ok_bind]
  exact hwrite

lemma apiHomePage_eq :
    ∃ r, apiHomePage initResp req memAll = .ok r ∧
      r.Filled 200 pageHeaders (ascii "Path=".toList ++ path) := by
  have hlen := length_pathText hpath
  obtain ⟨temp, temp', hnew, happend, htemp⟩ := pathText_eq hraw hpath
  obtain ⟨body, hcopy, hbody⟩ := htemp.begins.copyString_eq (by omega)
  obtain ⟨r, hwrite, hfilled⟩ := @writeHeader_eq { initResp with body := body, statusCode := 200 } _
    (hasHeaders_nil rfl rfl) hbody.begins (by omega)
  refine ⟨r, ?_, hfilled⟩
  rw [apiHomePage, hnew, ok_bind, happend, ok_bind]
  simp only [Bool.not_true, Bool.false_eq_true, if_false, hcopy, ok_bind]
  exact hwrite

lemma notFoundPage_eq :
    ∃ r, notFoundPage initResp req memAll = .ok r ∧
      r.Filled 404 (twoHeaders "text/plain".toList "keep-alive".toList)
        (ascii "Path=".toList ++ path ++ ascii " not found".toList) := by
  have hlen := length_pathText hpath
  have hend : (ascii " not found".toList).length = 10 := by decide
  obtain ⟨temp, temp', hnew, happend, htemp⟩ := pathText_eq hraw hpath
  have hnotFound : HasString (terminated (ascii " not found".toList)) (ascii " not found".toList) :=
    hasString_terminated (by decide)
  obtain ⟨temp₂, happend₂, htemp₂⟩ := StringT.appendStringCstr_eq htemp hnotFound (by omega)
  obtain ⟨body, hcopy, hbody⟩ := htemp₂.begins.copyString_eq (by rw [List.length_append]; omega)
  obtain ⟨r, hwrite, hfilled⟩ := @setTwo_eq { initResp with statusCode := 404, body := body } _
    (hasHeaders_nil rfl rfl) hbody.begins (by rw [List.length_append]; omega) "text/plain".toList
    "keep-alive".toList (by decide) (by decide)
  refine ⟨r, ?_, hfilled⟩
  rw [notFoundPage, hnew, ok_bind, happend, ok_bind]
  simp only [happend₂, ok_bind, hcopy]
  exact hwrite

end Pages

lemma sendCloseResp_eq :
    ∃ r, sendCloseResp initResp memAll = .ok r ∧
      r.Filled 200 (twoHeaders "text/plain".toList "close".toList) (ascii "closed".toList) := by
  have hclosed : HasString (terminated (ascii "closed".toList)) (ascii "closed".toList) :=
    hasString_terminated (by decide)
  obtain ⟨temp, hnew, htemp⟩ := StringT.newString_eq hclosed (by decide)
  obtain ⟨body, hcopy, hbody⟩ := htemp.begins.copyString_eq (by decide)
  obtain ⟨r, hwrite, hfilled⟩ := @setTwo_eq { initResp with statusCode := 200, body := body } _
    (hasHeaders_nil rfl rfl) hbody.begins (by decide) "text/plain".toList "close".toList (by decide)
    (by decide)
  refine ⟨r, ?_, hfilled⟩
  rw [sendCloseResp, hnew, ok_bind, hcopy, ok_bind]
  exact hwrite

/-! ### Files -/

/-- The headers of a file. -/
def fileHeaders (mimeId : MimeType) : List (Bytes × Bytes) :=
  twoHeaders mimeId.contentType "keep-alive".toList

lemma readFile_eq {files : Files} {l : ℕ} {bs : Bytes} (hread : files.read l = some bs)
    (hle : bs.length ≤ l) (hint : l + 1 ≤ 2147483647) {temp : StringT} (hlen : temp.len = l)
    (hcells : l ≤ (temp.data.getD []).length) :
    ∃ temp', readFile files temp = .ok (some temp') ∧ temp'.Begins bs := by
  have hblit : blit (temp.data.getD []) 0 (bs.map some) =
      .ok (bs.map some ++ (temp.data.getD []).drop bs.length) := by
    rw [blit_front (by rw [List.length_map]; omega), List.length_map]
  have hbs : toInt bs.length = bs.length := toInt_eq (by omega) (by omega)
  refine ⟨⟨bs.length, temp.data.map fun _ => bs.map some ++ (temp.data.getD []).drop bs.length⟩, ?_,
    rfl, ?_⟩
  · simp only [readFile, hlen, Int.toNat_natCast, hread, hblit, ok_bind, pure_eq_ok, hbs]
  · cases hdata : temp.data with
    | some cells => exact ⟨_, rfl⟩
    | none =>
      rw [hdata] at hcells
      obtain rfl : bs = [] := List.length_eq_zero_iff.mp (by simp at hcells; omega)
      exact ⟨[], rfl⟩

/-- A file that is read is the body as far as it was read. -/
lemma handleStaticFiles_eq {files : Files} {filePath : Block} {mimeId : MimeType} {fd : Fd} {l : ℕ}
    {bs : Bytes} {fileSize : Int} (hmime : getMime filePath = .ok (some mimeId))
    (hopen : files.opened = some fd) (hl : fileSize + 1 = l) (hint : l + 1 ≤ 2147483647)
    (hread : files.read l = some bs) (hle : bs.length ≤ l) :
    ∃ r, handleStaticFiles files initResp filePath fileSize memAll = .ok (r, [fd]) ∧
      r.Filled 200 (fileHeaders mimeId) bs := by
  have hsize : add fileSize 1 = .ok (l : Int) := by
    rw [← hl]
    exact add_ok (by omega) (by omega)
  obtain ⟨temp, htemp, hbegins⟩ :=
    @readFile_eq files l bs hread hle hint ⟨l, some (List.replicate l none ++ [some 0])⟩ rfl (by simp)
  obtain ⟨body, hcopy, hbody⟩ := hbegins.copyString_eq (by omega)
  obtain ⟨r, hwrite, hfilled⟩ := @setTwo_eq { initResp with statusCode := 200, body := body } _
    (hasHeaders_nil rfl rfl) hbody.begins (by omega) mimeId.contentType "keep-alive".toList
    (by cases mimeId <;> decide) (by decide)
  refine ⟨r, ?_, hfilled⟩
  rw [handleStaticFiles, hmime, ok_bind]
  simp only [hopen, hsize, ok_bind, StringT.newNString_eq hint, htemp, hcopy]
  simp only [← bind_assoc] at hwrite ⊢
  rw [hwrite]
  rfl

/-! ### Framing -/

lemma plain_statusLine {code : Int} (h : code = 200 ∨ code = 404) : Plain (statusLine code) := by
  rcases h with rfl | rfl <;> decide

/-- The other headers that are set. -/
def Extra (extra : List (Bytes × Bytes)) : Prop :=
  (∀ h ∈ extra, Plain (headerText h)) ∧ ∀ h ∈ extra, (headerLine h.1 h.2).length ≤ 215

lemma linesFit_of_extra {code : Int} (hcode : code = 200 ∨ code = 404) {n : ℕ}
    (hint : n + 1 ≤ 2147483647) {extra : List (Bytes × Bytes)} (hextra : Extra extra) :
    LinesFit code (lengthHeader n :: extra) := by
  have hlen : (decimal n).length ≤ 10 := length_decimal_le (by decide) (by omega)
  have hname : (ascii "Content-Length".toList).length = 14 := by decide
  have hcolon : (ascii ": ".toList).length = 2 := by decide
  refine ⟨by rcases hcode with rfl | rfl <;> decide, List.forall_mem_cons.mpr ⟨?_, hextra.2⟩⟩
  simp only [headerLine, lengthHeader, List.length_append, hname, hcolon, crlf, List.length_cons,
    List.length_nil]
  omega

/-- `generate_response` frames a response that was filled in, if its length is an `int`. -/
lemma HttpResponse.Filled.generate_cases {r : HttpResponse} {code : Int} {extra : List (Bytes × Bytes)}
    {bs : Bytes} (h : r.Filled code extra bs) (hcode : code = 200 ∨ code = 404) (hextra : Extra extra) :
    ((headText code (lengthHeader bs.length :: extra)).length + bs.length + 1 ≤ 2147483647 ∧
      ∃ s, generateResponse r memAll = .ok s ∧
        s.bytes = .ok (headText code (lengthHeader bs.length :: extra) ++ padded bs)) ∨
    (2147483647 < (headText code (lengthHeader bs.length :: extra)).length + bs.length + 1 ∧
      generateResponse r memAll = .error .overflow) := by
  obtain ⟨rfl, hheaders, hbody, hint⟩ := h
  rcases generateResponse_cases hheaders.lists hheaders.length_le (linesFit_of_extra hcode hint hextra)
    hbody with
    ⟨hle, s, hok, hholds⟩ | hbad
  · exact .inl ⟨hle, s, hok, hholds.bytes_eq⟩
  · exact .inr hbad

end Ccybe
