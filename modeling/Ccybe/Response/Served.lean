import Ccybe.Response.Framing
import Ccybe.Response.Mime

/-!
# What is sent for a handler and for a file

A response is framed if its length is an `int`. The bytes of a file are sent as they are if, in
addition, a zero byte in them has only zero bytes behind it.
-/

namespace Ccybe

open CSem

/-! ### Handlers -/

/-- The head of a file has 87 bytes besides the type if the length of the body has ten digits, and
there is a zero byte behind the body. -/
def MimeType.maxBody (mimeId : MimeType) : ℕ := 2147483559 - mimeId.contentType.length

/-- The handlers, with what the last of them is given. -/
inductive Handler where
  | home
  | api
  | notFound
  | close
  | static (files : Files) (filePath : Block) (fileSize : Int)

namespace Handler

/-- The response that a handler fills in, after `init_resp_ctx`. -/
def run (req : HttpRequest) : Handler → Eval HttpResponse
  | home => homePage initResp req memAll
  | api => apiHomePage initResp req memAll
  | notFound => notFoundPage initResp req memAll
  | close => sendCloseResp initResp memAll
  | static files filePath fileSize => do
    let (r, _) ← handleStaticFiles files initResp filePath fileSize memAll
    pure r

/-- The handler comes to its headers: the type of the file is known, the file is opened, there is a
string for it, and `read` returns no more than was asked for. -/
def ReachesHeaders : Handler → Prop
  | static files filePath fileSize => ∃ mimeId fd l bs, getMime filePath = .ok (some mimeId) ∧
      files.opened = some fd ∧ fileSize + 1 = (l : ℕ) ∧ l + 1 ≤ 2147483647 ∧
      files.read l = some bs ∧ bs.length ≤ l
  | home | api | notFound | close => True

/-- The response to a file is not too long. -/
def FitsInt : Handler → Prop
  | static files filePath fileSize => ∀ mimeId bs, getMime filePath = .ok (some mimeId) →
      files.read (fileSize + 1).toNat = some bs → bs.length ≤ mimeId.maxBody
  | home | api | notFound | close => True

/-- The handler returns, and the bytes that `generate_response` builds are framed. -/
def Answers (req : HttpRequest) (handler : Handler) : Prop :=
  ∃ r s bytes, handler.run req = .ok r ∧ generateResponse r memAll = .ok s ∧ s.bytes = .ok bytes ∧
    Framed bytes

end Handler

lemma length_headText_le {code : Int} {hs : List (Bytes × Bytes)} (h : LinesFit code hs) :
    (headText code hs).length ≤ 217 + 215 * hs.length := by
  obtain ⟨hfirst, hlines⟩ := h
  have hsum : (hs.flatMap fun h => headerLine h.1 h.2).length ≤ 215 * hs.length := by
    clear hfirst
    induction hs with
    | nil => simp
    | cons h hs ih =>
      rw [List.forall_mem_cons] at hlines
      rw [List.flatMap_cons, List.length_append, List.length_cons]
      have := ih hlines.2
      have := hlines.1
      omega
  rw [headText, List.length_append, List.length_append, show crlf.length = 2 from rfl]
  omega

lemma extra_pageHeaders : Extra pageHeaders := by
  constructor <;> decide

lemma extra_fileHeaders (mimeId : MimeType) : Extra (fileHeaders mimeId) := by
  cases mimeId <;> constructor <;> decide

lemma extra_text {connection : List Char}
    (h : connection = "close".toList ∨ connection = "keep-alive".toList) :
    Extra (twoHeaders "text/plain".toList connection) := by
  rcases h with rfl | rfl <;> constructor <;> decide

lemma length_fileHead (mimeId : MimeType) (n : ℕ) :
    (headText 200 (lengthHeader n :: fileHeaders mimeId)).length =
      77 + mimeId.contentType.length + (decimal n).length := by
  have hfirst : (firstLine 200).length = 17 := by decide
  have hlength : (headerLine (lengthHeader n).1 (lengthHeader n).2).length =
      18 + (decimal n).length := by
    simp [headerLine, lengthHeader, ascii, crlf]
    omega
  have hrest : ((fileHeaders mimeId).flatMap fun h => headerLine h.1 h.2).length =
      40 + mimeId.contentType.length := by
    cases mimeId <;> decide
  rw [headText, List.flatMap_cons, List.length_append, List.length_append, List.length_append, hfirst,
    hlength, hrest, show crlf.length = 2 from rfl]
  omega

/-- The length of the response and of the zero byte behind it is an `int`. -/
lemma fileHead_fits_iff (mimeId : MimeType) (n : ℕ) :
    (headText 200 (lengthHeader n :: fileHeaders mimeId)).length + n + 1 ≤ 2147483647 ↔
      n ≤ mimeId.maxBody := by
  have htype : mimeId.contentType.length ≤ 22 := by cases mimeId <;> decide
  rw [length_fileHead, MimeType.maxBody]
  constructor
  · intro h
    by_contra hgt
    have hlong : ¬ (decimal n).length ≤ 9 := by
      rw [length_decimal_le_iff (by decide)]
      omega
    omega
  · intro h
    have hdigits : (decimal n).length ≤ 10 := length_decimal_le (by decide) (by omega)
    omega

section Filled

variable {req : HttpRequest} {handler : Handler} {r : HttpResponse} {code : Int}
  {extra : List (Bytes × Bytes)} {bs : Bytes} (hrun : handler.run req = .ok r)
  (hfilled : r.Filled code extra bs) (hcode : code = 200 ∨ code = 404) (hextra : Extra extra)

include hrun hfilled hcode hextra

lemma answers_iff : handler.Answers req ↔
    (headText code (lengthHeader bs.length :: extra)).length + bs.length + 1 ≤ 2147483647 := by
  rcases hfilled.generate_cases hcode hextra with ⟨hle, s, hok, hbytes⟩ | ⟨hgt, herror⟩
  · refine iff_of_true ⟨r, s, _, hrun, hok, hbytes, ?_⟩ hle
    have hframed := framed_headText (plain_statusLine hcode) hextra.1 (padded bs)
    rwa [length_padded] at hframed
  · refine iff_of_false ?_ (not_le.mpr hgt)
    rintro ⟨r', s, bytes, hrun', hok, -⟩
    rw [hrun] at hrun'
    cases hrun'
    rw [herror] at hok
    cases hok

/-- Short responses are framed. -/
lemma answers_of_short (hshort : extra.length ≤ 3) (hbs : bs.length ≤ 270) : handler.Answers req := by
  rw [answers_iff hrun hfilled hcode hextra]
  have hlen := length_headText_le (linesFit_of_extra hcode hfilled.int hextra)
  rw [List.length_cons] at hlen
  omega

end Filled

/-- The response to a request is framed if and only if its length is an `int`. -/
theorem answers_framed_iff (handler : Handler) {req : HttpRequest} {path : Bytes}
    (hraw : HasString req.rawPath path) (hpath : path.length ≤ 255) (hreach : handler.ReachesHeaders) :
    handler.Answers req ↔ handler.FitsInt := by
  have hlen := length_pathText hpath
  cases handler with
  | home =>
    obtain ⟨r, hrun, hfilled⟩ := homePage_eq hraw hpath
    exact iff_of_true (answers_of_short hrun hfilled (.inl rfl) extra_pageHeaders (by decide) (by omega))
      trivial
  | api =>
    obtain ⟨r, hrun, hfilled⟩ := apiHomePage_eq hraw hpath
    exact iff_of_true (answers_of_short hrun hfilled (.inl rfl) extra_pageHeaders (by decide) (by omega))
      trivial
  | notFound =>
    obtain ⟨r, hrun, hfilled⟩ := notFoundPage_eq hraw hpath
    have hend : (ascii " not found".toList).length = 10 := by decide
    refine iff_of_true (answers_of_short hrun hfilled (.inr rfl) (extra_text (.inr rfl)) (by decide) ?_)
      trivial
    rw [List.length_append]
    omega
  | close =>
    obtain ⟨r, hrun, hfilled⟩ := sendCloseResp_eq
    exact iff_of_true (answers_of_short hrun hfilled (.inl rfl) (extra_text (.inl rfl)) (by decide)
      (by decide)) trivial
  | static files filePath fileSize =>
    obtain ⟨mimeId, fd, l, bs, hmime, hopen, hl, hint, hread, hle⟩ := hreach
    obtain ⟨r, hstatic, hfilled⟩ := handleStaticFiles_eq hmime hopen hl hint hread hle
    have hrun : (Handler.static files filePath fileSize).run req = .ok r := by
      rw [Handler.run, hstatic]
      rfl
    rw [answers_iff hrun hfilled (.inl rfl) (extra_fileHeaders mimeId), fileHead_fits_iff,
      Handler.FitsInt, hl, Int.toNat_natCast]
    constructor
    · intro hfits mimeId' bs' hmime' hread'
      rw [hmime] at hmime'
      rw [hread] at hread'
      cases hmime'
      cases hread'
      exact hfits
    · exact fun hfits => hfits mimeId bs hmime hread

/-- The home page of `/`. -/
theorem answers_framed_iff_home :
    Handler.home.Answers { httpRequestInit with rawPath := terminated [chr '/'] } ↔ Handler.home.FitsInt :=
  answers_framed_iff .home (hasString_terminated (by decide)) (by decide) trivial

/-- The calls for a regular file of which `read` returns as many bytes as were asked for, up to its
end. -/
def fileOf (c : Bytes) (fd : Fd) : Files := ⟨some (.regular, c.length), some fd, fun n => some (c.take n)⟩

/-- The request for `/a.js`. -/
def scriptRequest : HttpRequest :=
  { httpRequestInit with
    rawPath := terminated (ascii "/a.js".toList)
    url := { initUrl with path := terminated (ascii "/a.js".toList) } }

/-- A file of 2147483600 bytes is read whole, but has no response: its length is not an `int`. -/
theorem long_file_not_framed :
    let handler := Handler.static (fileOf (List.replicate 2147483600 (chr 'a')) 3)
      (terminated (ascii "./www/a.js".toList)) 2147483600
    handler.ReachesHeaders ∧
      ¬ handler.Answers scriptRequest := by
  intro handler
  have hmime : getMime (terminated (ascii "./www/a.js".toList)) = .ok (some .js) := by decide
  have hlen : (List.replicate 2147483600 (chr 'a')).length = 2147483600 := List.length_replicate
  have hread : (fileOf (List.replicate 2147483600 (chr 'a')) 3).read 2147483601 =
      some (List.replicate 2147483600 (chr 'a')) :=
    congrArg some (List.take_of_length_le (by rw [hlen]; decide))
  have hle : (List.replicate 2147483600 (chr 'a')).length ≤ 2147483601 := by
    rw [hlen]
    decide
  refine ⟨⟨.js, 3, 2147483601, _, hmime, rfl, by decide, by decide, hread, hle⟩, ?_⟩
  obtain ⟨r, hstatic, hfilled⟩ := handleStaticFiles_eq hmime rfl
    (show (2147483600 : Int) + 1 = (2147483601 : ℕ) by decide) (by decide) hread hle
  rw [answers_iff (by rw [Handler.run, hstatic]; rfl) hfilled (.inl rfl) (extra_fileHeaders .js), hlen,
    fileHead_fits_iff]
  decide

/-! ### Files -/

lemma newNString_int {len : Int} {s : StringT} (h : StringT.newNString len true = .ok s) :
    ∃ n : ℕ, len = n ∧ n + 1 ≤ 2147483647 := by
  obtain ⟨size, hsize, h⟩ := bind_eq_ok.mp h
  obtain rfl := add_eq_ok hsize
  rcases le_or_gt 0 len with hnonneg | hneg
  · obtain ⟨n, rfl⟩ := Int.eq_ofNat_of_zero_le hnonneg
    refine ⟨n, rfl, ?_⟩
    by_contra hgt
    rw [add_overflow (by omega)] at hsize
    cases hsize
  · simp only [malloc, if_true] at h
    rw [CSem.set, if_neg (by omega)] at h
    cases h

/-- Where the size of the file and a zero byte do not fit, nothing is returned. -/
lemma handleStaticFiles_int {files : Files} {filePath : Block} {mimeId : MimeType} {fd : Fd}
    {r r' : HttpResponse} {left : List Fd} {fileSize : Int} (hmime : getMime filePath = .ok (some mimeId))
    (hopen : files.opened = some fd)
    (h : handleStaticFiles files r filePath fileSize memAll = .ok (r', left)) :
    ∃ l : ℕ, fileSize + 1 = l ∧ l + 1 ≤ 2147483647 := by
  rw [handleStaticFiles, hmime, ok_bind] at h
  simp only [hopen] at h
  obtain ⟨size, hsize, h⟩ := bind_eq_ok.mp h
  obtain rfl := add_eq_ok hsize
  obtain ⟨temp, hnew, -⟩ := bind_eq_ok.mp h
  exact newNString_int hnew

/-- `handle_not_found` sets the status 200, and the response that `generate_response` builds is a
head, the first empty line and then `c`. -/
def Served (files : Files) (req : HttpRequest) (c : Bytes) : Prop :=
  ∃ r left s bytes head, handleNotFound files initResp req memAll = .ok (r, left) ∧ r.statusCode = 200 ∧
    generateResponse r memAll = .ok s ∧ s.bytes = .ok bytes ∧ Lines.FirstAt (crlf ++ crlf) bytes head c

section Served

variable {req : HttpRequest} {path c : Bytes} {mimeId : MimeType} {fd : Fd}
  (hpath : HasString req.url.path path) (hlen : path.length ≤ 255)
  (hmime : getMime (terminated (ascii "./www".toList ++ path)) = .ok (some mimeId))

lemma handleNotFound_fileOf (hpath : HasString req.url.path path) (hlen : path.length ≤ 255) :
    handleNotFound (fileOf c fd) initResp req memAll =
      handleStaticFiles (fileOf c fd) initResp (terminated (ascii "./www".toList ++ path))
        (toInt c.length) memAll := by
  rw [handleNotFound_mem hpath hlen rfl rfl]
  rfl

include hpath hlen hmime

/-- What is sent for a file that is not too long. -/
lemma sent_file (hfits : c.length ≤ mimeId.maxBody) :
    ∃ r s bytes head, handleNotFound (fileOf c fd) initResp req memAll = .ok (r, [fd]) ∧
      r.statusCode = 200 ∧ generateResponse r memAll = .ok s ∧ s.bytes = .ok bytes ∧
      Lines.FirstAt (crlf ++ crlf) bytes head (padded c) := by
  have hint : c.length + 2 ≤ 2147483647 := by
    rw [MimeType.maxBody] at hfits
    omega
  have hsize : toInt c.length + 1 = (c.length + 1 : ℕ) := by
    rw [toInt_eq (by omega) (by omega)]
    rfl
  have hread : (fileOf c fd).read (c.length + 1) = some c :=
    congrArg some (List.take_of_length_le (by omega))
  obtain ⟨r, hstatic, hfilled⟩ := handleStaticFiles_eq hmime rfl hsize hint hread (by omega)
  rw [← handleNotFound_fileOf hpath hlen] at hstatic
  rcases hfilled.generate_cases (.inl rfl) (extra_fileHeaders mimeId) with ⟨-, s, hok, hbytes⟩ | ⟨hgt, -⟩
  · exact ⟨r, s, _, _, hstatic, hfilled.status, hok, hbytes,
      firstAt_lengthHead (plain_statusLine (.inl rfl)) (extra_fileHeaders mimeId).1 _ _⟩
  · exact absurd ((fileHead_fits_iff mimeId c.length).mpr hfits) (not_le.mpr hgt)

/-- What is served as it is was read whole, and nothing of it was lost where it was appended. -/
lemma Served.fits (h : Served (fileOf c fd) req c) : padded c = c ∧ c.length ≤ mimeId.maxBody := by
  obtain ⟨r, left, s, bytes, head, hstatic, -, hok, hbytes, hfirst⟩ := h
  rw [handleNotFound_fileOf hpath hlen] at hstatic
  obtain ⟨l, hl, hint⟩ := handleStaticFiles_int hmime rfl hstatic
  have hread : (fileOf c fd).read l = some (c.take l) := rfl
  obtain ⟨r', hstatic', hfilled⟩ :=
    handleStaticFiles_eq hmime rfl hl hint hread (List.length_take_le l c)
  rw [hstatic] at hstatic'
  cases hstatic'
  rcases hfilled.generate_cases (.inl rfl) (extra_fileHeaders mimeId) with
    ⟨hfits, s', hok', hbytes'⟩ | ⟨-, herror⟩
  · rw [hok] at hok'
    cases hok'
    rw [hbytes] at hbytes'
    cases hbytes'
    have hc : c = padded (c.take l) :=
      (hfirst.unique (firstAt_lengthHead (plain_statusLine (.inl rfl)) (extra_fileHeaders mimeId).1 _ _)).2
    have hwhole : c.take l = c := by
      have hlength := congrArg List.length hc
      rw [length_padded, List.length_take] at hlength
      exact List.take_of_length_le (by omega)
    rw [hwhole] at hc hfits
    exact ⟨hc.symm, (fileHead_fits_iff mimeId c.length).mp hfits⟩
  · rw [herror] at hok
    cases hok

/-- A regular file of a known type is served byte for byte if and only if a zero byte in it has only
zero bytes behind it, and it is not too long. -/
theorem served_byte_for_byte_iff : Served (fileOf c fd) req c ↔
    (∀ u v, c = u ++ 0 :: v → ∀ b ∈ v, b = 0) ∧ c.length ≤ mimeId.maxBody := by
  rw [← padded_eq_iff]
  constructor
  · exact fun h => h.fits hpath hlen hmime
  · rintro ⟨hpadded, hfits⟩
    obtain ⟨r, s, bytes, head, hstatic, hstatus, hok, hbytes, hfirst⟩ :=
      sent_file hpath hlen hmime hfits
    rw [hpadded] at hfirst
    exact ⟨r, _, s, bytes, head, hstatic, hstatus, hok, hbytes, hfirst⟩

end Served

theorem served_byte_for_byte_iff_script :
    Served (fileOf (ascii "f();".toList) 3) scriptRequest (ascii "f();".toList) ↔
      (∀ u v, ascii "f();".toList = u ++ 0 :: v → ∀ b ∈ v, b = 0) ∧
        (ascii "f();".toList).length ≤ MimeType.js.maxBody :=
  @served_byte_for_byte_iff scriptRequest (ascii "/a.js".toList) _ .js 3
    (hasString_terminated (by decide)) (by decide) (by decide)

/-- The bytes `A`, zero and `B` are sent as `A`, zero and zero. -/
theorem byte_behind_zero_lost :
    ∃ r s bytes, handleNotFound (fileOf [65, 0, 66] 3) initResp scriptRequest memAll = .ok (r, [3]) ∧
      r.statusCode = 200 ∧ generateResponse r memAll = .ok s ∧ s.bytes = .ok bytes ∧
      ∀ head, ¬ Lines.FirstAt (crlf ++ crlf) bytes head [65, 0, 66] := by
  obtain ⟨r, s, bytes, head, hstatic, hstatus, hok, hbytes, hfirst⟩ :=
    @sent_file scriptRequest (ascii "/a.js".toList) [65, 0, 66] .js 3 (hasString_terminated (by decide))
      (by decide) (by decide) (by decide)
  refine ⟨r, s, bytes, hstatic, hstatus, hok, hbytes, fun head' hfirst' => ?_⟩
  have hlost : padded [65, 0, 66] = [65, 0, 66] := (hfirst.unique hfirst').2
  exact absurd hlost (by decide)

end Ccybe
