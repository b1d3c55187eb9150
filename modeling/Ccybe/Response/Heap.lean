import Ccybe.Ds.StringHeap
import Ccybe.Response.Generate
import Ccybe.Response.Pages
import Mathlib.Algebra.Order.Group.Multiset
import Mathlib.Tactic.Abel

/-!
# The blocks of a response

The functions of `response.c` and the pages, on the heap. They do to the response what they do
without a heap, whether or not there is memory, and where there is, the blocks that they leave are
counted.
-/

namespace Ccybe

open CSem

/-- `http_response_t`, with the address of its body. -/
structure ResponseVar where
  statusCode : Int
  headers : List (Option PairT)
  headerCount : Int
  body : StringVar

/-- The response after `init_resp_ctx`. -/
def initRespVar : ResponseVar := ⟨0, List.replicate 128 (some .zero), 0, ⟨0, none⟩⟩

namespace ResponseVar

def withBody (r : ResponseVar) (body : StringT) : HttpResponse :=
  ⟨r.statusCode, r.headers, r.headerCount, body⟩

/-- The variable stands for the response, and these are the blocks of its body. -/
def Stands (v : ResponseVar) (r : HttpResponse) (m : Owned UInt8) : Prop :=
  ∃ body, v.body.Stands body m ∧ r = v.withBody body

/-- The variable stands for the response; there are its blocks and others, `n` of them where there is
memory. -/
def Takes (full : Prop) (n : ℕ) (v : ResponseVar) (r : HttpResponse) (m : Owned UInt8) : Prop :=
  ∃ mb k, v.Stands r mb ∧ m = mb + k ∧ (full → Multiset.card m = n)

lemma Takes.mono {full full' : Prop} {n : ℕ} {v : ResponseVar} {r : HttpResponse} {m : Owned UInt8}
    (h : v.Takes full n r m) (hfull : full' → full) : v.Takes full' n r m := by
  obtain ⟨mb, k, hr, hm, hn⟩ := h
  exact ⟨mb, k, hr, hm, fun h => hn (hfull h)⟩

/-- The descriptors are the same, and the response was filled in, with two blocks where there is memory,
or it has no header and no block. -/
def Handled (full : Prop) (p' : ResponseVar × List Fd) (p : HttpResponse × List Fd) (m : Owned UInt8) :
    Prop :=
  p'.1.Takes full (if p.1.headerCount = 0 then 0 else 2) p.1 m ∧ p'.2 = p.2

end ResponseVar

lemma initRespVar_stands : initRespVar.Stands initResp 0 := ⟨.null, .null 0, rfl⟩

/-- The variable stands for the string; besides its blocks and `k` there are others, but not where there
is memory. -/
def StringVar.Built (full : Prop) (k : Owned UInt8) (v : StringVar) (s : StringT) (m : Owned UInt8) :
    Prop :=
  ∃ ms left, v.Stands s ms ∧ m = ms + left + k ∧ (full → s.data ≠ none ∧ left = 0)

namespace OnHeap

/-! ### The functions -/

/-- What is done to the other fields, by a function that reads no more of the body than its length. -/
def onFields (f : HttpResponse → Eval HttpResponse) (r : ResponseVar) : OnHeap UInt8 ResponseVar := do
  let r' ← f (r.withBody ⟨r.body.len, none⟩)
  pure ⟨r'.statusCode, r'.headers, r'.headerCount, r.body⟩

def tempString (text : Bytes) (mem : Bool) : OnHeap UInt8 StringVar := placed (Ccybe.tempString text mem)

/-- The body of the loop over the headers in `generate_response`. -/
def addHeader (r : ResponseVar) (mem : ℕ → Bool) (resp : StringVar) (i : ℕ) : OnHeap UInt8 StringVar := do
  let h ← get r.headers i
  let key ← readString h.key
  let value ← readString h.value
  let a ← tempString (headerLine key value) (mem (3 + 2 * i))
  let (_, resp) ← appendString resp a (mem (4 + 2 * i))
  pure resp

/-- `generate_response`. -/
def generateResponse (r : ResponseVar) (mem : ℕ → Bool) : OnHeap UInt8 StringVar := do
  let tempResp ← tempString (firstLine r.statusCode) (mem 0)
  let resp ← newString (some (terminated [])) (mem 1)
  let (_, resp) ← appendString resp tempResp (mem 2)
  let n := r.headerCount.toNat
  let resp ← (List.range n).foldlM (addHeader r mem) resp
  let seperator ← newString (some (terminated crlf)) (mem (3 + 2 * n))
  let (_, resp) ← appendString resp seperator (mem (4 + 2 * n))
  let body ← copyString r.body (mem (5 + 2 * n))
  let (_, resp) ← appendString resp body (mem (6 + 2 * n))
  pure resp

/-- `home_page`. -/
def homePage (r : ResponseVar) (req : HttpRequest) (mem : ℕ → Bool) : OnHeap UInt8 ResponseVar := do
  let temp ← newString (some (terminated (ascii "Path=".toList))) (mem 0)
  let (ok, temp) ← appendStringCstr temp (some req.rawPath) (mem 1)
  if !ok then onFields writeHeader { r with statusCode := 500 }
  else onFields writeHeader { r with body := temp, statusCode := 200 }

/-- `api_home_page`. -/
def apiHomePage (r : ResponseVar) (req : HttpRequest) (mem : ℕ → Bool) : OnHeap UInt8 ResponseVar := do
  let temp ← newString (some (terminated (ascii "Path=".toList))) (mem 0)
  let (ok, temp) ← appendStringCstr temp (some req.rawPath) (mem 1)
  if !ok then onFields writeHeader { r with statusCode := 500 }
  else do
    let body ← copyString temp (mem 2)
    onFields writeHeader { r with body := body, statusCode := 200 }

/-- `not_found_page`. -/
def notFoundPage (r : ResponseVar) (req : HttpRequest) (mem : ℕ → Bool) : OnHeap UInt8 ResponseVar := do
  let r := { r with statusCode := 404 }
  let temp ← newString (some (terminated (ascii "Path=".toList))) (mem 0)
  let (_, temp) ← appendStringCstr temp (some req.rawPath) (mem 1)
  let (_, temp) ← appendStringCstr temp (some (terminated (ascii " not found".toList))) (mem 2)
  let body ← copyString temp (mem 3)
  let r := { r with body := body }
  onFields (fun r => do
    let length ← lengthText r
    let r ← setHeader r (terminated (ascii "Content-Length".toList)) length
    let r ← setText r "Content-Type".toList "text/plain".toList
    setText r "Connection".toList "keep-alive".toList) r

/-- `read` into a string. -/
def readFile (files : Files) (temp : StringVar) : OnHeap UInt8 (Option StringVar) := do
  let s ← string temp
  match ← Ccybe.readFile files s with
  | none => pure none
  | some s => do
    let temp ← writeBack temp s
    pure (some temp)

/-- `handle_static_files`. -/
def handleStaticFiles (files : Files) (r : ResponseVar) (filePath : Block) (fileSize : Int)
    (mem : ℕ → Bool) : OnHeap UInt8 (ResponseVar × List Fd) := do
  match ← getMime filePath with
  | none => pure (r, [])
  | some mimeId =>
    match files.opened with
    | none => pure (r, [])
    | some fd => do
      let r := { r with statusCode := 200 }
      let size ← add fileSize 1
      let temp ← newNString size (mem 0)
      match ← readFile files temp with
      | none => do
        freeString temp
        pure (r, [fd])
      | some temp => do
        let body ← copyString temp (mem 1)
        let r := { r with body := body }
        let r ← onFields (fun r => do
          let length ← lengthText r
          let r ← setHeader r (terminated (ascii "Content-Length".toList)) length
          let r ← setText r "Content-Type".toList mimeId.contentType
          setText r "Connection".toList "keep-alive".toList) r
        pure (r, [fd])

/-- `handle_not_found`. -/
def handleNotFound (files : Files) (r : ResponseVar) (req : HttpRequest) (mem : ℕ → Bool) :
    OnHeap UInt8 (ResponseVar × List Fd) := do
  let tempPath ← newString (some (terminated (ascii "./www".toList))) (mem 0)
  let (ok, tempPath) ← appendStringCstr tempPath (some req.url.path) (mem 1)
  if !ok then do
    freeString tempPath
    pure ({ r with statusCode := 500 }, [])
  else do
    let path ← string tempPath
    match files.stat with
    | none => do
      let r ← notFoundPage r req fun k => mem (2 + k)
      freeString tempPath
      pure (r, [])
    | some (.regular, size) => do
      let (r, left) ← handleStaticFiles files r (path.data.getD []) (toInt size) fun k => mem (2 + k)
      freeString tempPath
      pure (r, left)
    | some _ => do
      freeString tempPath
      pure (r, [])

end OnHeap

/-! ### Headers -/

/-- The function sets `n` headers, and it reads no more of the body than its length. -/
structure SetsHeaders (n : ℕ) (f : HttpResponse → Eval HttpResponse) : Prop where
  same : ∀ r (body : StringT), body.len = r.body.len →
    f { r with body := body } = f r >>= fun r' => pure { r' with body := body }
  count : ∀ r r', f r = .ok r' → r'.headerCount = r.headerCount + n

lemma setHeader_sets (header value : Block) : SetsHeaders 1 fun r => setHeader r header value := by
  refine ⟨fun r body _ => ?_, fun r r' h => ?_⟩
  · simp only [setHeader, bind_assoc, pure_bind]
  · obtain ⟨klen, -, h⟩ := bind_eq_ok.mp h
    obtain ⟨vlen, -, h⟩ := bind_eq_ok.mp h
    obtain ⟨pair, -, h⟩ := bind_eq_ok.mp h
    obtain ⟨key, -, h⟩ := bind_eq_ok.mp h
    obtain ⟨val, -, h⟩ := bind_eq_ok.mp h
    obtain ⟨headers, -, h⟩ := bind_eq_ok.mp h
    obtain ⟨headerCount, hcount, h⟩ := bind_eq_ok.mp h
    cases h
    exact add_eq_ok hcount

namespace SetsHeaders

variable {n k : ℕ} {f g : HttpResponse → Eval HttpResponse}

lemma body_eq (hf : SetsHeaders n f) {r r' : HttpResponse} (h : f r = .ok r') : r'.body = r.body := by
  have hsame := hf.same r r.body rfl
  rw [show ({ r with body := r.body } : HttpResponse) = r from rfl, h, ok_bind, pure_eq_ok,
    Except.ok.injEq] at hsame
  rw [hsame]

lemma comp (hf : SetsHeaders n f) (hg : SetsHeaders k g) : SetsHeaders (n + k) fun r => f r >>= g := by
  refine ⟨fun r body hlen => ?_, fun r r' h => ?_⟩
  · rw [hf.same r body hlen]
    cases hr : f r with
    | error u => rfl
    | ok r' =>
      rw [ok_bind, ok_bind]
      exact hg.same r' body (by rw [hlen, hf.body_eq hr])
  · obtain ⟨r₁, hr, h⟩ := bind_eq_ok.mp h
    have hcount := hf.count r r₁ hr
    have hcount' := hg.count r₁ r' h
    omega

/-- A response that had no header has one. -/
lemma count_ne_zero (hf : SetsHeaders (n + 1) f) {r r' : HttpResponse} (h : f r = .ok r')
    (hr : r.headerCount = 0) : r'.headerCount ≠ 0 := by
  have hcount := hf.count r r' h
  omega

lemma length {f : Block → HttpResponse → Eval HttpResponse} (hf : ∀ length, SetsHeaders n (f length)) :
    SetsHeaders n fun r => lengthText r >>= fun length => f length r := by
  refine ⟨fun r body hlen => ?_, fun r r' h => ?_⟩
  · have hsame : lengthText { r with body := body } = lengthText r := by
      rw [lengthText, lengthText, hlen]
    rw [hsame]
    cases lengthText r with
    | error u => rfl
    | ok length => exact (hf length).same r body hlen
  · obtain ⟨length, -, h⟩ := bind_eq_ok.mp h
    exact (hf length).count r r' h

end SetsHeaders

lemma writeHeader_sets : SetsHeaders 4 writeHeader :=
  SetsHeaders.length fun length => (setHeader_sets _ length).comp
    ((setHeader_sets _ _).comp ((setHeader_sets _ _).comp (setHeader_sets _ _)))

/-- The headers of `not_found_page` and of a file. -/
lemma threeHeaders_sets (contentType connection : List Char) : SetsHeaders 3 (fun r => do
    let length ← lengthText r
    let r ← setHeader r (terminated (ascii "Content-Length".toList)) length
    let r ← setText r "Content-Type".toList contentType
    setText r "Connection".toList connection) :=
  SetsHeaders.length fun length => (setHeader_sets _ length).comp
    ((setHeader_sets _ _).comp (setHeader_sets _ _))

/-! ### The response as bytes -/

section Generate

variable {full : Prop} {k m ma : Owned UInt8} {v a : StringVar} {s sa : StringT}

lemma StringVar.Built.card (h : v.Built full k s m) (hfull : full) :
    Multiset.card m = Multiset.card k + 1 := by
  obtain ⟨ms, left, hv, rfl, hmem⟩ := h
  obtain ⟨hdata, rfl⟩ := hmem hfull
  rw [Multiset.card_add, Multiset.card_add, hv.card hdata, Multiset.card_zero, Nat.add_zero, Nat.add_comm]

/-- A string that cannot be appended is left. -/
lemma StringVar.Built.append (hv : v.Built full k s m) (ha : a.Stands sa ma) {mem : Bool}
    (hmem : full → sa.data ≠ none ∧ mem = true) :
    Refines (ma + m) (OnHeap.appendString v a mem) (s.appendString sa mem) fun r c m' =>
      r.2.Built full k c.2 m' := by
  obtain ⟨ms, left, hs, rfl, hfull⟩ := hv
  rw [show ma + (ms + left + k) = ms + ma + (left + k) by abel]
  refine ((hs.appendString ha mem).frame (left + k)).mono ?_
  rintro ⟨ok, v'⟩ ⟨ok', s'⟩ m' happ ⟨m₀, rfl, rfl, m₁, hv', rfl⟩
  refine ⟨m₁, (if ok then 0 else ma) + left, hv', by abel, fun h => ?_⟩
  obtain ⟨hdata, rfl⟩ := hfull h
  obtain ⟨hsa, rfl⟩ := hmem h
  obtain rfl := StringT.appendString_true happ hdata hsa
  rcases StringT.appendString_result happ with ⟨hfalse, -⟩ | ⟨-, -, -, hdata'⟩
  · cases hfalse
  · exact ⟨hdata', rfl⟩

lemma tempString_data {text : Bytes} {mem : Bool} (h : tempString text mem = .ok s) : s.data ≠ none := by
  obtain ⟨temp, -, h⟩ := bind_eq_ok.mp h
  cases hdata : temp.data with
  | none =>
    rw [hdata] at h
    cases h
  | some data =>
    rw [hdata] at h
    obtain ⟨data', -, h⟩ := bind_eq_ok.mp h
    obtain ⟨data'', -, h⟩ := bind_eq_ok.mp h
    cases h
    exact Option.some_ne_none _

/-- A pass of the loop over the headers. -/
lemma StringVar.Built.addHeader {r : ResponseVar} {body : StringT} {mem : ℕ → Bool}
    (hmem : full → ∀ i, mem i = true) (hv : v.Built full k s m) (i : ℕ) :
    Refines m (OnHeap.addHeader r mem v i) (Ccybe.addHeader (r.withBody body) mem s i)
      fun v' s' m' => v'.Built full k s' m' := by
  refine (refines_lift _).bind fun h h' m' _ heq => ?_
  obtain ⟨rfl, rfl⟩ := heq
  refine (refines_lift _).bind fun key key' m' _ heq => ?_
  obtain ⟨rfl, rfl⟩ := heq
  refine (refines_lift _).bind fun value value' m' _ heq => ?_
  obtain ⟨rfl, rfl⟩ := heq
  refine (StringVar.Stands.placed _ _).bind fun a sa m' htemp hplaced => ?_
  obtain ⟨ma, ha, rfl⟩ := hplaced
  exact (hv.append ha fun h => ⟨tempString_data htemp, hmem h _⟩).bind fun b c m' _ hb => refines_pure hb

/-- `generate_response` makes the same string, and where there is memory it leaves no other block. -/
lemma ResponseVar.Stands.generateResponse {v : ResponseVar} {r : HttpResponse} {mb : Owned UInt8}
    (hr : v.Stands r mb) (k : Owned UInt8) (mem : ℕ → Bool) :
    Refines (mb + k) (OnHeap.generateResponse v mem) (generateResponse r mem) fun resp s m' =>
      resp.Built (∀ i, mem i = true) (mb + k) s m' := by
  obtain ⟨body, hbody, rfl⟩ := hr
  refine (StringVar.Stands.placed _ _).bind fun a sa m' htemp hplaced => ?_
  obtain ⟨ma, ha, rfl⟩ := hplaced
  refine (StringVar.Stands.placed _ _).bind fun resp s m' hnew hplaced => ?_
  obtain ⟨ms, hs, rfl⟩ := hplaced
  have hbuilt : resp.Built (∀ i, mem i = true) (mb + k) s (ms + 0 + (mb + k)) :=
    ⟨ms, 0, hs, rfl, fun h => ⟨StringT.newString_data (h 1 ▸ hnew), rfl⟩⟩
  rw [show ms + (ma + (mb + k)) = ma + (ms + 0 + (mb + k)) by abel]
  refine (hbuilt.append ha fun h => ⟨tempString_data htemp, h 2⟩).bind fun resp s m' _ hbuilt => ?_
  refine (Refines.foldlM (fun v s m i hv => hv.addHeader (fun h => h) i) _ hbuilt).bind
    fun resp s m' _ hbuilt => ?_
  refine (StringVar.Stands.placed _ _).bind fun a sa m' hnew hplaced => ?_
  obtain ⟨ma, ha, rfl⟩ := hplaced
  refine (hbuilt.append ha fun h => ⟨StringT.newString_data (h _ ▸ hnew), h _⟩).bind
    fun resp s m' _ hbuilt => ?_
  obtain ⟨ms, left, hs, rfl, hfull⟩ := hbuilt
  rw [show ms + left + (mb + k) = mb + (ms + left + k) by abel]
  refine ((hbody.copyString _).frame (ms + left + k)).bind fun copy s' m' hcopy hframe => ?_
  obtain ⟨-, rfl, mc, hc, rfl⟩ := hframe
  rw [show mc + mb + (ms + left + k) = mc + (ms + left + (mb + k)) by abel]
  have hbuilt : resp.2.Built (∀ i, mem i = true) (mb + k) s.2 (ms + left + (mb + k)) :=
    ⟨ms, left, hs, rfl, hfull⟩
  exact (hbuilt.append hc fun h => ⟨StringT.copyString_data (h _ ▸ hcopy), h _⟩).bind
    fun resp s m' _ hbuilt => refines_pure hbuilt

end Generate

/-! ### Handlers -/

section Handlers

variable {full : Prop} {n c : ℕ} {m mb k : Owned UInt8} {v : ResponseVar} {r : HttpResponse}

lemma ResponseVar.Stands.onFields (hr : v.Stands r mb) {f : HttpResponse → Eval HttpResponse}
    (hf : SetsHeaders n f) (hfull : full → Multiset.card (mb + k) = c) :
    Refines (mb + k) (OnHeap.onFields f v) (f r) fun v' r' m' => v'.Takes full c r' m' := by
  obtain ⟨body, hbody, rfl⟩ := hr
  have hsame : f (v.withBody body) = f (v.withBody ⟨v.body.len, none⟩) >>= fun r' =>
      pure { r' with body := body } :=
    hf.same (v.withBody ⟨v.body.len, none⟩) body hbody.len_eq.symm
  rw [hsame]
  refine (refines_lift _).bind fun r' r'' m' _ heq => ?_
  obtain ⟨rfl, rfl⟩ := heq
  exact refines_pure ⟨mb, k, ⟨body, hbody, rfl⟩, rfl, hfull⟩

/-- What a handler begins with: a string that something is appended to. -/
lemma refines_appended {β γ : Type} {mem mem' : Bool} (text more : Block)
    {f : Bool × StringVar → OnHeap UInt8 β} {g : Bool × StringT → Eval γ}
    {S : β → γ → Owned UInt8 → Prop}
    (hf : ∀ ok v s m, v.Stands s m → (ok = true → s.data ≠ none) → (mem = true → mem' = true → ok = true) →
      Refines m (f (ok, v)) (g (ok, s)) S) :
    Refines 0
      (OnHeap.newString (some text) mem >>= fun v => OnHeap.appendStringCstr v (some more) mem' >>= f)
      (StringT.newString (some text) mem >>= fun s => s.appendStringCstr (some more) mem' >>= g) S := by
  refine (StringVar.Stands.placed _ _).bind fun v s m hnew hplaced => ?_
  obtain ⟨m, hv, rfl⟩ := hplaced
  rw [Multiset.add_zero]
  refine (hv.appendStringCstr _ _).bind ?_
  rintro ⟨ok, v'⟩ ⟨ok', s'⟩ m' happ ⟨rfl, hv'⟩
  refine hf ok v' s' m' hv' ?_ fun hmem hmem' => ?_
  · rintro rfl
    rcases StringT.appendStringCstr_result happ with ⟨hfalse, -⟩ | ⟨-, -, hdata⟩
    · cases hfalse
    · exact hdata
  · rw [hmem'] at happ
    exact StringT.appendStringCstr_true happ (StringT.newString_data (hmem ▸ hnew))

variable (hr : v.Stands r 0)

include hr

/-- A response without a body is given one. -/
lemma ResponseVar.Stands.withBody {w : StringVar} {s : StringT} (hw : w.Stands s m) (code : Int) :
    ResponseVar.Stands { v with body := w, statusCode := code } { r with body := s, statusCode := code }
      m := by
  obtain ⟨body, -, rfl⟩ := hr
  exact ⟨s, hw, rfl⟩

lemma ResponseVar.Stands.withStatus (code : Int) :
    ResponseVar.Stands { v with statusCode := code } { r with statusCode := code } 0 := by
  obtain ⟨body, hbody, rfl⟩ := hr
  exact ⟨body, hbody, rfl⟩

/-- Where the path could not be appended, the string is left. -/
lemma ResponseVar.Stands.failed (k : Owned UInt8) (hfull : ¬ full) :
    Refines k (OnHeap.onFields writeHeader { v with statusCode := 500 })
      (writeHeader { r with statusCode := 500 }) fun v' r' m' => v'.Takes full c r' m' := by
  have hfields := (hr.withStatus 500).onFields (k := k) (c := c) writeHeader_sets
    fun h => absurd h hfull
  rwa [Multiset.zero_add] at hfields

variable (req : HttpRequest) (mem : ℕ → Bool)

/-- `home_page` leaves the body. -/
lemma ResponseVar.Stands.homePage :
    Refines 0 (OnHeap.homePage v req mem) (homePage r req mem) fun v' r' m' =>
      v'.Takes (∀ i, mem i = true) 1 r' m' := by
  refine refines_appended _ _ fun ok temp s m hs hdata hmem => ?_
  cases ok with
  | false => exact hr.failed m fun h => Bool.false_ne_true (hmem (h 0) (h 1))
  | true =>
    have hcard : (∀ i, mem i = true) → Multiset.card (m + 0) = 1 := by
      intro _
      rw [Multiset.add_zero]
      exact hs.card (hdata rfl)
    have hfields := (hr.withBody hs 200).onFields writeHeader_sets hcard
    rwa [Multiset.add_zero] at hfields

/-- `api_home_page` leaves the body and the string that it is a copy of. -/
lemma ResponseVar.Stands.apiHomePage :
    Refines 0 (OnHeap.apiHomePage v req mem) (apiHomePage r req mem) fun v' r' m' =>
      v'.Takes (∀ i, mem i = true) 2 r' m' := by
  refine refines_appended _ _ fun ok temp s m hs hdata hmem => ?_
  cases ok with
  | false => exact hr.failed m fun h => Bool.false_ne_true (hmem (h 0) (h 1))
  | true =>
    refine (hs.copyString _).bind fun body s' m' hcopy hcopied => ?_
    obtain ⟨mb, hbody, rfl⟩ := hcopied
    refine (hr.withBody hbody 200).onFields writeHeader_sets fun h => ?_
    rw [Multiset.card_add, hbody.card (StringT.copyString_data (h 2 ▸ hcopy)), hs.card (hdata rfl)]

/-- `not_found_page` as well. -/
lemma ResponseVar.Stands.notFoundPage (hcount : r.headerCount = 0) :
    Refines 0 (OnHeap.notFoundPage v req mem) (notFoundPage r req mem) fun v' r' m' =>
      v'.Takes (∀ i, mem i = true) (if r'.headerCount = 0 then 0 else 2) r' m' := by
  refine refines_appended _ _ fun ok temp s m hs hdata hmem => ?_
  refine (hs.appendStringCstr _ _).bind ?_
  rintro ⟨ok', temp'⟩ ⟨ok'', s'⟩ m' happ ⟨rfl, hs'⟩
  refine (hs'.copyString _).bind fun body s'' m'' hcopy hcopied => ?_
  obtain ⟨mb, hbody, rfl⟩ := hcopied
  have hdata' : (∀ i, mem i = true) → s'.data ≠ none := by
    intro h
    rcases StringT.appendStringCstr_result happ with ⟨hfalse, -⟩ | ⟨-, -, hdata'⟩
    · have htrue := StringT.appendStringCstr_true (h 2 ▸ happ) (hdata (hmem (h 0) (h 1)))
      rw [htrue] at hfalse
      cases hfalse
    · exact hdata'
  have hcard : (∀ i, mem i = true) → Multiset.card (mb + m') = 2 := by
    intro h
    rw [Multiset.card_add, hbody.card (StringT.copyString_data (h 3 ▸ hcopy)), hs'.card (hdata' h)]
  have hsets := threeHeaders_sets "text/plain".toList "keep-alive".toList
  refine ((hr.withBody hbody 404).onFields hsets hcard).mono fun v' r' m'' hset htakes => ?_
  rwa [if_neg (hsets.count_ne_zero hset hcount)]

omit hr in
lemma readFile_data {files : Files} {s t : StringT} (h : readFile files s = .ok (some t)) :
    t.data.isSome = s.data.isSome := by
  rw [readFile] at h
  cases hread : files.read s.len.toNat with
  | none =>
    rw [hread] at h
    cases h
  | some bs =>
    rw [hread] at h
    obtain ⟨data, -, h⟩ := bind_eq_ok.mp h
    rw [pure_eq_ok, Except.ok.injEq, Option.some.injEq] at h
    rw [← h]
    exact Option.isSome_map

omit hr in
/-- `read` into a string leaves the string or makes another of it. -/
lemma StringVar.Stands.readFile (files : Files) {temp : StringVar} {s : StringT} (hs : temp.Stands s m) :
    Refines m (OnHeap.readFile files temp) (readFile files s) fun temp' s' m' =>
      (temp' = none ∧ s' = none ∧ m' = m) ∨
      ∃ w t, temp' = some w ∧ s' = some t ∧ w.Stands t m' ∧ (s.data ≠ none → t.data ≠ none) := by
  refine hs.string.bind_left fun t m' hstring => ?_
  obtain ⟨ht, -, rfl⟩ := hstring
  rw [ht]
  refine (refines_lift _).bind_right fun s' s'' m' hread heq => ?_
  obtain ⟨rfl, rfl⟩ := heq
  cases s' with
  | none => exact refines_pure (.inl ⟨rfl, rfl, rfl⟩)
  | some t =>
    have hdata := readFile_data hread
    have hne : s.data ≠ none → t.data ≠ none := by
      rw [← Option.isSome_iff_ne_none, ← Option.isSome_iff_ne_none, hdata]
      exact id
    refine (hs.writeBack hdata).bind_left fun w m' hw => ?_
    exact refines_pure (.inr ⟨w, t, rfl, rfl, hw, hne⟩)

omit hr in
/-- A string that is freed before the rest. -/
lemma StringVar.Stands.freed {β γ : Type} {w : StringVar} {s : StringT} (hw : w.Stands s m)
    {x : OnHeap UInt8 β} {y : Eval γ} {R : β → γ → Owned UInt8 → Prop} (hx : Refines 0 x y R) :
    Refines m (OnHeap.freeString w >>= fun _ => x) y R := by
  have hfree := hw.freeString 0
  rw [Multiset.add_zero] at hfree
  refine hfree.bind_left fun _ m' hm' => ?_
  rw [hm']
  exact hx

omit hr in
/-- A string that is there during a call, and freed afterwards. -/
lemma StringVar.Stands.during {β γ δ ε : Type} {w : StringVar} {s : StringT} (hw : w.Stands s m)
    {x : OnHeap UInt8 β} {y : Eval γ} {R : β → γ → Owned UInt8 → Prop} (hx : Refines 0 x y R)
    {f : β → OnHeap UInt8 δ} {g : γ → Eval ε} {S : δ → ε → Owned UInt8 → Prop}
    (hf : ∀ b c m', y = .ok c → R b c m' → Refines m' (f b) (g c) S) :
    Refines m (x >>= fun b => OnHeap.freeString w >>= fun _ => f b) (y >>= g) S := by
  have hframe := hx.frame m
  rw [Multiset.zero_add] at hframe
  refine hframe.bind fun b c m' hc hR => ?_
  obtain ⟨m₀, rfl, hR⟩ := hR
  rw [Multiset.add_comm]
  refine (hw.freeString m₀).bind_left fun _ m' hfree => ?_
  rw [hfree]
  exact hf b c m₀ hc hR

omit hr in
lemma ResponseVar.Stands.handled_zero (hr : v.Stands r 0) (hcount : r.headerCount = 0) (left : List Fd) :
    Refines 0 (pure (v, left)) (pure (r, left)) (ResponseVar.Handled full) := by
  refine refines_pure ⟨⟨0, 0, hr, rfl, fun _ => ?_⟩, rfl⟩
  rw [if_pos hcount]
  rfl

omit hr in
/-- A file that was read has a body. -/
lemma ResponseVar.Stands.fileHeaders (hr : v.Stands r mb) (hcount : r.headerCount = 0)
    (contentType : List Char) (left : List Fd) (hfull : full → Multiset.card (mb + k) = 2) :
    Refines (mb + k)
      (do let v ← OnHeap.onFields (fun r => do
            let length ← lengthText r
            let r ← setHeader r (terminated (ascii "Content-Length".toList)) length
            let r ← setText r "Content-Type".toList contentType
            setText r "Connection".toList "keep-alive".toList) v
          pure (v, left))
      (do let length ← lengthText r
          let r ← setHeader r (terminated (ascii "Content-Length".toList)) length
          let r ← setText r "Content-Type".toList contentType
          let r ← setText r "Connection".toList "keep-alive".toList
          pure (r, left))
      (ResponseVar.Handled full) := by
  have hsets := threeHeaders_sets contentType "keep-alive".toList
  have hpair : Refines (mb + k) (OnHeap.onFields _ v >>= fun v => pure (v, left))
      (_ >>= fun r => pure (r, left)) (ResponseVar.Handled full) :=
    (hr.onFields hsets hfull).bind fun v' r' m' hset htakes => ?_
  · simp only [bind_assoc] at hpair
    exact hpair
  · refine refines_pure ⟨?_, rfl⟩
    rw [if_neg (hsets.count_ne_zero hset hcount)]
    exact htakes

/-- A file that is read leaves the body and the string that it is a copy of. -/
lemma ResponseVar.Stands.handleStaticFiles (hcount : r.headerCount = 0) (files : Files) (filePath : Block)
    (fileSize : Int) :
    Refines 0 (OnHeap.handleStaticFiles files v filePath fileSize mem)
      (handleStaticFiles files r filePath fileSize mem) (ResponseVar.Handled (∀ i, mem i = true)) := by
  unfold OnHeap.handleStaticFiles Ccybe.handleStaticFiles
  refine (refines_lift _).bind fun mime mime' m' _ heq => ?_
  obtain ⟨rfl, rfl⟩ := heq
  cases mime with
  | none => exact hr.handled_zero hcount []
  | some mimeId =>
    cases files.opened with
    | none => exact hr.handled_zero hcount []
    | some fd =>
      have hstatus := hr.withStatus 200
      refine (refines_lift _).bind fun size size' m' _ heq => ?_
      obtain ⟨rfl, rfl⟩ := heq
      refine (StringVar.Stands.placed _ _).bind fun temp s m' hnew hplaced => ?_
      obtain ⟨ms, hs, rfl⟩ := hplaced
      rw [Multiset.add_zero]
      refine (hs.readFile files).bind fun temp' s' m' _ hread => ?_
      rcases hread with ⟨rfl, rfl, rfl⟩ | ⟨w, t, rfl, rfl, hw, hdata⟩
      · exact hs.freed (hstatus.handled_zero hcount [fd])
      · refine (hw.copyString _).bind fun body s' m' hcopy hcopied => ?_
        obtain ⟨mb, hbody, rfl⟩ := hcopied
        refine (hr.withBody hbody 200).fileHeaders hcount mimeId.contentType [fd] fun h => ?_
        rw [Multiset.card_add, hbody.card (StringT.copyString_data (h 1 ▸ hcopy)),
          hw.card (hdata (StringT.newNString_data (h 0 ▸ hnew)))]

/-- `handle_not_found` leaves what it calls leaves. -/
lemma ResponseVar.Stands.handleNotFound (hcount : r.headerCount = 0) (files : Files) :
    Refines 0 (OnHeap.handleNotFound files v req mem) (handleNotFound files r req mem)
      (ResponseVar.Handled (∀ i, mem i = true)) := by
  refine refines_appended _ _ fun ok temp s m hs hdata hmem => ?_
  cases ok with
  | false =>
    exact hs.freed ((hr.withStatus 500).handled_zero hcount [])
  | true =>
    refine hs.string.bind_left fun path m' hstring => ?_
    obtain ⟨rfl, -, rfl⟩ := hstring
    rcases files.stat with - | ⟨kind, size⟩
    · exact hs.during (hr.notFoundPage req _ hcount) fun v' r' m' _ htakes =>
        refines_pure ⟨htakes.mono fun h i => h _, rfl⟩
    · cases kind with
      | regular =>
        have hstatic := hr.handleStaticFiles (fun k => mem (2 + k)) hcount files (path.data.getD [])
          (toInt size)
        have hfile := hs.during hstatic (f := pure) (g := pure)
          (S := ResponseVar.Handled (∀ i, mem i = true)) fun p' p m' _ hhandled =>
            refines_pure ⟨hhandled.1.mono fun h i => h (2 + i), hhandled.2⟩
        rwa [bind_pure] at hfile
      | directory | other =>
        exact hs.freed (hr.handled_zero hcount [])

end Handlers

end Ccybe
