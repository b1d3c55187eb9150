import Ccybe.Parser
import Ccybe.Url.Separate

/-!
# Requests and messages

The callbacks write what they are given into one request. They stay inside its arrays if and only
if each text is shorter than its array and there are at most 128 header values. The request is that
of one message if and only if no message before it, and none behind it, leaves something in it.
-/

namespace Ccybe

open CSem

/-! ### The texts of the callbacks -/

namespace Callback

/-- The text is shorter than the array that it is copied to. -/
def TextFits : Callback → Prop
  | .method text => text.length < 8
  | .url text => text.length < 256
  | .headerField text => text.length < 128
  | .headerValue text => text.length < 128
  | .headersComplete | .body _ | .messageComplete => True

instance (c : Callback) : Decidable c.TextFits :=
  match c with
  | .method text => inferInstanceAs (Decidable (text.length < 8))
  | .url text => inferInstanceAs (Decidable (text.length < 256))
  | .headerField text => inferInstanceAs (Decidable (text.length < 128))
  | .headerValue text => inferInstanceAs (Decidable (text.length < 128))
  | .headersComplete | .body _ | .messageComplete => inferInstanceAs (Decidable True)

def isHeaderValue : Callback → Bool
  | .headerValue _ => true
  | _ => false

end Callback

/-- All texts and all headers have room. -/
def Fits (trace : List Callback) : Prop :=
  (∀ c ∈ trace, c.TextFits) ∧ trace.countP Callback.isHeaderValue ≤ 128

instance (trace : List Callback) : Decidable (Fits trace) :=
  inferInstanceAs (Decidable (_ ∧ _))

lemma putText_eq {cells : Block} {text : Bytes} (h : text.length < cells.length) :
    putText cells text = .ok (written cells text) :=
  blit_terminate h

lemma putText_bounds {cells : Block} {text : Bytes} (h : cells.length ≤ text.length) :
    putText cells text = .error .bounds :=
  blit_terminate_bounds h

/-! ### The stores of a trace -/

/-- The arrays of a request keep their sizes; `n` headers are stored. -/
structure HttpRequest.Sized (r : HttpRequest) (n : ℕ) : Prop where
  method : r.method.length = 8
  rawPath : r.rawPath.length = 256
  headers : r.headers.length = 128
  headerCount : r.headerCount = n
  curHeader : r.curHeader.Sized

lemma httpRequestInit_sized : httpRequestInit.Sized 0 :=
  ⟨List.length_replicate, List.length_replicate, List.length_replicate, rfl,
    List.length_replicate, List.length_replicate⟩

namespace HttpRequest

variable {r : HttpRequest} {n : ℕ}

/-- After `on_header_field`. -/
def withKey (r : HttpRequest) (text : Bytes) : HttpRequest :=
  { r with curHeader := { r.curHeader with key := written r.curHeader.key text } }

/-- After `on_header_value`. -/
def withHeader (r : HttpRequest) (n : ℕ) (text : Bytes) : HttpRequest :=
  let curHeader := { r.curHeader with value := written r.curHeader.value text }
  { r with
    curHeader := curHeader
    headers := r.headers.set n (some curHeader)
    headerCount := (n + 1 : ℕ) }

lemma on_headerField {text : Bytes} (h : text.length < r.curHeader.key.length) :
    r.on (.headerField text) = .ok (r.withKey text) := by
  rw [on, onHeaderField, putText_eq h]
  rfl

lemma on_headerValue {text : Bytes} (hcount : r.headerCount = n) (hn : n < r.headers.length)
    (hint : n < 2147483647) (h : text.length < r.curHeader.value.length) :
    r.on (.headerValue text) = .ok (r.withHeader n text) := by
  have hadd : add (n : Int) 1 = .ok ((n + 1 : ℕ) : Int) := add_ok (by omega) (by omega)
  rw [on, onHeaderValue, putText_eq h, ok_bind, hcount]
  simp only [set_natCast _ hn, ok_bind, hadd]
  rfl

/-- A callback stores inside the arrays if and only if there is room. -/
lemma on_cases (hr : r.Sized n) (hn : n ≤ 128) (c : Callback) :
    (c.TextFits ∧ n + [c].countP Callback.isHeaderValue ≤ 128 ∧
      ∃ r', r.on c = .ok r' ∧ r'.Sized (n + [c].countP Callback.isHeaderValue)) ∨
    (¬ (c.TextFits ∧ n + [c].countP Callback.isHeaderValue ≤ 128) ∧ r.on c = .error .bounds) := by
  obtain ⟨hmethod, hpath, hheaders, hcount, hkey, hvalue⟩ := hr
  cases c with
  | method text =>
    rcases lt_or_ge text.length 8 with hlt | hge
    · refine .inl ⟨hlt, hn, { r with method := written r.method text }, ?_,
        ⟨?_, hpath, hheaders, hcount, hkey, hvalue⟩⟩
      · rw [on, onMethod, putText_eq (by omega)]
        rfl
      · rw [length_written (by omega), hmethod]
    · refine .inr ⟨fun h => absurd h.1 (not_lt.mpr hge), ?_⟩
      rw [on, onMethod, putText_bounds (by omega)]
      rfl
  | url text =>
    rcases lt_or_ge text.length 256 with hlt | hge
    · refine .inl ⟨hlt, hn, { r with rawPath := written r.rawPath text, pathLen := text.length }, ?_,
        ⟨hmethod, ?_, hheaders, hcount, hkey, hvalue⟩⟩
      · rw [on, onUrl, putText_eq (by omega)]
        rfl
      · rw [length_written (by omega), hpath]
    · refine .inr ⟨fun h => absurd h.1 (not_lt.mpr hge), ?_⟩
      rw [on, onUrl, putText_bounds (by omega)]
      rfl
  | headerField text =>
    rcases lt_or_ge text.length 128 with hlt | hge
    · refine .inl ⟨hlt, hn, r.withKey text, on_headerField (by omega),
        ⟨hmethod, hpath, hheaders, hcount, ?_, hvalue⟩⟩
      rw [withKey, length_written (by omega), hkey]
    · refine .inr ⟨fun h => absurd h.1 (not_lt.mpr hge), ?_⟩
      rw [on, onHeaderField, putText_bounds (by omega)]
      rfl
  | headerValue text =>
    rcases lt_or_ge text.length 128 with hlt | hge
    · rcases lt_or_ge n 128 with hroom | hfull
      · refine .inl ⟨hlt, hroom, r.withHeader n text, on_headerValue hcount (by omega) (by omega)
          (by omega), ⟨hmethod, hpath, ?_, rfl, hkey, ?_⟩⟩
        · rw [withHeader, List.length_set, hheaders]
        · rw [withHeader, length_written (by omega), hvalue]
      · refine .inr ⟨fun h => absurd h.2 (not_le.mpr (Nat.lt_succ_of_le hfull)), ?_⟩
        have hset : ∀ pair, set r.headers n pair = .error .bounds := fun pair =>
          set_of_le pair (by omega)
        rw [on, onHeaderValue, putText_eq (by omega), ok_bind, hcount]
        simp only [hset, error_bind]
    · refine .inr ⟨fun h => absurd h.1 (not_lt.mpr hge), ?_⟩
      rw [on, onHeaderValue, putText_bounds (by omega)]
      rfl
  | headersComplete | body text | messageComplete =>
    exact .inl ⟨trivial, hn, r, rfl, hmethod, hpath, hheaders, hcount, hkey, hvalue⟩

/-- A trace stays inside the arrays if and only if it fits. -/
lemma fold_cases (trace : List Callback) (hr : r.Sized n) (hn : n ≤ 128) :
    ((∀ c ∈ trace, c.TextFits) ∧ n + trace.countP Callback.isHeaderValue ≤ 128 ∧
      ∃ r', trace.foldlM on r = .ok r') ∨
    (¬ ((∀ c ∈ trace, c.TextFits) ∧ n + trace.countP Callback.isHeaderValue ≤ 128) ∧
      trace.foldlM on r = .error .bounds) := by
  induction trace generalizing r n with
  | nil => exact .inl ⟨by simp, by simpa using hn, r, rfl⟩
  | cons c trace ih =>
    have hcount : (c :: trace).countP Callback.isHeaderValue =
        [c].countP Callback.isHeaderValue + trace.countP Callback.isHeaderValue := by
      rw [← List.countP_append, List.singleton_append]
    rw [List.forall_mem_cons, hcount, ← Nat.add_assoc, List.foldlM_cons]
    rcases on_cases hr hn c with ⟨htext, hle, r', hon, hr'⟩ | ⟨hbad, hon⟩
    · rw [hon, ok_bind]
      rcases ih hr' hle with ⟨htexts, hroom, hok⟩ | ⟨hbad, herror⟩
      · exact .inl ⟨⟨htext, htexts⟩, hroom, hok⟩
      · exact .inr ⟨fun h => hbad ⟨h.1.2, h.2⟩, herror⟩
    · rw [hon, error_bind]
      exact .inr ⟨fun h => hbad ⟨h.1.1, by omega⟩, rfl⟩

/-- The arrays have their sizes after every trace. -/
lemma fold_sized (trace : List Callback) (hr : r.Sized n) (hn : n ≤ 128) {r' : HttpRequest}
    (h : trace.foldlM on r = .ok r') : ∃ m, r'.Sized m := by
  induction trace generalizing r n with
  | nil =>
    cases h
    exact ⟨n, hr⟩
  | cons c trace ih =>
    rw [List.foldlM_cons] at h
    rcases on_cases hr hn c with ⟨-, hle, r₁, hon, hr₁⟩ | ⟨-, hon⟩
    · rw [hon, ok_bind] at h
      exact ih hr₁ hle h
    · rw [hon, error_bind] at h
      cases h

end HttpRequest

lemma fold_init_cases (trace : List Callback) :
    (Fits trace ∧ ∃ r, trace.foldlM HttpRequest.on httpRequestInit = .ok r) ∨
      (¬ Fits trace ∧ trace.foldlM HttpRequest.on httpRequestInit = .error .bounds) := by
  rcases HttpRequest.fold_cases trace httpRequestInit_sized (Nat.zero_le _) with
    ⟨htexts, hroom, hok⟩ | ⟨hbad, herror⟩
  · exact .inl ⟨⟨htexts, by simpa using hroom⟩, hok⟩
  · exact .inr ⟨fun h => hbad ⟨h.1, by simpa using h.2⟩, herror⟩

/-- The callbacks store inside the arrays of the request if and only if the trace fits. -/
theorem callbacks_in_bounds_iff (llhttp : Llhttp) (buf : Bytes) :
    ((llhttp buf).2.foldlM HttpRequest.on httpRequestInit ≠ .error .bounds ↔ Fits (llhttp buf).2) ∧
      (Fits (llhttp buf).2 →
        ∃ req, (llhttp buf).2.foldlM HttpRequest.on httpRequestInit = .ok req) := by
  rcases fold_init_cases (llhttp buf).2 with ⟨hfits, req, hok⟩ | ⟨hbad, herror⟩
  · refine ⟨iff_of_true ?_ hfits, fun _ => ⟨req, hok⟩⟩
    rw [hok]
    exact fun hcontra => by cases hcontra
  · exact ⟨iff_of_false (fun hne => hne herror) hbad, fun hfits => absurd hfits hbad⟩

/-- The name of a method with eight letters does not leave room for the zero byte. -/
theorem propfind_out_of_bounds :
    [Callback.method (ascii "PROPFIND".toList), .url (ascii ['/']), .headersComplete,
      .messageComplete].foldlM HttpRequest.on httpRequestInit = .error .bounds := by
  rfl

/-! ### Messages -/

/-- A message; the parser lets no zero byte through in the texts before the body. -/
structure Message where
  method : Bytes
  url : Bytes
  headers : List (Bytes × Bytes)
  body : List Bytes
  method_nul : (0 : UInt8) ∉ method
  url_nul : (0 : UInt8) ∉ url
  headers_nul : ∀ h ∈ headers, (0 : UInt8) ∉ h.1 ∧ (0 : UInt8) ∉ h.2

/-- The callbacks for a header. -/
def headerCallbacks (h : Bytes × Bytes) : List Callback := [.headerField h.1, .headerValue h.2]

/-- The callbacks for a message. -/
def Message.callbacks (m : Message) : List Callback :=
  .method m.method :: .url m.url :: (m.headers.flatMap headerCallbacks ++
    .headersComplete :: (m.body.map .body ++ [.messageComplete]))

namespace HttpRequest

/-- Method, raw path and headers, as strings. -/
def Holds (r : HttpRequest) (method url : Bytes) (headers : List (Bytes × Bytes)) : Prop :=
  HasString r.method method ∧ HasString r.rawPath url ∧ r.headerCount = headers.length ∧
    ∀ (i : ℕ) h, headers[i]? = some h → ∃ pair, r.headers[i]? = some (some pair) ∧
      HasString pair.key h.1 ∧ HasString pair.value h.2

/-- The request is that of the message. -/
def Describes (r : HttpRequest) (m : Message) : Prop := r.Holds m.method m.url m.headers

lemma Holds.unique {r : HttpRequest} {method method' url url' : Bytes}
    {headers headers' : List (Bytes × Bytes)} (h : r.Holds method url headers)
    (h' : r.Holds method' url' headers') : method = method' ∧ url = url' ∧ headers = headers' := by
  obtain ⟨hmethod, hurl, hcount, hpairs⟩ := h
  obtain ⟨hmethod', hurl', hcount', hpairs'⟩ := h'
  refine ⟨hmethod.unique hmethod', hurl.unique hurl',
    List.ext_getElem (by omega) fun i hi hi' => ?_⟩
  obtain ⟨pair, hpair, hkey, hvalue⟩ := hpairs i _ (List.getElem?_eq_getElem hi)
  obtain ⟨pair', hpair', hkey', hvalue'⟩ := hpairs' i _ (List.getElem?_eq_getElem hi')
  rw [hpair] at hpair'
  cases hpair'
  exact Prod.ext (hkey.unique hkey') (hvalue.unique hvalue')

variable {r : HttpRequest} {method url : Bytes} {done : List (Bytes × Bytes)}

/-- A header goes behind those that are there. -/
lemma fold_header (hr : r.Sized done.length) (hheld : r.Holds method url done) {h : Bytes × Bytes}
    (hnul : (0 : UInt8) ∉ h.1 ∧ (0 : UInt8) ∉ h.2)
    (hfits : ∀ c ∈ headerCallbacks h, c.TextFits) (hroom : done.length < 128) :
    ∃ r', (headerCallbacks h).foldlM on r = .ok r' ∧ r'.Sized (done ++ [h]).length ∧
      r'.Holds method url (done ++ [h]) := by
  obtain ⟨hmethod, hpath, hheaders, hcount, hkey, hvalue⟩ := hr
  have hfield : h.1.length < 128 := hfits _ List.mem_cons_self
  have hval : h.2.length < 128 := hfits _ (List.mem_cons_of_mem _ List.mem_cons_self)
  have hlen : (done ++ [h]).length = done.length + 1 := by simp
  have hvalue' : (r.withKey h.1).on (.headerValue h.2) =
      .ok ((r.withKey h.1).withHeader done.length h.2) :=
    on_headerValue hcount (by rw [withKey, hheaders]; exact hroom) (by omega)
      (by rw [withKey, hvalue]; exact hval)
  refine ⟨(r.withKey h.1).withHeader done.length h.2, ?_,
    ⟨hmethod, hpath, ?_, by rw [hlen]; rfl, ?_, ?_⟩, hheld.1, hheld.2.1, by rw [hlen]; rfl, ?_⟩
  · rw [headerCallbacks, List.foldlM_cons, on_headerField (by omega), ok_bind, List.foldlM_cons, hvalue']
    rfl
  · simpa [withHeader, withKey] using hheaders
  · have hlt : h.1.length < r.curHeader.key.length := by omega
    simp only [withHeader, withKey, length_written hlt, hkey]
  · have hlt : h.2.length < r.curHeader.value.length := by omega
    simp only [withHeader, withKey, length_written hlt, hvalue]
  · intro i p hp
    rcases concat_cases hp with hp | ⟨rfl, rfl⟩
    · obtain ⟨pair, hpair, hheldPair⟩ := hheld.2.2.2 i p hp
      have hlt := (List.getElem?_eq_some_iff.mp hp).1
      refine ⟨pair, ?_, hheldPair⟩
      simpa [withHeader, withKey, List.getElem?_set_ne hlt.ne'] using hpair
    · refine ⟨⟨written r.curHeader.key p.1, written r.curHeader.value p.2⟩, ?_,
        written_hasString _ hnul.1, written_hasString _ hnul.2⟩
      exact List.getElem?_set_self (by simpa [withKey] using hheaders ▸ hroom)

lemma fold_headers (headers : List (Bytes × Bytes)) (hr : r.Sized done.length)
    (hheld : r.Holds method url done) (hnul : ∀ h ∈ headers, (0 : UInt8) ∉ h.1 ∧ (0 : UInt8) ∉ h.2)
    (hfits : ∀ c ∈ headers.flatMap headerCallbacks, c.TextFits)
    (hroom : done.length + headers.length ≤ 128) :
    ∃ r', (headers.flatMap headerCallbacks).foldlM on r = .ok r' ∧
      r'.Sized (done ++ headers).length ∧ r'.Holds method url (done ++ headers) := by
  induction headers generalizing r done with
  | nil => exact ⟨r, rfl, by simpa using hr, by simpa using hheld⟩
  | cons h headers ih =>
    rw [List.length_cons] at hroom
    rw [List.flatMap_cons] at hfits
    obtain ⟨r₁, hfold₁, hr₁, hheld₁⟩ := fold_header hr hheld (hnul h List.mem_cons_self)
      (fun c hc => hfits c (List.mem_append_left _ hc)) (by omega)
    obtain ⟨r₂, hfold₂, hr₂, hheld₂⟩ := ih hr₁ hheld₁
      (fun g hg => hnul g (List.mem_cons_of_mem _ hg))
      (fun c hc => hfits c (List.mem_append_right _ hc)) (by simp; omega)
    refine ⟨r₂, ?_, by simpa using hr₂, by simpa using hheld₂⟩
    rw [List.flatMap_cons, List.foldlM_append, hfold₁, ok_bind, hfold₂]

/-- A message overwrites method and raw path, and adds its headers. -/
lemma fold_message (m : Message) (hr : r.Sized done.length) (hheld : r.Holds method url done)
    (hfits : ∀ c ∈ m.callbacks, c.TextFits) (hroom : done.length + m.headers.length ≤ 128) :
    ∃ r', m.callbacks.foldlM on r = .ok r' ∧ r'.Sized (done ++ m.headers).length ∧
      r'.Holds m.method m.url (done ++ m.headers) := by
  rw [Message.callbacks, List.forall_mem_cons, List.forall_mem_cons] at hfits
  obtain ⟨hmethod, hurl, hfits⟩ := hfits
  obtain ⟨hmlen, hplen, hheaders, hcount, hcur⟩ := hr
  obtain ⟨-, -, hheldCount, hpairs⟩ := hheld
  have hon₁ : r.on (.method m.method) = .ok { r with method := written r.method m.method } := by
    rw [on, onMethod, putText_eq (by rw [hmlen]; exact hmethod)]
    rfl
  have hon₂ : ({ r with method := written r.method m.method } : HttpRequest).on (.url m.url) =
      .ok { r with
        method := written r.method m.method
        rawPath := written r.rawPath m.url
        pathLen := m.url.length } := by
    rw [on, onUrl, putText_eq (by rw [hplen]; exact hurl)]
    rfl
  obtain ⟨r', hfold, hr', hheld'⟩ := fold_headers m.headers
    (r := { r with
      method := written r.method m.method
      rawPath := written r.rawPath m.url
      pathLen := m.url.length })
    ⟨by rw [length_written (by rw [hmlen]; exact hmethod), hmlen],
      by rw [length_written (by rw [hplen]; exact hurl), hplen], hheaders, hcount, hcur⟩
    ⟨written_hasString _ m.method_nul, written_hasString _ m.url_nul, hheldCount, hpairs⟩
    m.headers_nul (fun c hc => hfits c (List.mem_append_left _ hc)) hroom
  have hbody : ∀ (r : HttpRequest) (body : List Bytes), (body.map .body).foldlM on r = .ok r := by
    intro r body
    induction body with
    | nil => rfl
    | cons text body ih => exact ih
  refine ⟨r', ?_, hr', hheld'⟩
  rw [Message.callbacks, List.foldlM_cons, hon₁, ok_bind, List.foldlM_cons, hon₂, ok_bind,
    List.foldlM_append, hfold, ok_bind, List.foldlM_cons, on, ok_bind, List.foldlM_append, hbody, ok_bind]
  rfl

/-- After a number of messages: method and raw path of the last one, the headers of all. -/
lemma fold_messages (ms : List Message) (last : Message) (hr : r.Sized done.length)
    (hheld : r.Holds method url done)
    (hfits : ∀ c ∈ (ms ++ [last]).flatMap Message.callbacks, c.TextFits)
    (hroom : done.length + ((ms ++ [last]).flatMap Message.headers).length ≤ 128) :
    ∃ r', ((ms ++ [last]).flatMap Message.callbacks).foldlM on r = .ok r' ∧
      r'.Holds last.method last.url (done ++ (ms ++ [last]).flatMap Message.headers) := by
  induction ms generalizing r method url done with
  | nil =>
    simp only [List.nil_append, List.flatMap_singleton] at hfits hroom ⊢
    obtain ⟨r', hfold, -, hheld'⟩ := fold_message last hr hheld hfits hroom
    exact ⟨r', hfold, hheld'⟩
  | cons m ms ih =>
    simp only [List.cons_append, List.flatMap_cons, List.length_append] at hfits hroom ⊢
    obtain ⟨r₁, hfold₁, hr₁, hheld₁⟩ := fold_message m hr hheld
      (fun c hc => hfits c (List.mem_append_left _ hc)) (by omega)
    obtain ⟨r₂, hfold₂, hheld₂⟩ := ih hr₁ hheld₁
      (fun c hc => hfits c (List.mem_append_right _ hc)) (by rw [List.length_append]; omega)
    refine ⟨r₂, ?_, by simpa using hheld₂⟩
    rw [List.foldlM_append, hfold₁, ok_bind, hfold₂]

end HttpRequest

lemma httpRequestInit_holds : httpRequestInit.Holds [] [] [] :=
  ⟨@hasString_zeros [] List.not_mem_nil 8 (by decide), @hasString_zeros [] List.not_mem_nil 256 (by decide),
    rfl, fun _ _ hi => by cases hi⟩

lemma countP_headers (headers : List (Bytes × Bytes)) :
    (headers.flatMap headerCallbacks).countP Callback.isHeaderValue = headers.length := by
  induction headers with
  | nil => rfl
  | cons h headers ih =>
    rw [List.flatMap_cons, List.countP_append, ih, List.length_cons, Nat.add_comm]
    rfl

lemma countP_message (m : Message) :
    m.callbacks.countP Callback.isHeaderValue = m.headers.length := by
  have hbody : (m.body.map Callback.body).countP Callback.isHeaderValue = 0 := by
    rw [List.countP_eq_zero]
    simp [Callback.isHeaderValue]
  simp [Message.callbacks, countP_headers, hbody, Callback.isHeaderValue]

lemma countP_messages (ms : List Message) :
    (ms.flatMap Message.callbacks).countP Callback.isHeaderValue =
      (ms.flatMap Message.headers).length := by
  induction ms with
  | nil => rfl
  | cons m ms ih =>
    rw [List.flatMap_cons, List.flatMap_cons, List.countP_append, List.length_append, countP_message, ih]

section Pipeline

variable {llhttp : Llhttp} {buf : Bytes} {ms : List Message} {last : Message}
  (hparse : llhttp buf = (true, (ms ++ [last]).flatMap Message.callbacks))
  (hfits : Fits ((ms ++ [last]).flatMap Message.callbacks))
  (hquery : ∀ text, DecodesTo (terminated last.url) text → QueryFits text)

include hparse hfits hquery

/-- What `parse_http_request` leaves. -/
lemma parse_messages :
    ∃ result req, parseHttpRequest llhttp buf = .ok (result, req) ∧
      seperateQuery req.rawPath = .ok (result, req.url) ∧
      req.Holds last.method last.url ((ms ++ [last]).flatMap Message.headers) := by
  obtain ⟨htexts, hcount⟩ := hfits
  rw [countP_messages] at hcount
  obtain ⟨req, hfold, hheld⟩ := HttpRequest.fold_messages ms last httpRequestInit_sized
    httpRequestInit_holds htexts (by simpa using hcount)
  rw [List.nil_append] at hheld
  have hurl : last.url.length < 256 := htexts (.url last.url) (by simp [Message.callbacks])
  have hdecodes : ∀ text, DecodesTo req.rawPath text → QueryFits text := fun text htext => by
    have hraw : HasString (terminated last.url) last.url := ⟨last.url_nul, [], by simp⟩
    exact hquery text ((decodesTo_iff hraw text).mpr ((decodesTo_iff hheld.2.1 text).mp htext))
  rcases seperateQuery_cases hheld.2.1 (by omega) with ⟨-, ⟨result, url⟩, hok⟩ | ⟨hbad, -⟩
  · refine ⟨result, { req with url := url }, ?_, hok, hheld⟩
    rw [parseHttpRequest, hparse]
    simp only [hfold, ok_bind, Bool.not_true, Bool.false_eq_true, if_false, hok]
    rfl
  · exact absurd hdecodes hbad

/-- The request is that of one message if and only if at most one message has headers and it has
the method and the URL of the last one. -/
theorem describes_one_message_iff :
    ∃ result req, parseHttpRequest llhttp buf = .ok (result, req) ∧
      ((∃ m ∈ ms ++ [last], req.Describes m) ↔
        ∃ before m behind, ms ++ [last] = before ++ m :: behind ∧ m.method = last.method ∧
          m.url = last.url ∧ ∀ other ∈ before ++ behind, other.headers = []) := by
  obtain ⟨result, req, hok, -, hheld⟩ := parse_messages hparse hfits hquery
  refine ⟨result, req, hok, ?_⟩
  constructor
  · rintro ⟨m, hm, hdescribes⟩
    obtain ⟨hmethod, hurl, hheaders⟩ := hdescribes.unique hheld
    obtain ⟨before, behind, hsplit⟩ := List.append_of_mem hm
    refine ⟨before, m, behind, hsplit, hmethod, hurl, fun other hother => ?_⟩
    rw [hsplit, List.flatMap_append, List.flatMap_cons] at hheaders
    have hlen := congrArg List.length hheaders
    simp only [List.length_append] at hlen
    have hnone : (before ++ behind).flatMap Message.headers = [] := by
      rw [← List.length_eq_zero_iff, List.flatMap_append, List.length_append]
      omega
    exact List.flatMap_eq_nil_iff.mp hnone other hother
  · rintro ⟨before, m, behind, hsplit, hmethod, hurl, hothers⟩
    have hbefore : before.flatMap Message.headers = [] :=
      List.flatMap_eq_nil_iff.mpr fun o ho => hothers o (List.mem_append_left _ ho)
    have hbehind : behind.flatMap Message.headers = [] :=
      List.flatMap_eq_nil_iff.mpr fun o ho => hothers o (List.mem_append_right _ ho)
    refine ⟨m, by rw [hsplit]; simp, ?_⟩
    rw [hsplit, List.flatMap_append, List.flatMap_cons, hbefore, hbehind, List.append_nil,
      List.nil_append] at hheld
    rw [HttpRequest.Describes, hmethod, hurl]
    exact hheld

end Pipeline

/-- A message with a header. -/
def hostMessage : Message :=
  ⟨ascii "GET".toList, ascii "/a".toList, [(ascii "Host".toList, ascii "h".toList)], [], by decide,
    by decide, by decide⟩

/-- A message without headers. -/
def bareMessage : Message :=
  ⟨ascii "GET".toList, ascii "/b".toList, [], [], by decide, by decide, by decide⟩

lemma query_fits {raw : Bytes} (text : Bytes) (hnul : (0 : UInt8) ∉ raw)
    (hmost : decodeMost (shown raw) = some text) (hfits : QueryFits text) :
    ∀ t, DecodesTo (terminated raw) t → QueryFits t := by
  intro t ht
  have hraw : HasString (terminated raw) raw := ⟨hnul, [], by simp⟩
  rw [decodesTo_iff hraw, hmost, Option.some.injEq] at ht
  rwa [← ht]

theorem describes_one_message_iff_host :
    ∃ result req, parseHttpRequest (fun _ => (true, [hostMessage].flatMap Message.callbacks))
        (ascii "GET /a HTTP/1.1\r\nHost: h\r\n\r\n".toList) = .ok (result, req) ∧
      ((∃ m ∈ [hostMessage], req.Describes m) ↔
        ∃ before m behind, [hostMessage] = before ++ m :: behind ∧ m.method = hostMessage.method ∧
          m.url = hostMessage.url ∧ ∀ other ∈ before ++ behind, other.headers = []) :=
  @describes_one_message_iff _ _ [] hostMessage rfl (by decide)
    (query_fits (ascii "/a".toList) (by decide) (by decide) (by decide))

/-- The second message gets the header of the first. -/
theorem second_message_with_first_header :
    ∃ result req, parseHttpRequest
        (fun _ => (true, [hostMessage, bareMessage].flatMap Message.callbacks))
        (ascii "GET /a HTTP/1.1\r\nHost: h\r\n\r\nGET /b HTTP/1.1\r\n\r\n".toList) =
          .ok (result, req) ∧
      ∀ m ∈ [hostMessage, bareMessage], ¬ req.Describes m := by
  obtain ⟨result, req, hok, -, hheld⟩ := @parse_messages
    (fun _ => (true, [hostMessage, bareMessage].flatMap Message.callbacks))
    (ascii "GET /a HTTP/1.1\r\nHost: h\r\n\r\nGET /b HTTP/1.1\r\n\r\n".toList) [hostMessage] bareMessage
    rfl (by decide) (query_fits (ascii "/b".toList) (by decide) (by decide) (by decide))
  refine ⟨result, req, hok, ?_⟩
  have hurls : hostMessage.url ≠ bareMessage.url := by decide
  have hheaders : bareMessage.headers ≠ ([hostMessage] ++ [bareMessage]).flatMap Message.headers := by
    decide
  simp only [List.forall_mem_cons, List.not_mem_nil, false_imp_iff, implies_true, and_true]
  exact ⟨fun h => hurls (h.unique hheld).2.1, fun h => hheaders (h.unique hheld).2.2⟩

/-! ### `is_closed_conn` -/

/-- The header asks for the end of the connection. -/
def closes (h : Bytes × Bytes) : Bool :=
  sameIgnoringCase (ascii "Connection".toList) h.1 && sameIgnoringCase (ascii "Close".toList) h.2

lemma HttpRequest.Holds.closedConnFrom_eq {r : HttpRequest} {method url : Bytes}
    {headers : List (Bytes × Bytes)} (hr : r.Holds method url headers) {i n : ℕ}
    (hn : i + n = headers.length) : closedConnFrom r i n = .ok ((headers.drop i).any closes) := by
  induction n generalizing i with
  | zero =>
    rw [closedConnFrom, List.drop_of_length_le (by omega)]
    rfl
  | succ n ih =>
    have hi : i < headers.length := by omega
    obtain ⟨-, -, -, hheld⟩ := hr
    obtain ⟨pair, hpair, hkey, hvalue⟩ := hheld i _ (List.getElem?_eq_getElem hi)
    rw [closedConnFrom, get_natCast hpair, ok_bind, hkey.readString_eq, ok_bind,
      List.drop_eq_getElem_cons hi, List.any_cons, closes]
    cases sameIgnoringCase (ascii "Connection".toList) headers[i].1 with
    | false => exact ih (by omega)
    | true =>
      simp only [hvalue.readString_eq, ok_bind, if_true, Bool.true_and]
      cases sameIgnoringCase (ascii "Close".toList) headers[i].2 with
      | false => exact ih (by omega)
      | true => rfl

/-- Of several messages in the buffer each one closes the connection, whichever of them is answered. -/
theorem closed_by_any_message {llhttp : Llhttp} {buf : Bytes} {ms : List Message} {last : Message}
    (hparse : llhttp buf = (true, (ms ++ [last]).flatMap Message.callbacks))
    (hfits : Fits ((ms ++ [last]).flatMap Message.callbacks))
    (hquery : ∀ text, DecodesTo (terminated last.url) text → QueryFits text) :
    ∃ result req closed, parseHttpRequest llhttp buf = .ok (result, req) ∧
      isClosedConn req = .ok closed ∧
      (closed = true ↔ ∃ m ∈ ms ++ [last], ∃ h ∈ m.headers, closes h = true) := by
  obtain ⟨result, req, hok, -, hheld⟩ := parse_messages hparse hfits hquery
  refine ⟨result, req, ((ms ++ [last]).flatMap Message.headers).any closes, hok, ?_, ?_⟩
  · rw [isClosedConn, hheld.2.2.1, Int.toNat_natCast, hheld.closedConnFrom_eq (Nat.zero_add _),
      List.drop_zero]
  · simp only [List.any_eq_true, List.mem_flatMap]
    constructor
    · rintro ⟨h, ⟨m, hm, hh⟩, hcloses⟩
      exact ⟨m, hm, h, hh, hcloses⟩
    · rintro ⟨m, hm, h, hh, hcloses⟩
      exact ⟨h, ⟨m, hm, hh⟩, hcloses⟩

/-- A message with the header `connection: CLOSE`. -/
def closeMessage : Message :=
  ⟨ascii "GET".toList, ascii "/a".toList, [(ascii "connection".toList, ascii "CLOSE".toList)], [],
    by decide, by decide, by decide⟩

/-- The second message has no header. -/
theorem closed_by_any_message_first :
    ∃ result req, parseHttpRequest (fun _ => (true, [closeMessage, bareMessage].flatMap Message.callbacks))
        (ascii "GET /a HTTP/1.1\r\nconnection: CLOSE\r\n\r\nGET /b HTTP/1.1\r\n\r\n".toList) =
          .ok (result, req) ∧ isClosedConn req = .ok true := by
  obtain ⟨result, req, closed, hok, hclosed, hiff⟩ := @closed_by_any_message
    (fun _ => (true, [closeMessage, bareMessage].flatMap Message.callbacks))
    (ascii "GET /a HTTP/1.1\r\nconnection: CLOSE\r\n\r\nGET /b HTTP/1.1\r\n\r\n".toList) [closeMessage]
    bareMessage rfl (by decide) (query_fits (ascii "/b".toList) (by decide) (by decide) (by decide))
  have htrue : closed = true :=
    hiff.mpr ⟨closeMessage, List.mem_cons_self, _, List.mem_cons_self, by decide⟩
  exact ⟨result, req, hok, htrue ▸ hclosed⟩

end Ccybe
