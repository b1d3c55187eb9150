import Ccybe.Lib.Assoc
import Ccybe.Response.Basic

/-!
# The headers of a response

`set_header` fills the first free pair of the array and never looks at the others, so that a name
which is set twice is there twice.
-/

namespace Ccybe

open CSem

/-- The headers of a response, as strings; the rest of the array is as `init_resp_ctx` left it. -/
structure HttpResponse.HasHeaders (r : HttpResponse) (hs : List (Bytes × Bytes)) : Prop where
  count : r.headerCount = hs.length
  size : r.headers.length = 128
  held : ∀ (i : ℕ) h, hs[i]? = some h → ∃ pair, r.headers[i]? = some (some pair) ∧
    HasString pair.key h.1 ∧ HasString pair.value h.2
  free : ∀ i, hs.length ≤ i → i < 128 → r.headers[i]? = some (some .zero)

/-- The headers up to `header_count`, as strings, whatever else is in the array. -/
structure HttpResponse.Lists (r : HttpResponse) (hs : List (Bytes × Bytes)) : Prop where
  count : r.headerCount.toNat = hs.length
  held : ∀ (i : ℕ) h, hs[i]? = some h → ∃ pair, r.headers[i]? = some (some pair) ∧
    HasString pair.key h.1 ∧ HasString pair.value h.2

lemma HttpResponse.HasHeaders.lists {r : HttpResponse} {hs : List (Bytes × Bytes)}
    (h : r.HasHeaders hs) : r.Lists hs :=
  ⟨by rw [h.count, Int.toNat_natCast], h.held⟩

lemma HttpResponse.Lists.unique {r : HttpResponse} {hs hs' : List (Bytes × Bytes)}
    (h : r.Lists hs) (h' : r.Lists hs') : hs = hs' := by
  have hcount : hs.length = hs'.length := h.count.symm.trans h'.count
  refine List.ext_getElem hcount fun i hi hi' => ?_
  obtain ⟨pair, hpair, hkey, hvalue⟩ := h.held i _ (List.getElem?_eq_getElem hi)
  obtain ⟨pair', hpair', hkey', hvalue'⟩ := h'.held i _ (List.getElem?_eq_getElem hi')
  rw [hpair] at hpair'
  cases hpair'
  exact Prod.ext (hkey.unique hkey') (hvalue.unique hvalue')

/-- No header was set yet. -/
lemma hasHeaders_nil {r : HttpResponse} (hheaders : r.headers = initResp.headers)
    (hcount : r.headerCount = 0) : r.HasHeaders [] := by
  refine ⟨hcount, ?_, fun _ _ hi => ?_, fun _ _ hi => ?_⟩
  · rw [hheaders]
    exact List.length_replicate
  · cases hi
  · rw [hheaders]
    exact List.getElem?_replicate_of_lt hi

lemma HttpResponse.HasHeaders.length_le {r : HttpResponse} {hs : List (Bytes × Bytes)}
    (hr : r.HasHeaders hs) : hs.length ≤ 128 := by
  by_contra hgt
  obtain ⟨pair, hpair, -⟩ := hr.held 128 hs[128] (List.getElem?_eq_getElem (by omega))
  rw [List.getElem?_eq_none (by rw [hr.size])] at hpair
  cases hpair

/-! ### Setting headers -/

lemma memcpy_zeros {cells : Block} {text : Bytes} (h : HasString cells text) (hlen : text.length ≤ 127) :
    memcpy (zeros 128) 0 cells text.length = .ok (text.map some ++ zeros (128 - text.length)) := by
  obtain ⟨-, rest, rfl⟩ := h
  have hblit : blit (zeros 128) 0 (text.map some) =
      .ok (text.map some ++ zeros (128 - text.length)) := by
    rw [blit_front (by simp; omega), List.length_map, drop_zeros]
  have htake : (terminated text ++ rest).take text.length = text.map some := by
    simp [terminated]
  rw [memcpy, if_pos (by rw [List.length_append, length_terminated]; omega), htake, hblit]

/-- A header is added behind the others. -/
lemma setHeader_eq {r : HttpResponse} {hs : List (Bytes × Bytes)} (hr : r.HasHeaders hs)
    {header value : Block} {h : Bytes × Bytes} (hheader : HasString header h.1)
    (hvalue : HasString value h.2) (hlen : h.1.length ≤ 127 ∧ h.2.length ≤ 127)
    (hroom : hs.length < 128) :
    ∃ r', setHeader r header value = .ok r' ∧ r'.HasHeaders (hs ++ [h]) ∧
      r'.statusCode = r.statusCode ∧ r'.body = r.body := by
  have hget : get r.headers hs.length = .ok .zero := get_natCast (hr.free _ (le_refl _) hroom)
  have hset : ∀ pair, set r.headers hs.length pair = .ok (r.headers.set hs.length (some pair)) :=
    fun pair => set_natCast pair (by rw [hr.size]; exact hroom)
  have hadd : add (hs.length : Int) 1 = .ok ((hs.length + 1 : ℕ) : Int) := add_ok (by omega) (by omega)
  have hkey := memcpy_zeros hheader hlen.1
  have hval := memcpy_zeros hvalue hlen.2
  refine ⟨{ r with
    headers := r.headers.set hs.length (some ⟨h.1.map some ++ zeros (128 - h.1.length),
      h.2.map some ++ zeros (128 - h.2.length)⟩)
    headerCount := (hs.length + 1 : ℕ) }, ?_, ⟨?_, ?_, fun i g hi => ?_, fun i hi hi' => ?_⟩, rfl, rfl⟩
  · simp only [setHeader, hheader.strlen_eq, hvalue.strlen_eq, ok_bind, hr.count, hget, PairT.zero,
      hkey, hval, hset, hadd, pure_eq_ok]
  · simp
  · rw [List.length_set, hr.size]
  · rcases concat_cases hi with hi | ⟨rfl, rfl⟩
    · obtain ⟨pair, hpair, hheld⟩ := hr.held i g hi
      have hlt := (List.getElem?_eq_some_iff.mp hi).1
      exact ⟨pair, by rw [List.getElem?_set_ne hlt.ne']; exact hpair, hheld⟩
    · refine ⟨_, List.getElem?_set_self (by rw [hr.size]; exact hroom), hasString_zeros hheader.1 ?_,
        hasString_zeros hvalue.1 ?_⟩ <;> omega
  · rw [List.length_append, List.length_singleton] at hi
    rw [List.getElem?_set_ne (by omega)]
    exact hr.free i (by omega) hi'

/-- Behind the last pair of the array there is no place for a header. -/
lemma setHeader_full {r : HttpResponse} {hs : List (Bytes × Bytes)} (hr : r.HasHeaders hs)
    (hfull : hs.length = 128) {header value : Block} {h : Bytes × Bytes}
    (hheader : HasString header h.1) (hvalue : HasString value h.2) :
    setHeader r header value = .error .bounds := by
  have hget : get r.headers hs.length = .error .bounds := get_of_le (by rw [hr.size, hfull])
  rw [setHeader, hheader.strlen_eq, ok_bind, hvalue.strlen_eq, ok_bind, hr.count, hget, error_bind]

/-! ### A name that is set again -/

/-- The calls of `set_header` with these names and values. -/
def setHeaders (r : HttpResponse) (calls : List (Block × Block)) : Eval HttpResponse :=
  calls.foldlM (fun r call => setHeader r call.1 call.2) r

/-- The arguments of a call are the strings of `h`, which fit into a pair. -/
def CallOf (call : Block × Block) (h : Bytes × Bytes) : Prop :=
  HasString call.1 h.1 ∧ HasString call.2 h.2 ∧ h.1.length ≤ 127 ∧ h.2.length ≤ 127

/-- The names in the order in which they were set first, each with the value that it was given
last. -/
def LastOf (hs kept : List (Bytes × Bytes)) : Prop :=
  kept.map Prod.fst = (hs.map Prod.fst).eraseDups ∧
    ∀ h ∈ kept, hs.reverse.lookup h.1 = some h.2

/-- On a fresh context the calls leave each name once, with its last value. -/
def Overrides (calls : List (Block × Block)) (hs : List (Bytes × Bytes)) : Prop :=
  ∃ r kept, setHeaders initResp calls = .ok r ∧ r.headerCount = kept.length ∧ r.Lists kept ∧
    LastOf hs kept

/-- The calls add their headers behind the others, as long as there is room for all of them. -/
lemma setHeaders_cases {calls : List (Block × Block)} {hs : List (Bytes × Bytes)}
    (hcalls : List.Forall₂ CallOf calls hs) {r : HttpResponse} {before : List (Bytes × Bytes)}
    (hr : r.HasHeaders before) :
    (before.length + hs.length ≤ 128 ∧
      ∃ r', setHeaders r calls = .ok r' ∧ r'.HasHeaders (before ++ hs)) ∨
    (128 < before.length + hs.length ∧ setHeaders r calls = .error .bounds) := by
  have hle := hr.length_le
  induction hcalls generalizing r before with
  | nil => exact .inl ⟨by simpa using hle, r, rfl, by simpa using hr⟩
  | @cons call h calls hs hcall _ ih =>
    obtain ⟨hheader, hvalue, hlen⟩ := hcall
    rw [List.length_cons, setHeaders, List.foldlM_cons]
    rcases hle.lt_or_eq with hroom | hfull
    · obtain ⟨r₁, hset, hr₁, -⟩ := setHeader_eq hr hheader hvalue hlen hroom
      rw [hset, ok_bind]
      rcases ih hr₁ hr₁.length_le with ⟨hfits, r', hok, hr'⟩ | ⟨hlong, herror⟩
      · rw [List.length_append, List.length_singleton] at hfits
        rw [List.append_assoc, List.singleton_append] at hr'
        exact .inl ⟨by omega, r', hok, hr'⟩
      · rw [List.length_append, List.length_singleton] at hlong
        exact .inr ⟨by omega, herror⟩
    · rw [setHeader_full hr hfull hheader hvalue]
      exact .inr ⟨by omega, rfl⟩

/-- The last call overrides the ones before it if and only if no name is set twice. -/
theorem overrides_iff {calls : List (Block × Block)} {hs : List (Bytes × Bytes)}
    (hcalls : List.Forall₂ CallOf calls hs) (hnames : (hs.map Prod.fst).eraseDups.length ≤ 128) :
    Overrides calls hs ↔ (hs.map Prod.fst).Nodup := by
  have hnil : initResp.HasHeaders [] := hasHeaders_nil rfl rfl
  constructor
  · rintro ⟨r, kept, hok, -, hkept, hlast, -⟩
    rcases setHeaders_cases hcalls hnil with ⟨-, r', hok', hr'⟩ | ⟨-, herror⟩
    · rw [hok] at hok'
      cases hok'
      obtain rfl : kept = hs := hkept.unique hr'.lists
      exact Assoc.eraseDups_eq_self_iff.mp hlast.symm
    · rw [hok] at herror
      cases herror
  · intro hnodup
    have hself := Assoc.eraseDups_eq_self_iff.mpr hnodup
    rw [hself, List.length_map] at hnames
    rcases setHeaders_cases hcalls hnil with ⟨-, r, hok, hr⟩ | ⟨hlong, -⟩
    · exact ⟨r, hs, hok, hr.count, hr.lists, hself.symm,
        fun h hh => Assoc.lookup_reverse_of_nodup hnodup hh⟩
    · rw [List.length_nil] at hlong
      omega

def header (name value : List Char) : Bytes × Bytes := (ascii name, ascii value)

/-- The calls with literals. -/
def literalCalls (hs : List (Bytes × Bytes)) : List (Block × Block) :=
  hs.map fun h => (terminated h.1, terminated h.2)

lemma callOf_literalCalls {hs : List (Bytes × Bytes)}
    (h : ∀ h ∈ hs, ((0 : UInt8) ∉ h.1 ∧ (0 : UInt8) ∉ h.2) ∧ h.1.length ≤ 127 ∧ h.2.length ≤ 127) :
    List.Forall₂ CallOf (literalCalls hs) hs := by
  rw [literalCalls, List.forall₂_map_left_iff, List.forall₂_same]
  exact fun g hg => ⟨hasString_terminated (h g hg).1.1, hasString_terminated (h g hg).1.2, (h g hg).2⟩

/-- Two names, each set once. -/
theorem overrides_iff_two :
    Overrides (literalCalls [header ['a'] ['1'], header ['b'] []])
        [header ['a'] ['1'], header ['b'] []] ↔
      ([header ['a'] ['1'], header ['b'] []].map Prod.fst).Nodup :=
  overrides_iff (callOf_literalCalls (by decide)) (by decide)

/-- The calls that set `Connection` to `close` and then to `keep-alive`. -/
def connectionTwice : List (Bytes × Bytes) :=
  [header "Connection".toList "close".toList, header "Connection".toList "keep-alive".toList]

/-- Both values are there. -/
theorem connection_kept_twice :
    (∃ r, setHeaders initResp (literalCalls connectionTwice) = .ok r ∧ r.Lists connectionTwice) ∧
      ¬ Overrides (literalCalls connectionTwice) connectionTwice := by
  have hnil : initResp.HasHeaders [] := hasHeaders_nil rfl rfl
  have hcalls := @callOf_literalCalls connectionTwice (by decide)
  rcases setHeaders_cases hcalls hnil with ⟨-, r, hok, hr⟩ | ⟨hlong, -⟩
  · refine ⟨⟨r, hok, hr.lists⟩, ?_⟩
    rintro ⟨r', kept, hok', -, hkept, hlast, -⟩
    rw [hok] at hok'
    cases hok'
    obtain rfl := hkept.unique hr.lists
    exact absurd hlast (by decide)
  · exact absurd hlong (by decide)

end Ccybe
