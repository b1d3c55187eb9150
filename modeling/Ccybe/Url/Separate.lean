import Ccybe.Url.Segments

/-!
# What `seperate_query` does

The function decodes the raw path and takes the decoded text apart. It stays inside the arrays if
and only if the query of that text fits, and each segment is parsed for itself.
-/

namespace Ccybe

open CSem

/-- `decode_url` accepts `rawPath` and writes `text`. -/
def DecodesTo (rawPath : Block) (text : Bytes) : Prop :=
  ∃ raw buf, HasString rawPath raw ∧
    decodeUrl rawPath (List.replicate (raw.length + 1) none) = .ok (0, buf) ∧ HasString buf text

/-! ### The decoding -/

lemma DecodesTo.unique {rawPath : Block} {text text' : Bytes} (h : DecodesTo rawPath text)
    (h' : DecodesTo rawPath text') : text = text' := by
  obtain ⟨raw, buf, hraw, hdec, hbuf⟩ := h
  obtain ⟨raw', buf', hraw', hdec', hbuf'⟩ := h'
  obtain rfl := hraw.unique hraw'
  rw [hdec] at hdec'
  cases hdec'
  exact hbuf.unique hbuf'

lemma decodesTo_iff {rawPath : Block} {raw : Bytes} (h : HasString rawPath raw) (text : Bytes) :
    DecodesTo rawPath text ↔ decodeMost (shown raw) = some text := by
  have hroom : raw.length < (List.replicate (raw.length + 1) none : Block).length := by simp
  obtain ⟨hsome, hnone⟩ := decodeUrl_spec h hroom
  have hheld : ∀ t rest, decodeMost (shown raw) = some t → HasString (terminated t ++ rest) t :=
    fun t rest ht => ⟨zero_notMem_decodeMost (zero_notMem_shown h.1) ht, rest, rfl⟩
  constructor
  · rintro ⟨raw', buf, hraw', hdecode, hbuf⟩
    obtain rfl := h.unique hraw'
    cases ht : decodeMost (shown raw) with
    | none =>
      obtain ⟨buf', heq⟩ := hnone ht
      rw [heq] at hdecode
      cases hdecode
    | some t =>
      obtain ⟨rest, heq⟩ := hsome t ht
      rw [heq] at hdecode
      cases hdecode
      rw [(hheld t rest ht).unique hbuf]
  · intro ht
    obtain ⟨rest, heq⟩ := hsome text ht
    exact ⟨raw, _, h, heq, hheld text rest ht⟩

lemma length_decodeMost_le {url t : Bytes} (h : decodeMost url = some t) : t.length ≤ url.length := by
  obtain ⟨u, v, d, rfl, rfl, hu, -, -⟩ := decodeMost_some h
  have := length_decode_le hu
  simp only [List.length_append]
  omega

lemma length_pathOf_le {raw text : Bytes} (h : decodeMost (shown raw) = some text) :
    (pathOf text).length ≤ raw.length :=
  calc (pathOf text).length ≤ text.length := (List.takeWhile_sublist _).length_le
    _ ≤ (shown raw).length := length_decodeMost_le h
    _ ≤ raw.length := List.length_take_le' _ _

/-- Behind the decoding, the loop takes the text apart. -/
lemma seperateQuery_eq {rawPath : Block} {text : Bytes} (h : DecodesTo rawPath text) :
    seperateQuery rawPath = (separateText text).map fun url => (0, url) := by
  obtain ⟨raw, buf, hraw, hdecode, hbuf⟩ := h
  rw [seperateQuery, hraw.strlen_eq, ok_bind, hdecode, ok_bind, if_neg (by simp), hbuf.readString_eq,
    ok_bind, separateText]
  cases text.foldlM QueryScan.pass ⟨initUrl, false, true, 0⟩ with
  | error u => rfl
  | ok s =>
    simp only [ok_bind, QueryScan.finish]
    cases s.url.storePath 0 with
    | error u => rfl
    | ok url =>
      simp only [ok_bind]
      split_ifs
      · cases url.storeValue s.j 0 with
        | error u => rfl
        | ok url =>
          simp only [ok_bind]
          cases url.nextQuery <;> rfl
      · rfl

/-- A raw path that `decode_url` refuses. -/
lemma seperateQuery_refused {rawPath : Block} {raw : Bytes} (h : HasString rawPath raw)
    (hrefused : ∀ text, ¬ DecodesTo rawPath text) : seperateQuery rawPath = .ok (1, initUrl) := by
  have hroom : raw.length < (List.replicate (raw.length + 1) none : Block).length := by simp
  cases ht : decodeMost (shown raw) with
  | none =>
    obtain ⟨buf, heq⟩ := (decodeUrl_spec h hroom).2 ht
    rw [seperateQuery, h.strlen_eq, ok_bind, heq]
    rfl
  | some t => exact absurd ((decodesTo_iff h t).mpr ht) (hrefused t)

/-! ### Where the stores fall -/

/-- The function returns if and only if the decoded text fits, else a store is outside its array. -/
lemma seperateQuery_cases {rawPath : Block} {raw : Bytes} (h : HasString rawPath raw)
    (hlen : raw.length ≤ 255) :
    ((∀ text, DecodesTo rawPath text → QueryFits text) ∧ ∃ result, seperateQuery rawPath = .ok result) ∨
    (¬ (∀ text, DecodesTo rawPath text → QueryFits text) ∧ seperateQuery rawPath = .error .bounds) := by
  by_cases hdec : ∃ text, DecodesTo rawPath text
  · obtain ⟨text, htext⟩ := hdec
    have hmost := (decodesTo_iff h text).mp htext
    have hresult := seperateQuery_eq htext
    rcases separateText_cases ((length_pathOf_le hmost).trans hlen) with
      ⟨hfits, pairs, -, hok⟩ | ⟨hfits, herror⟩
    · rw [hok] at hresult
      refine .inl ⟨fun t ht => ?_, _, hresult⟩
      rw [(decodesTo_iff h t).mp ht, Option.some.injEq] at hmost
      rwa [hmost]
    · rw [herror] at hresult
      exact .inr ⟨fun hall => hfits (hall text htext), hresult⟩
  · push Not at hdec
    exact .inl ⟨fun t ht => absurd ht (hdec t), _, seperateQuery_refused h hdec⟩

/-- `seperate_query` stores inside the arrays if and only if the decoded text has at most ten
segments with fields of at most 127 bytes. -/
theorem seperateQuery_in_bounds_iff {rawPath : Block} {raw : Bytes} (h : HasString rawPath raw)
    (hlen : raw.length ≤ 255) :
    (seperateQuery rawPath ≠ .error .bounds ↔ ∀ text, DecodesTo rawPath text → QueryFits text) ∧
      (seperateQuery rawPath ≠ .error .bounds → ∃ result, seperateQuery rawPath = .ok result) := by
  rcases seperateQuery_cases h hlen with ⟨hfits, result, hok⟩ | ⟨hfits, herror⟩
  · have hne : seperateQuery rawPath ≠ .error .bounds := by
      rw [hok]
      exact fun hcontra => by cases hcontra
    exact ⟨iff_of_true hne hfits, fun _ => ⟨result, hok⟩⟩
  · exact ⟨iff_of_false (fun hne => hne herror) hfits, fun hne => absurd herror hne⟩

/-- A path with two pairs. -/
theorem seperateQuery_in_bounds_iff_two :
    (seperateQuery (terminated (ascii ['/', '?', 'a', '=', 'b', '&', 'c'])) ≠ .error .bounds ↔
      ∀ text, DecodesTo (terminated (ascii ['/', '?', 'a', '=', 'b', '&', 'c'])) text →
        QueryFits text) ∧
    (seperateQuery (terminated (ascii ['/', '?', 'a', '=', 'b', '&', 'c'])) ≠ .error .bounds →
      ∃ result, seperateQuery (terminated (ascii ['/', '?', 'a', '=', 'b', '&', 'c'])) = .ok result) :=
  @seperateQuery_in_bounds_iff _ (ascii ['/', '?', 'a', '=', 'b', '&', 'c'])
    ⟨by decide, [], by simp⟩ (by decide)

/-- The eleventh segment has no place. -/
theorem eleventh_query_out_of_bounds :
    HasString (terminated (ascii ('?' :: List.replicate 10 '&')))
        (ascii ('?' :: List.replicate 10 '&')) ∧
      (ascii ('?' :: List.replicate 10 '&')).length ≤ 255 ∧
      seperateQuery (terminated (ascii ('?' :: List.replicate 10 '&'))) = .error .bounds :=
  ⟨⟨by decide, [], by simp⟩, by decide, by decide +kernel⟩

/-! ### Each segment for itself -/

/-- The text with the path and the segments. -/
def joined (path : Bytes) (segments : List Bytes) : Bytes :=
  if segments = [] then path else path ++ chr '?' :: [chr '&'].intercalate segments

/-- `pair` is what `seperate_query` makes of the segment alone, of which there are raw paths. -/
def ParsedAlone (segment : Bytes) (pair : PairT) : Prop :=
  (∃ rawPath, DecodesTo rawPath (chr '?' :: segment)) ∧
    ∀ rawPath, DecodesTo rawPath (chr '?' :: segment) → ∃ url, seperateQuery rawPath = .ok (0, url) ∧
      url.queryCount = 1 ∧ url.queries[0]? = some (some pair)

lemma pathOf_append {path : Bytes} (h : chr '?' ∉ path) (query : Bytes) :
    pathOf (path ++ chr '?' :: query) = path ∧
      segmentsOf (path ++ chr '?' :: query) = query.splitOn (chr '&') := by
  have hall : ∀ c ∈ path, decide (c ≠ chr '?') = true := fun c hc => by
    simpa using fun heq : c = chr '?' => h (heq ▸ hc)
  constructor
  · rw [pathOf, List.takeWhile_append_of_pos hall]
    simp
  · rw [segmentsOf, List.dropWhile_append_of_pos hall]
    simp

lemma pathOf_joined {path : Bytes} {segments : List Bytes} (h : chr '?' ∉ path)
    (hamp : ∀ s ∈ segments, chr '&' ∉ s) :
    pathOf (joined path segments) = path ∧ segmentsOf (joined path segments) = segments := by
  by_cases hnil : segments = []
  · have hall : ∀ c ∈ path, decide (c ≠ chr '?') = true := fun c hc => by
      simpa using fun heq : c = chr '?' => h (heq ▸ hc)
    rw [joined, if_pos hnil, pathOf, segmentsOf, List.takeWhile_eq_self_iff.mpr hall,
      List.dropWhile_eq_nil_iff.mpr hall]
    exact ⟨rfl, hnil.symm⟩
  · rw [joined, if_neg hnil, (pathOf_append h _).1, (pathOf_append h _).2,
      List.splitOn_intercalate _ hamp hnil]
    exact ⟨rfl, rfl⟩

lemma mem_joined {path s : Bytes} {segments : List Bytes} (hs : s ∈ segments) {c : UInt8}
    (hc : c ∈ s) : c ∈ joined path segments := by
  rw [joined, if_neg (List.ne_nil_of_mem hs), List.mem_append, List.mem_cons]
  exact .inr (.inr (Split.mem_intercalate hs hc))

/-- An encoding of a text. The `%` at the end is left as it is, since the loop copies it. -/
def encode : Bytes → Bytes
  | [] => []
  | [c] => [c]
  | c :: d :: text =>
    if c = chr '%' then chr '%' :: chr '2' :: chr '5' :: encode (d :: text)
    else c :: encode (d :: text)

lemma decodeMost_cons {c : UInt8} (hc : c ≠ chr '%') (url : Bytes) :
    decodeMost (c :: url) = (decodeMost url).map (c :: ·) := by
  match url with
  | [] | [_] | [_, _] => simp [decodeMost]
  | a :: b :: d :: url => simp [decodeMost, hc]

lemma encode_cons (c : UInt8) (text : Bytes) : ∃ d rest, encode (c :: text) = d :: rest := by
  cases text with
  | nil => exact ⟨c, [], rfl⟩
  | cons d text =>
    by_cases hc : c = chr '%'
    · exact ⟨_, _, by rw [encode, if_pos hc]⟩
    · exact ⟨_, _, by rw [encode, if_neg hc]⟩

lemma decodeMost_encode (text : Bytes) : decodeMost (encode text) = some text := by
  induction text using encode.induct with
  | case1 => rfl
  | case2 c => rfl
  | case3 d text ih =>
    obtain ⟨e, rest, hrest⟩ := encode_cons d text
    have hpct : escaped (chr '2') (chr '5') = some (chr '%') := by decide
    rw [hrest] at ih
    rw [encode, if_pos rfl, hrest, decodeMost, if_pos rfl, hpct, Option.bind_some, ih]
    rfl
  | case4 c d text hc ih =>
    rw [encode, if_neg hc, decodeMost_cons hc, ih]
    rfl

lemma zero_notMem_encode {text : Bytes} (h : (0 : UInt8) ∉ text) : (0 : UInt8) ∉ encode text := by
  induction text using encode.induct with
  | case1 => exact h
  | case2 c => exact h
  | case3 d text ih =>
    have hchars : (0 : UInt8) ≠ chr '%' ∧ (0 : UInt8) ≠ chr '2' ∧ (0 : UInt8) ≠ chr '5' := by decide
    rw [encode, if_pos rfl]
    simp only [List.mem_cons, not_or] at h ⊢
    exact ⟨hchars.1, hchars.2.1, hchars.2.2, ih (by simpa using h.2)⟩
  | case4 c d text hc ih =>
    rw [encode, if_neg hc]
    rw [List.mem_cons, not_or] at h ⊢
    exact ⟨h.1, ih h.2⟩

lemma length_encode_le (text : Bytes) : (encode text).length ≤ 3 * text.length := by
  induction text using encode.induct with
  | case1 => simp [encode]
  | case2 c => simp [encode]
  | case3 d text ih =>
    simp only [encode, if_true, List.length_cons] at ih ⊢
    omega
  | case4 c d text hc ih =>
    simp only [encode, hc, if_false, List.length_cons] at ih ⊢
    omega

/-- Each short text is what some raw path decodes to. -/
lemma exists_decodesTo {text : Bytes} (hnul : (0 : UInt8) ∉ text) (hlen : text.length ≤ 255) :
    ∃ rawPath, DecodesTo rawPath text := by
  have hraw : HasString (terminated (encode text)) (encode text) :=
    ⟨zero_notMem_encode hnul, [], by simp⟩
  refine ⟨_, (decodesTo_iff hraw text).mpr ?_⟩
  have := length_encode_le text
  rw [shown_eq (by omega), decodeMost_encode]

lemma DecodesTo.zero_notMem {rawPath : Block} {text : Bytes} (h : DecodesTo rawPath text) :
    (0 : UInt8) ∉ text := by
  obtain ⟨raw, buf, -, -, hbuf⟩ := h
  exact hbuf.1

lemma DecodesTo.zero_notMem_segment {rawPath : Block} {text s : Bytes} (h : DecodesTo rawPath text)
    (hs : s ∈ segmentsOf text) : (0 : UInt8) ∉ s := by
  intro h0
  rcases text_cases text with ⟨hnone, -⟩ | ⟨first, rest, hsegments, -, htext⟩
  · rw [hnone] at hs
    cases hs
  · refine h.zero_notMem ?_
    rw [htext, List.mem_append, List.mem_cons]
    exact .inr (.inr (Split.mem_intercalate (hsegments ▸ hs) h0))

/-- What `seperate_query` makes of a text that fits. -/
lemma seperateQuery_of_fits {rawPath : Block} {text : Bytes} (h : DecodesTo rawPath text)
    (hpath : (pathOf text).length ≤ 255) (hfits : QueryFits text) :
    ∃ url pairs, seperateQuery rawPath = .ok (0, url) ∧ HasString url.path (pathOf text) ∧
      url.pathLen = (pathOf text).length ∧ url.queryCount = (segmentsOf text).length ∧
      List.Forall₂ (fun s pair => parsePair s = .ok pair) (segmentsOf text) pairs ∧
      ∀ (i : ℕ) pair, pairs[i]? = some pair → url.queries[i]? = some (some pair) := by
  rcases separateText_cases hpath with ⟨-, pairs, hpairs, hok⟩ | ⟨hbad, -⟩
  · have hnul : (0 : UInt8) ∉ pathOf text := fun hmem =>
      h.zero_notMem ((List.takeWhile_sublist _).subset hmem)
    refine ⟨_, pairs, by rw [seperateQuery_eq h, hok]; rfl, pathCells_hasString hpath hnul, rfl, ?_,
      hpairs, fun i pair hi => ?_⟩
    · rw [hpairs.length_eq]
    · have hlt : i < (pairs.map some).length := by
        rw [List.length_map]
        exact (List.getElem?_eq_some_iff.mp hi).1
      rw [List.getElem?_append_left hlt, List.getElem?_map, hi]
      rfl
  · exact absurd hfits hbad

lemma parsedAlone_of_parsePair {segment : Bytes} {pair : PairT} (hnul : (0 : UInt8) ∉ segment)
    (hamp : chr '&' ∉ segment) (hlen : segment.length ≤ 127) (h : parsePair segment = .ok pair) :
    ParsedAlone segment pair := by
  have hmark : (0 : UInt8) ∉ chr '?' :: segment := by
    rw [List.mem_cons, not_or]
    exact ⟨by decide, hnul⟩
  refine ⟨exists_decodesTo hmark (by rw [List.length_cons]; omega), fun rawPath hdec => ?_⟩
  have hpath : pathOf (chr '?' :: segment) = [] := (pathOf_append List.not_mem_nil segment).1
  have hsegs : segmentsOf (chr '?' :: segment) = [segment] := by
    rw [← List.splitOn_eq_singleton hamp]
    exact (pathOf_append List.not_mem_nil segment).2
  have hfits : QueryFits (chr '?' :: segment) := by
    rw [QueryFits, hsegs]
    refine ⟨by simp, fun s hs f hf => ?_⟩
    rw [List.mem_singleton.mp hs] at hf
    exact ((Split.piece_sublist hf).length_le).trans hlen
  obtain ⟨url, pairs, hok, -, -, hcount, hpairs, hqueries⟩ :=
    seperateQuery_of_fits hdec (by rw [hpath]; simp) hfits
  rw [hsegs] at hcount hpairs
  obtain ⟨pair', rest, hpair', -, rfl⟩ := List.forall₂_cons_left_iff.mp hpairs
  rw [h] at hpair'
  cases hpair'
  exact ⟨url, hok, by simpa using hcount, hqueries 0 pair rfl⟩

lemma getElem?_of_forall₂ {segments : List Bytes} {pairs : List PairT}
    (h : List.Forall₂ (fun s pair => parsePair s = .ok pair) segments pairs) {i : ℕ} {s : Bytes}
    (hi : segments[i]? = some s) : ∃ pair, pairs[i]? = some pair ∧ parsePair s = .ok pair := by
  induction h generalizing i with
  | nil => cases hi
  | cons hpair _ ih =>
    cases i with
    | zero =>
      cases hi
      exact ⟨_, rfl, hpair⟩
    | succ i => exact ih hi

/-- Each segment makes the pair that it makes alone. -/
theorem segments_parsed_alone {rawPath : Block} {path : Bytes} {segments : List Bytes}
    (hmark : chr '?' ∉ path) (hpath : path.length ≤ 255)
    (hsegments : ∀ s ∈ segments, chr '&' ∉ s ∧ s.length ≤ 127) (hcount : segments.length ≤ 10)
    (hdec : DecodesTo rawPath (joined path segments)) :
    ∃ url, seperateQuery rawPath = .ok (0, url) ∧ HasString url.path path ∧
      url.pathLen = path.length ∧ url.queryCount = segments.length ∧
      ∀ (i : ℕ) s, segments[i]? = some s → ∃ pair key value, url.queries[i]? = some (some pair) ∧
        HasString pair.key key ∧ HasString pair.value value ∧ ParsedAlone s pair := by
  obtain ⟨hp, hs⟩ := pathOf_joined hmark fun s hs => (hsegments s hs).1
  have hfits : QueryFits (joined path segments) := by
    rw [QueryFits, hs]
    exact ⟨hcount, fun s hs f hf => ((Split.piece_sublist hf).length_le).trans (hsegments s hs).2⟩
  obtain ⟨url, pairs, hok, hupath, hulen, hucount, hpairs, hqueries⟩ :=
    seperateQuery_of_fits hdec (by rw [hp]; exact hpath) hfits
  rw [hp] at hupath hulen
  rw [hs] at hucount hpairs
  refine ⟨url, hok, hupath, hulen, hucount, fun i s hi => ?_⟩
  obtain ⟨pair, hpair, hparse⟩ := getElem?_of_forall₂ hpairs hi
  have hmem : s ∈ segments := List.mem_of_getElem? hi
  have hnul : (0 : UInt8) ∉ s := fun h0 => hdec.zero_notMem (mem_joined hmem h0)
  obtain ⟨hkey, hvalue⟩ := parsePair_holds hnul hparse
  exact ⟨pair, _, _, hqueries i pair hpair, hkey, hvalue,
    parsedAlone_of_parsePair hnul (hsegments s hmem).1 (hsegments s hmem).2 hparse⟩

/-- An empty segment, and one in which there are three `=`. -/
theorem segments_parsed_alone_three :
    ∃ url, seperateQuery (terminated (ascii ['/', '?', 'a', '=', '=', '=', 'b', '&', '&', 'c'])) =
        .ok (0, url) ∧ HasString url.path (ascii ['/']) ∧ url.pathLen = 1 ∧ url.queryCount = 3 ∧
      ∀ (i : ℕ) s, [ascii ['a', '=', '=', '=', 'b'], [], ascii ['c']][i]? = some s →
        ∃ pair key value, url.queries[i]? = some (some pair) ∧
          HasString pair.key key ∧ HasString pair.value value ∧ ParsedAlone s pair :=
  have hraw : HasString (terminated (ascii ['/', '?', 'a', '=', '=', '=', 'b', '&', '&', 'c']))
      (ascii ['/', '?', 'a', '=', '=', '=', 'b', '&', '&', 'c']) := ⟨by decide, [], by simp⟩
  @segments_parsed_alone _ (ascii ['/']) [ascii ['a', '=', '=', '=', 'b'], [], ascii ['c']]
    (by decide) (by decide) (by decide) (by decide) ((decodesTo_iff hraw _).mpr (by decide))

/-! ### Where a segment is cut -/

/-- The pair has what is before the first `=`, and all that is behind it. -/
def CutAtFirst (segment : Bytes) (pair : PairT) : Prop :=
  HasString pair.key (segment.takeWhile (· ≠ chr '=')) ∧
    HasString pair.value (segment.dropWhile (· ≠ chr '=')).tail

lemma eq_append_of_equals {s : Bytes} (h : chr '=' ∈ s) :
    ∃ k v, s.splitOn (chr '=') = k :: v.splitOn (chr '=') ∧ s.takeWhile (· ≠ chr '=') = k ∧
      (s.dropWhile (· ≠ chr '=')).tail = v ∧ (s.count (chr '=') = 1 ↔ chr '=' ∉ v) := by
  obtain ⟨k, v, rfl, hk⟩ := List.eq_append_cons_of_mem h
  have hall : ∀ c ∈ k, decide (c ≠ chr '=') = true := fun c hc => by
    simpa using fun heq : c = chr '=' => hk (heq ▸ hc)
  refine ⟨k, v, ?_, ?_, ?_, ?_⟩
  · rw [List.splitOn_append_cons_self, List.splitOn_eq_singleton hk]
    rfl
  · rw [List.takeWhile_append_of_pos hall]
    simp
  · rw [List.dropWhile_append_of_pos hall]
    simp
  · rw [List.count_append, List.count_cons_self, List.count_eq_zero_of_not_mem hk,
      ← List.count_eq_zero (a := chr '=') (l := v)]
    omega

/-- Behind a second `=` the value is without what is between the two. -/
lemma pairOf_splitOn_iff {s : Bytes} (h : chr '=' ∈ s) :
    pairOf (s.splitOn (chr '=')) =
        (s.takeWhile (· ≠ chr '='), (s.dropWhile (· ≠ chr '=')).tail) ↔ s.count (chr '=') = 1 := by
  obtain ⟨k, v, hsplit, hkey, hvalue, hcount⟩ := eq_append_of_equals h
  rw [hkey, hvalue, hcount]
  constructor
  · intro hpair hmem
    have hnot := (eq_notMem_pairOf (s.splitOn (chr '=')) fun f hf => Split.sep_notMem hf).2
    rw [show valueOf (s.splitOn (chr '=')) = v from congrArg Prod.snd hpair] at hnot
    exact hnot hmem
  · intro hv
    rw [hsplit, List.splitOn_eq_singleton hv]
    rfl

/-- A segment is cut at its first `=` if and only if it has no other one. -/
theorem cut_at_first_iff {rawPath : Block} {text : Bytes} (hdec : DecodesTo rawPath text)
    (hpath : (pathOf text).length ≤ 255) (hfits : QueryFits text) {i : ℕ} {s : Bytes}
    (hs : (segmentsOf text)[i]? = some s) (heq : chr '=' ∈ s) :
    ∃ url pair, seperateQuery rawPath = .ok (0, url) ∧ url.queries[i]? = some (some pair) ∧
      (CutAtFirst s pair ↔ s.count (chr '=') = 1) := by
  obtain ⟨url, pairs, hok, -, -, -, hpairs, hqueries⟩ := seperateQuery_of_fits hdec hpath hfits
  obtain ⟨pair, hpair, hparse⟩ := getElem?_of_forall₂ hpairs hs
  have hnul : (0 : UInt8) ∉ s := hdec.zero_notMem_segment (List.mem_of_getElem? hs)
  obtain ⟨hkey, hvalue⟩ := parsePair_holds hnul hparse
  refine ⟨url, pair, hok, hqueries i pair hpair, ?_⟩
  rw [← pairOf_splitOn_iff heq, pairOf, Prod.mk.injEq]
  constructor
  · rintro ⟨hkey', hvalue'⟩
    exact ⟨hkey.unique hkey', hvalue.unique hvalue'⟩
  · rintro ⟨hk, hv⟩
    rw [hk] at hkey
    rw [hv] at hvalue
    exact ⟨hkey, hvalue⟩

/-- A segment with one `=`, and an empty value. -/
theorem cut_at_first_iff_empty :
    ∃ url pair, seperateQuery (terminated (ascii ['/', '?', 'a', '='])) = .ok (0, url) ∧
      url.queries[0]? = some (some pair) ∧
      (CutAtFirst (ascii ['a', '=']) pair ↔ (ascii ['a', '=']).count (chr '=') = 1) :=
  have hraw : HasString (terminated (ascii ['/', '?', 'a', '='])) (ascii ['/', '?', 'a', '=']) :=
    ⟨by decide, [], by simp⟩
  @cut_at_first_iff _ (ascii ['/', '?', 'a', '=']) ((decodesTo_iff hraw _).mpr (by decide))
    (by decide) (by decide) 0 (ascii ['a', '=']) (by decide) (by decide)

/-- The second `=` of `token=a/b=c` cuts the key to three characters, and `a/b` is lost. -/
theorem second_equals_cuts :
    ∃ url pair, seperateQuery (terminated (ascii "/?token=a/b=c".toList)) = .ok (0, url) ∧
      url.queries[0]? = some (some pair) ∧ HasString pair.key (ascii ['t', 'o', 'k']) ∧
      HasString pair.value (ascii ['c']) ∧ ¬ CutAtFirst (ascii "token=a/b=c".toList) pair := by
  have hraw : HasString (terminated (ascii "/?token=a/b=c".toList)) (ascii "/?token=a/b=c".toList) :=
    ⟨by decide, [], by simp⟩
  have hdec := (decodesTo_iff hraw (ascii "/?token=a/b=c".toList)).mpr (by decide)
  obtain ⟨url, pairs, hok, -, -, -, hpairs, hqueries⟩ :=
    seperateQuery_of_fits hdec (by decide) (by decide)
  obtain ⟨pair, hpair, hparse⟩ := getElem?_of_forall₂ hpairs
    (show (segmentsOf _)[0]? = some (ascii "token=a/b=c".toList) by decide)
  obtain ⟨hkey, hvalue⟩ := parsePair_holds (by decide) hparse
  refine ⟨url, pair, hok, hqueries 0 pair hpair, hkey, hvalue, fun hcut => ?_⟩
  exact absurd (hkey.unique hcut.1) (by decide)

end Ccybe
