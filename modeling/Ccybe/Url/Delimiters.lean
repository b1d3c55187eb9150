import Ccybe.Url.Separate

/-!
# Escaped delimiters

`seperate_query` decodes before it cuts, so that an escaped `?` or `=` cuts as a literal one does.
It does what cutting the raw text and decoding the pieces would do if and only if no escape of the
path stands for a `?`, no escape of a last field for a `=`, and those in the fields before leave
the key as it is.
-/

namespace Ccybe

open CSem

/-! ### Decoding the pieces -/

/-- `sep` is in no escape. -/
def Outside (sep : UInt8) : Prop := ∀ a b x, escaped a b = some x → a ≠ sep ∧ b ≠ sep

def decoded (url : Bytes) : Bytes := (decode url).getD []

lemma outside_pct : Outside (chr '%') := fun _ _ _ h => escaped_ne h

lemma outside_of_codes {sep : UInt8} (h₂ : get2Char sep = 0) (h₃ : get3Char sep = 0)
    (hne : sep ≠ chr '2' ∧ sep ≠ chr '3') : Outside sep := by
  rintro a b x hx
  constructor
  · rintro rfl
    simp [escaped, hne] at hx
  · rintro rfl
    simp [escaped, h₂, h₃] at hx

lemma outside_mark : Outside (chr '?') := outside_of_codes (by decide) (by decide) (by decide)

lemma outside_amp : Outside (chr '&') := outside_of_codes (by decide) (by decide) (by decide)

lemma outside_eq : Outside (chr '=') := outside_of_codes (by decide) (by decide) (by decide)

/-- A text may be decoded in two parts where no escape is cut. -/
lemma decode_cut {c : UInt8} (hc : Outside c) (u w : Bytes) :
    decode (u ++ c :: w) = (decode u).bind fun d => (decode (c :: w)).map (d ++ ·) := by
  induction u using escape_induction with
  | nil => simp [decode_nil]
  | char e u he ih =>
    rw [List.cons_append, decode_cons he, decode_cons he, ih]
    cases decode u with
    | none => rfl
    | some d => simp [Option.map_map, Function.comp_def]
  | escape a b x u hx ih =>
    simp only [List.cons_append]
    rw [decode_escape hx, decode_escape hx, ih]
    cases decode u with
    | none => rfl
    | some d => simp [Option.map_map, Function.comp_def]
  | pct u hu =>
    have hincomplete : ¬ Completes (u ++ c :: w) := by
      intro hcompletes
      match u with
      | [] =>
        cases w with
        | nil => exact hcompletes
        | cons b w =>
          obtain ⟨x, hx⟩ := Option.isSome_iff_exists.mp hcompletes
          exact (hc c b x hx).1 rfl
      | [a] =>
        obtain ⟨x, hx⟩ := Option.isSome_iff_exists.mp hcompletes
        exact (hc a c x hx).2 rfl
      | a :: b :: u => exact hu hcompletes
    rw [List.cons_append, decode_pct hincomplete, decode_pct hu]
    rfl

section Separator

variable {sep : UInt8} (hout : Outside sep) (hpct : sep ≠ chr '%')

include hout hpct

lemma decode_sep (u w : Bytes) :
    decode (u ++ sep :: w) = (decode u).bind fun d => (decode w).map fun e => d ++ sep :: e := by
  rw [decode_cut hout, decode_cons hpct]
  cases decode u with
  | none => rfl
  | some d => simp [Option.map_map, Function.comp_def]

/-- Joined pieces are decoded piece by piece. -/
lemma decode_intercalate {raws : List Bytes} (h : ∀ r ∈ raws, (decode r).isSome) :
    decode ([sep].intercalate raws) = some ([sep].intercalate (raws.map decoded)) := by
  induction raws with
  | nil => simp [decode_nil]
  | cons r raws ih =>
    obtain ⟨d, hd⟩ := Option.isSome_iff_exists.mp (h r List.mem_cons_self)
    have hdecoded : decoded r = d := by rw [decoded, hd]; rfl
    cases raws with
    | nil => simp [hd, hdecoded]
    | cons s raws =>
      rw [List.intercalate_cons_cons, List.append_assoc, List.singleton_append, decode_sep hout hpct, hd,
        ih fun r hr => h r (List.mem_cons_of_mem _ hr)]
      simp [hdecoded, List.intercalate_cons_cons]

lemma isSome_of_decode_intercalate {raws : List Bytes}
    (h : (decode ([sep].intercalate raws)).isSome) : ∀ r ∈ raws, (decode r).isSome := by
  induction raws with
  | nil => simp
  | cons r raws ih =>
    cases raws with
    | nil => simpa using h
    | cons s raws =>
      rw [List.intercalate_cons_cons, List.append_assoc, List.singleton_append, decode_sep hout hpct] at h
      cases hr : decode r with
      | none => simp [hr] at h
      | some d =>
        rw [hr, Option.bind_some, Option.isSome_map] at h
        exact List.forall_mem_cons.mpr ⟨by rw [hr]; rfl, ih h⟩

end Separator

lemma escaped_cases {a b x : UInt8} (h : escaped a b = some x) :
    x = get2Char b ∨ x = get3Char b := by
  simp only [escaped] at h
  split_ifs at h with h₀ h₂ h₃ <;> simp_all

/-- No escape stands for a `&`. -/
lemma escaped_ne_amp {a b x : UInt8} (h : escaped a b = some x) : x ≠ chr '&' := by
  rcases escaped_cases h with rfl | rfl
  · rw [get2Char]
    split_ifs <;> decide
  · rw [get3Char]
    split_ifs <;> decide

/-- No escape stands for its last character. -/
lemma escaped_ne_code {a b x : UInt8} (h : escaped a b = some x) : x ≠ b := by
  have hx := escaped_ne_zero h
  have h₂ : get2Char b = b → get2Char b = 0 := by
    intro hb
    rw [get2Char] at hb ⊢
    split_ifs at hb ⊢ <;> first | rfl | (rename_i hcode; rw [hcode] at hb; exact absurd hb (by decide))
  have h₃ : get3Char b = b → get3Char b = 0 := by
    intro hb
    rw [get3Char] at hb ⊢
    split_ifs at hb ⊢ <;> first | rfl | (rename_i hcode; rw [hcode] at hb; exact absurd hb (by decide))
  rcases escaped_cases h with rfl | rfl
  · exact fun hb => hx (h₂ hb)
  · exact fun hb => hx (h₃ hb)

lemma amp_notMem_decode {url d : Bytes} (h : chr '&' ∉ url) (hd : decode url = some d) :
    chr '&' ∉ d :=
  notMem_decode (fun _ _ hx => escaped_ne_amp hx rfl) h hd

/-! ### The key of a segment -/

/-- The last field has no `=`, and of the stretches between two `=` in the other ones none is
shorter than all these fields. -/
def CutAlike (fields : List Bytes) : Prop :=
  (∀ f ∈ fields.getLast?, chr '=' ∉ f) ∧
    ∀ g ∈ fields.dropLast.flatMap (·.splitOn (chr '=')), ∃ f ∈ fields.dropLast, f.length ≤ g.length

/-- Two fronts of a text are the same if they have the same length. -/
lemma prefix_eq_iff {a b l : Bytes} (ha : a <+: l) (hb : b <+: l) : a = b ↔ a.length = b.length := by
  constructor
  · rintro rfl
    rfl
  · intro hlen
    exact (List.prefix_of_prefix_length_le ha hb hlen.le).eq_of_length hlen

/-- Cutting the fields in front leaves the key if and only if no stretch is shorter than all of
them. -/
lemma shorten_flatMap_iff {f g₀ : Bytes} {gs : List Bytes} (rest : List Bytes)
    (h : f.splitOn (chr '=') = g₀ :: gs) :
    shorten g₀ (gs ++ rest.flatMap (·.splitOn (chr '='))) = shorten f rest ↔
      ∀ g ∈ (f :: rest).flatMap (·.splitOn (chr '=')), ∃ f' ∈ f :: rest, f'.length ≤ g.length := by
  have hall : (f :: rest).flatMap (·.splitOn (chr '=')) =
      g₀ :: (gs ++ rest.flatMap (·.splitOn (chr '='))) := by
    rw [List.flatMap_cons, h, List.cons_append]
  obtain ⟨hfront, hle, f', hf', hlen'⟩ := shorten_spec rest f
  obtain ⟨hfront₀, hle₀, g, hg, hlen₀⟩ :=
    shorten_spec (gs ++ rest.flatMap (·.splitOn (chr '='))) g₀
  rw [prefix_eq_iff (hfront₀.trans (Split.head_splitOn_isPrefix h)) hfront]
  rw [← hall] at hle₀ hg
  -- a field is not shorter than the stretches in it
  have hshorter : (shorten g₀ (gs ++ rest.flatMap (·.splitOn (chr '=')))).length ≤
      (shorten f rest).length := by
    obtain ⟨first, pieces, hpieces⟩ := List.exists_cons_of_ne_nil (List.splitOn_ne_nil (chr '=') f')
    have hmem : first ∈ (f :: rest).flatMap (·.splitOn (chr '=')) :=
      List.mem_flatMap.mpr ⟨f', hf', by rw [hpieces]; exact List.mem_cons_self⟩
    calc (shorten g₀ (gs ++ rest.flatMap (·.splitOn (chr '=')))).length ≤ first.length := hle₀ _ hmem
      _ ≤ f'.length := (Split.head_splitOn_isPrefix hpieces).length_le
      _ = (shorten f rest).length := hlen'
  constructor
  · intro hlen g hg
    exact ⟨f', hf', by rw [hlen', ← hlen]; exact hle₀ g hg⟩
  · intro hall
    obtain ⟨f'', hf'', hlen''⟩ := hall g hg
    exact le_antisymm hshorter (((hle f'' hf'').trans hlen'').trans hlen₀.le)

/-- Cutting the fields at the `=` in them leaves key and value as they are. -/
lemma pairOf_flatMap_iff {fields : List Bytes} (h : fields ≠ []) :
    pairOf (fields.flatMap (·.splitOn (chr '='))) = pairOf fields ↔ CutAlike fields := by
  have hpieces := eq_notMem_pairOf (fields.flatMap (·.splitOn (chr '='))) fun g hg => by
    obtain ⟨f, -, hg⟩ := List.mem_flatMap.mp hg
    exact Split.sep_notMem hg
  rw [pairOf, pairOf, Prod.mk.injEq, CutAlike]
  rcases fields_cases fields h with ⟨last, rfl⟩ | ⟨f, rest, last, rfl⟩
  · by_cases heq : chr '=' ∈ last
    · refine iff_of_false (fun hpair => hpieces.1 ?_) (fun halike => halike.1 last rfl heq)
      rw [hpair.1]
      exact heq
    · refine iff_of_true ?_ ⟨?_, by simp⟩
      · rw [List.flatMap_singleton, List.splitOn_eq_singleton heq]
        exact ⟨rfl, rfl⟩
      · rintro f ⟨⟩
        exact heq
  · have hdrop : (f :: (rest ++ [last])).dropLast = f :: rest := by
      rw [← List.cons_append, List.dropLast_concat]
    have hgetLast : (f :: (rest ++ [last])).getLast? = some last := by
      rw [← List.cons_append, List.getLast?_concat]
    by_cases heq : chr '=' ∈ last
    · refine iff_of_false (fun hpair => hpieces.2 ?_) (fun halike => halike.1 last hgetLast heq)
      rw [hpair.2, valueOf_concat]
      exact heq
    · cases hfirst : f.splitOn (chr '=') with
      | nil => exact absurd hfirst (List.splitOn_ne_nil _ _)
      | cons g₀ gs =>
        have hcut : (f :: (rest ++ [last])).flatMap (·.splitOn (chr '=')) =
            g₀ :: ((gs ++ rest.flatMap (·.splitOn (chr '='))) ++ [last]) := by
          simp [hfirst, List.splitOn_eq_singleton heq]
        rw [hcut, keyOf_concat, keyOf_concat, valueOf_concat, valueOf_concat, hdrop, hgetLast,
          shorten_flatMap_iff rest hfirst]
        refine ⟨fun hpair => ⟨?_, hpair.1⟩, fun halike => ⟨halike.2, rfl⟩⟩
        rintro l ⟨⟩
        exact heq

/-! ### What a URL holds -/

/-- Path and pairs, as strings. -/
def UrlT.Holds (url : UrlT) (path : Bytes) (pairs : List (Bytes × Bytes)) : Prop :=
  HasString url.path path ∧ url.queryCount = pairs.length ∧
    ∀ (i : ℕ) p, pairs[i]? = some p → ∃ pair, url.queries[i]? = some (some pair) ∧
      HasString pair.key p.1 ∧ HasString pair.value p.2

/-- The segments behind the first `?`, each with its fields. -/
def piecesOf (text : Bytes) : List (List Bytes) := (segmentsOf text).map (·.splitOn (chr '='))

/-- `url` holds what the pieces of the raw text decode to. -/
def CutFirst (raw : Bytes) (url : UrlT) : Prop :=
  (decode (pathOf raw)).isSome ∧ (∀ fields ∈ piecesOf raw, ∀ f ∈ fields, (decode f).isSome) ∧
    url.Holds (decoded (pathOf raw)) ((piecesOf raw).map fun fields => pairOf (fields.map decoded))

/-- No escape is at the end, none in the path stands for a `?`, and those in the segments that
stand for a `=` leave the pairs as they are. -/
def DelimitersAlike (raw : Bytes) : Prop :=
  chr '%' ∉ lastThree raw ∧ chr '?' ∉ decoded (pathOf raw) ∧
    ∀ fields ∈ piecesOf raw, CutAlike (fields.map decoded)

lemma UrlT.Holds.unique {url : UrlT} {path path' : Bytes} {pairs pairs' : List (Bytes × Bytes)}
    (h : url.Holds path pairs) (h' : url.Holds path' pairs') : path = path' ∧ pairs = pairs' := by
  obtain ⟨hpath, hcount, hpairs⟩ := h
  obtain ⟨hpath', hcount', hpairs'⟩ := h'
  refine ⟨hpath.unique hpath', List.ext_getElem (by omega) fun i hi hi' => ?_⟩
  obtain ⟨pair, hpair, hkey, hvalue⟩ := hpairs i _ (List.getElem?_eq_getElem hi)
  obtain ⟨pair', hpair', hkey', hvalue'⟩ := hpairs' i _ (List.getElem?_eq_getElem hi')
  rw [hpair] at hpair'
  cases hpair'
  exact Prod.ext (hkey.unique hkey') (hvalue.unique hvalue')

lemma seperateQuery_holds {rawPath : Block} {text : Bytes} (h : DecodesTo rawPath text)
    (hpath : (pathOf text).length ≤ 255) (hfits : QueryFits text) :
    ∃ url, seperateQuery rawPath = .ok (0, url) ∧
      url.Holds (pathOf text) ((piecesOf text).map pairOf) := by
  obtain ⟨url, pairs, hok, hupath, -, hcount, hpairs, hqueries⟩ := seperateQuery_of_fits h hpath hfits
  refine ⟨url, hok, hupath, by simpa [piecesOf] using hcount, fun i p hi => ?_⟩
  simp only [piecesOf, List.map_map, List.getElem?_map, Option.map_eq_some_iff] at hi
  obtain ⟨s, hs, rfl⟩ := hi
  obtain ⟨pair, hpair, hparse⟩ := getElem?_of_forall₂ hpairs hs
  have hnul : (0 : UInt8) ∉ s := h.zero_notMem_segment (List.mem_of_getElem? hs)
  exact ⟨pair, hqueries i pair hpair, parsePair_holds hnul hparse⟩

/-! ### The pieces of a text -/

section Separator

variable {sep : UInt8} (hout : Outside sep) (hpct : sep ≠ chr '%')

include hout hpct

lemma decode_isSome_splitOn (raw : Bytes) :
    (decode raw).isSome ↔ ∀ r ∈ raw.splitOn sep, (decode r).isSome := by
  constructor
  · intro h
    have hraw : [sep].intercalate (raw.splitOn sep) = raw := List.intercalate_splitOn sep
    rw [← hraw] at h
    exact isSome_of_decode_intercalate hout hpct h
  · intro h
    have := decode_intercalate hout hpct h
    rw [List.intercalate_splitOn] at this
    rw [this]
    rfl

lemma decoded_splitOn {raw : Bytes} (h : (decode raw).isSome) :
    decoded raw = [sep].intercalate ((raw.splitOn sep).map decoded) := by
  have := decode_intercalate hout hpct ((decode_isSome_splitOn hout hpct raw).mp h)
  rw [List.intercalate_splitOn] at this
  rw [decoded, this]
  rfl

end Separator

lemma decode_eq_decoded {raw : Bytes} (h : (decode raw).isSome) : decode raw = some (decoded raw) := by
  obtain ⟨d, hd⟩ := Option.isSome_iff_exists.mp h
  rw [decoded, hd]
  rfl

/-- A text is decodable if and only if its pieces are. -/
lemma decode_isSome_iff (raw : Bytes) :
    (decode raw).isSome ↔ (decode (pathOf raw)).isSome ∧
      ∀ fields ∈ piecesOf raw, ∀ f ∈ fields, (decode f).isSome := by
  have hpieces : (∀ fields ∈ piecesOf raw, ∀ f ∈ fields, (decode f).isSome) ↔
      ∀ s ∈ segmentsOf raw, (decode s).isSome := by
    rw [piecesOf, List.forall_mem_map]
    exact forall₂_congr fun s _ => (decode_isSome_splitOn outside_eq (by decide) s).symm
  rw [hpieces]
  rcases text_cases raw with ⟨hnone, hraw⟩ | ⟨s, segments, hsegments, hamp, hraw⟩
  · rw [hnone, ← hraw]
    simp
  · have hquery : (decode ([chr '&'].intercalate (s :: segments))).isSome ↔
        ∀ t ∈ s :: segments, (decode t).isSome := by
      rw [decode_isSome_splitOn outside_amp (by decide),
        List.splitOn_intercalate _ hamp (List.cons_ne_nil _ _)]
    rw [hsegments, ← hquery]
    conv_lhs => rw [hraw, decode_sep outside_mark (by decide)]
    cases decode (pathOf raw) with
    | none => simp
    | some d => simp

lemma cutFirst_iff {raw text : Bytes} {url : UrlT}
    (h : url.Holds (pathOf text) ((piecesOf text).map pairOf)) :
    CutFirst raw url ↔ (decode raw).isSome ∧ decoded (pathOf raw) = pathOf text ∧
      (piecesOf raw).map (fun fields => pairOf (fields.map decoded)) = (piecesOf text).map pairOf := by
  rw [CutFirst, ← and_assoc, ← decode_isSome_iff]
  refine and_congr_right fun _ => ⟨fun hheld => hheld.unique h, ?_⟩
  rintro ⟨hpath, hpairs⟩
  rw [hpath, hpairs]
  exact h

/-! ### Cutting before and after the decoding -/

lemma decoded_eq {raw text : Bytes} (h : decode raw = some text) : decoded raw = text := by
  rw [decoded, h]
  rfl

lemma fields_ne_nil {raw : Bytes} {fields : List Bytes} (h : fields ∈ piecesOf raw) : fields ≠ [] := by
  obtain ⟨s, -, rfl⟩ := List.mem_map.mp h
  exact List.splitOn_ne_nil _ _

/-- When no escape stands for a `?`, the decoded text has the decoded pieces, cut at the `=` that
came from escapes. -/
lemma pieces_of_decode {raw text : Bytes} (hdec : decode raw = some text)
    (hmark : chr '?' ∉ decoded (pathOf raw)) :
    pathOf text = decoded (pathOf raw) ∧
      piecesOf text = (piecesOf raw).map fun fields =>
        (fields.map decoded).flatMap (·.splitOn (chr '=')) := by
  rcases text_cases raw with ⟨hnone, hraw⟩ | ⟨s, segments, hsegments, hamp, hraw⟩
  · rw [← hraw, decoded_eq hdec] at hmark ⊢
    have hjoined := @pathOf_joined text [] hmark (by simp)
    rw [joined, if_pos rfl] at hjoined
    rw [piecesOf, piecesOf, hjoined.2, hnone]
    exact ⟨hjoined.1, rfl⟩
  · have hpieces : (decode (pathOf raw)).isSome ∧
        ∀ fields ∈ piecesOf raw, ∀ f ∈ fields, (decode f).isSome :=
      (decode_isSome_iff raw).mp (by rw [hdec]; rfl)
    have hsome : ∀ t ∈ s :: segments, (decode t).isSome := fun t ht => by
      refine (decode_isSome_splitOn outside_eq (by decide) t).mpr (hpieces.2 _ ?_)
      exact List.mem_map_of_mem (hsegments ▸ ht)
    have htext : text = decoded (pathOf raw) ++ chr '?' ::
        [chr '&'].intercalate ((s :: segments).map decoded) := by
      rw [hraw, decode_sep outside_mark (by decide), decode_eq_decoded hpieces.1, Option.bind_some,
        decode_intercalate outside_amp (by decide) hsome] at hdec
      exact (Option.some.inj hdec).symm
    have hamp' : ∀ t ∈ (s :: segments).map decoded, chr '&' ∉ t := by
      rw [List.forall_mem_map]
      exact fun t ht => amp_notMem_decode (hamp t ht) (decode_eq_decoded (hsome t ht))
    obtain ⟨hpath, hsegs⟩ := pathOf_append hmark ([chr '&'].intercalate ((s :: segments).map decoded))
    rw [← htext] at hpath hsegs
    refine ⟨hpath, ?_⟩
    rw [piecesOf, piecesOf, hsegs, List.splitOn_intercalate _ hamp' (by simp), hsegments, List.map_map,
      List.map_map]
    refine List.map_congr_left fun t ht => ?_
    rw [Function.comp_apply, Function.comp_apply,
      decoded_splitOn outside_eq (by decide) (hsome t ht),
      Split.splitOn_intercalate_flatMap (by simp)]

/-- Where each escape is decoded, cutting first makes the same path and pairs if and only if the
delimiters that escapes stand for change nothing. -/
lemma cut_iff_of_decode {raw text : Bytes} (hdec : decode raw = some text) :
    (decoded (pathOf raw) = pathOf text ∧
        (piecesOf raw).map (fun fields => pairOf (fields.map decoded)) = (piecesOf text).map pairOf) ↔
      chr '?' ∉ decoded (pathOf raw) ∧ ∀ fields ∈ piecesOf raw, CutAlike (fields.map decoded) := by
  by_cases hmark : chr '?' ∈ decoded (pathOf raw)
  · refine iff_of_false (fun h => notMem_pathOf text ?_) (fun h => h.1 hmark)
    rw [← h.1]
    exact hmark
  · obtain ⟨hpath, hpieces⟩ := pieces_of_decode hdec hmark
    rw [hpath, hpieces, List.map_map, List.map_inj_left]
    refine and_congr (iff_of_true rfl hmark) (forall₂_congr fun fields hfields => ?_)
    rw [Function.comp_apply, eq_comm]
    exact pairOf_flatMap_iff (by simpa using fields_ne_nil hfields)

/-- The last character of a pair is that of the last field. -/
lemma pairOf_last {as bs : List Bytes} {l m : Bytes} {x y : UInt8}
    (h : pairOf (as ++ [l ++ [x]]) = pairOf (bs ++ [m ++ [y]])) : x = y := by
  have hpair := Prod.mk.inj h
  cases as with
  | nil =>
    cases bs with
    | nil =>
      have hkey : l ++ [x] = m ++ [y] := hpair.1
      exact List.singleton_inj.mp (List.append_inj' hkey rfl).2
    | cons b bs =>
      have hvalue := hpair.2
      rw [List.cons_append, valueOf_concat] at hvalue
      simp [valueOf] at hvalue
  | cons a as =>
    have hvalue := hpair.2
    cases bs with
    | nil =>
      rw [List.cons_append, valueOf_concat] at hvalue
      simp [valueOf] at hvalue
    | cons b bs =>
      rw [List.cons_append, List.cons_append, valueOf_concat, valueOf_concat] at hvalue
      exact List.singleton_inj.mp (List.append_inj' hvalue rfl).2

/-- A tail without delimiters belongs to the last field of the last segment. -/
lemma piecesOf_append (u : Bytes) {v : Bytes} (hmark : chr '?' ∉ v) (hamp : chr '&' ∉ v)
    (heq : chr '=' ∉ v) (h : piecesOf (u ++ v) ≠ []) :
    ∃ init fields f, piecesOf (u ++ v) = init ++ [fields ++ [f ++ v]] := by
  have hmem : chr '?' ∈ u := by
    rcases text_cases (u ++ v) with ⟨hnone, -⟩ | ⟨s, segments, -, -, htext⟩
    · exact absurd (by rw [piecesOf, hnone]; rfl) h
    · have hmem : chr '?' ∈ u ++ v := by
        rw [htext]
        simp
      rcases List.mem_append.mp hmem with hu | hv
      · exact hu
      · exact absurd hv hmark
  obtain ⟨path, query, rfl, hpath⟩ := List.eq_append_cons_of_mem hmem
  obtain ⟨init, last, hsegs⟩ := Split.splitOn_append_of_notMem query hamp
  obtain ⟨fields, f, hfields⟩ := Split.splitOn_append_of_notMem last heq
  refine ⟨init.map (·.splitOn (chr '=')), fields, f, ?_⟩
  rw [piecesOf, List.append_assoc, List.cons_append, (pathOf_append hpath _).2, hsegs, List.map_append,
    List.map_singleton, hfields]

lemma pathOf_of_pieces {text : Bytes} (h : piecesOf text = []) : pathOf text = text := by
  rcases text_cases text with ⟨-, htext⟩ | ⟨s, segments, hsegments, -, -⟩
  · exact htext.symm
  · rw [piecesOf, hsegments] at h
    cases h

lemma sep_notMem_escape {sep a b x : UInt8} (hout : Outside sep) (hpct : sep ≠ chr '%')
    (hx : escaped a b = some x) : sep ∉ [chr '%', a, b] := by
  obtain ⟨ha, hb⟩ := hout a b x hx
  simp only [List.mem_cons, List.not_mem_nil, or_false, not_or]
  exact ⟨hpct, ha.symm, hb.symm⟩

lemma decode_append_escape {a b x : UInt8} (hx : escaped a b = some x) (f : Bytes) :
    decode (f ++ [chr '%', a, b]) = (decode f).map (· ++ [x]) := by
  rw [decode_cut outside_pct, decode_escape hx, decode_nil]
  cases decode f with
  | none => rfl
  | some d => rfl

/-- What the loop copies at the end of a text that can be decoded is one escape. -/
lemma escape_of_last {raw text : Bytes} (hmost : decodeMost raw = some text)
    (hlast : chr '%' ∈ lastThree raw) (hraw : (decode raw).isSome) :
    ∃ u d a b x, raw = u ++ [chr '%', a, b] ∧ text = d ++ [chr '%', a, b] ∧ decode u = some d ∧
      escaped a b = some x := by
  obtain ⟨u, v, d, rfl, rfl, hu, hv, ⟨-, hnot⟩ | ⟨w, rfl⟩⟩ := decodeMost_some hmost
  · exact absurd hlast hnot
  · have hcompletes : Completes w := by
      by_contra hbad
      rw [decode_cut outside_pct, decode_pct hbad, hu] at hraw
      cases hraw
    match w, hcompletes with
    | [a, b], hcompletes =>
      obtain ⟨x, hx⟩ := Option.isSome_iff_exists.mp hcompletes
      exact ⟨u, d, a, b, x, rfl, rfl, hu, hx⟩
    | a :: b :: c :: w, _ =>
      simp only [List.length_cons] at hv
      omega

/-- An escape at the end, which the loop copies, changes the last piece. -/
lemma not_cut_of_last {raw text : Bytes} (hmost : decodeMost raw = some text)
    (hlast : chr '%' ∈ lastThree raw) (hraw : (decode raw).isSome) :
    ¬ (decoded (pathOf raw) = pathOf text ∧
      (piecesOf raw).map (fun fields => pairOf (fields.map decoded)) =
        (piecesOf text).map pairOf) := by
  rintro ⟨hpath, hpairs⟩
  obtain ⟨u, d, a, b, x, rfl, rfl, hu, hx⟩ := escape_of_last hmost hlast hraw
  have hmark := sep_notMem_escape outside_mark (by decide) hx
  have hamp := sep_notMem_escape outside_amp (by decide) hx
  have heq := sep_notMem_escape outside_eq (by decide) hx
  have hlen := congrArg List.length hpairs
  rw [List.length_map, List.length_map] at hlen
  by_cases hnone : piecesOf (u ++ [chr '%', a, b]) = []
  · have hnone' : piecesOf (d ++ [chr '%', a, b]) = [] := by
      rw [hnone, List.length_nil] at hlen
      exact List.length_eq_zero_iff.mp hlen.symm
    have hdec : decode (u ++ [chr '%', a, b]) = some (d ++ [x]) := by
      rw [decode_append_escape hx, hu]
      rfl
    rw [pathOf_of_pieces hnone, pathOf_of_pieces hnone', decoded_eq hdec] at hpath
    have := congrArg List.length hpath
    simp at this
  · have htext : piecesOf (d ++ [chr '%', a, b]) ≠ [] := by
      intro hnil
      rw [hnil, List.length_nil, List.length_eq_zero_iff] at hlen
      exact hnone hlen
    obtain ⟨init, fields, f, hpieces⟩ := piecesOf_append u hmark hamp heq hnone
    obtain ⟨init', fields', f', hpieces'⟩ := piecesOf_append d hmark hamp heq htext
    have hlastPair := congrArg List.getLast? hpairs
    rw [hpieces, hpieces', List.map_append, List.map_append, List.map_singleton, List.map_singleton,
      List.getLast?_concat, List.getLast?_concat, Option.some.injEq, List.map_append,
      List.map_singleton] at hlastPair
    have hfield : (decode (f ++ [chr '%', a, b])).isSome := by
      refine ((decode_isSome_iff _).mp hraw).2 (fields ++ [f ++ [chr '%', a, b]]) ?_ _ (by simp)
      rw [hpieces]
      simp
    rw [decode_append_escape hx, Option.isSome_map] at hfield
    have hdecoded : decoded (f ++ [chr '%', a, b]) = decoded f ++ [x] := by
      rw [decoded, decode_append_escape hx, decode_eq_decoded hfield]
      rfl
    have hend : f' ++ [chr '%', a, b] = (f' ++ [chr '%', a]) ++ [b] := by simp
    rw [hdecoded, hend] at hlastPair
    exact escaped_ne_code hx (pairOf_last hlastPair)

/-- `seperate_query` holds what the pieces of the raw text decode to if and only if no escaped
delimiter cuts otherwise. -/
theorem escaped_delimiters_iff {rawPath : Block} {raw text : Bytes} (hraw : HasString rawPath raw)
    (hint : raw.length ≤ 2147483647) (hdec : DecodesTo rawPath text)
    (hpath : (pathOf text).length ≤ 255) (hfits : QueryFits text) :
    ∃ url, seperateQuery rawPath = .ok (0, url) ∧ (CutFirst raw url ↔ DelimitersAlike raw) := by
  obtain ⟨url, hok, hheld⟩ := seperateQuery_holds hdec hpath hfits
  refine ⟨url, hok, ?_⟩
  rw [decodesTo_iff hraw, shown_eq hint] at hdec
  rw [cutFirst_iff hheld, DelimitersAlike]
  by_cases hlast : chr '%' ∈ lastThree raw
  · exact iff_of_false (fun h => not_cut_of_last hdec hlast h.1 h.2) (fun h => h.1 hlast)
  · have hall := decodeMost_of_notMem hlast hdec
    exact and_congr (iff_of_true (by rw [hall]; rfl) hlast) (cut_iff_of_decode hall)

/-- An escaped space in the path and an escaped `/` in a value. -/
theorem escaped_delimiters_iff_space :
    ∃ url, seperateQuery (terminated (ascii "/my%20file?a=b%2Fcde".toList)) = .ok (0, url) ∧
      (CutFirst (ascii "/my%20file?a=b%2Fcde".toList) url ↔
        DelimitersAlike (ascii "/my%20file?a=b%2Fcde".toList)) :=
  have hraw : HasString (terminated (ascii "/my%20file?a=b%2Fcde".toList))
      (ascii "/my%20file?a=b%2Fcde".toList) := ⟨by decide, [], by simp⟩
  @escaped_delimiters_iff _ _ (ascii "/my file?a=b/cde".toList) hraw (by decide)
    ((decodesTo_iff hraw _).mpr (by decide)) (by decide) (by decide)

/-- The escaped `=` of the example in the source cuts the value, and the key with it. -/
theorem escaped_equals_cuts :
    ∃ url, seperateQuery (terminated (ascii "/?token=a%2Fb%3Dc".toList)) = .ok (0, url) ∧
      ¬ CutFirst (ascii "/?token=a%2Fb%3Dc".toList) url := by
  have hraw : HasString (terminated (ascii "/?token=a%2Fb%3Dc".toList))
      (ascii "/?token=a%2Fb%3Dc".toList) := ⟨by decide, [], by simp⟩
  have hdec : DecodesTo (terminated (ascii "/?token=a%2Fb%3Dc".toList)) (ascii "/?token=a/b=c".toList) :=
    (decodesTo_iff hraw _).mpr (by decide)
  obtain ⟨url, hok, hheld⟩ := seperateQuery_holds hdec (by decide) (by decide)
  refine ⟨url, hok, fun hcut => ?_⟩
  have hpairs := ((cutFirst_iff hheld).mp hcut).2.2
  revert hpairs
  decide

end Ccybe
