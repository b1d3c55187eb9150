import Ccybe.Url.Pairs
import Mathlib.Data.List.Forall2

/-!
# The segments of a query

The loop of `seperate_query` goes through the decoded text. Up to the first `?` it fills the
path, then it fills one pair for each segment between two `&`. What it does in a segment depends
on that segment alone, and it stays inside the arrays as long as there are at most ten segments
that fit.
-/

namespace Ccybe

open CSem

lemma exists_parsePairs {segments : List Bytes} (h : ∀ s ∈ segments, SegmentFits s) :
    ∃ pairs, List.Forall₂ (fun s pair => parsePair s = .ok pair) segments pairs := by
  induction segments with
  | nil => exact ⟨[], .nil⟩
  | cons s segments ih =>
    obtain ⟨pairs, hpairs⟩ := ih fun t ht => h t (List.mem_cons_of_mem _ ht)
    rcases parsePair_cases s with ⟨-, pair, hpair⟩ | ⟨hfit, -⟩
    · exact ⟨pair :: pairs, .cons hpair hpairs⟩
    · exact absurd (h s List.mem_cons_self) hfit

/-! ### The loop on the query -/

/-- The end of `seperate_query`. -/
def QueryScan.finish (s : QueryScan) : Eval UrlT := do
  let url ← s.url.storePath 0
  if s.found then
    let url ← url.storeValue s.j 0
    url.nextQuery
  else pure url

/-- `seperate_query` behind the decoding. -/
def separateText (decPath : Bytes) : Eval UrlT :=
  decPath.foldlM QueryScan.pass ⟨initUrl, false, true, 0⟩ >>= QueryScan.finish

/-- The loop in a segment, with the pairs `before` it and `behind` it. -/
def PairScan.inQuery (path : Block) (pathLen : Int) (before behind : List (Option PairT))
    (s : PairScan) : QueryScan :=
  ⟨⟨path, before ++ some s.pair :: behind, before.length, pathLen⟩, true, s.queryName, s.j⟩

lemma get_pair (before behind : List (Option PairT)) (pair : PairT) :
    get (before ++ some pair :: behind) before.length = .ok pair :=
  get_natCast (by simp)

lemma set_pair (before behind : List (Option PairT)) (old : Option PairT) (pair : PairT) :
    set (before ++ old :: behind) before.length pair = .ok (before ++ some pair :: behind) := by
  rw [set_natCast _ (by simp), List.set_append_right _ _ (le_refl _)]
  simp

lemma UrlT.storeKey_eq (path : Block) (pathLen : Int) (before behind : List (Option PairT))
    (pair : PairT) (j : Int) (c : UInt8) :
    (UrlT.mk path (before ++ some pair :: behind) before.length pathLen).storeKey j c =
      (set pair.key j c).map fun key =>
        ⟨path, before ++ some { pair with key := key } :: behind, before.length, pathLen⟩ := by
  rw [storeKey, get_pair, ok_bind]
  cases set pair.key j c with
  | error u => rfl
  | ok key => rw [ok_bind, set_pair]; rfl

lemma UrlT.storeValue_eq (path : Block) (pathLen : Int) (before behind : List (Option PairT))
    (pair : PairT) (j : Int) (c : UInt8) :
    (UrlT.mk path (before ++ some pair :: behind) before.length pathLen).storeValue j c =
      (set pair.value j c).map fun value =>
        ⟨path, before ++ some { pair with value := value } :: behind, before.length, pathLen⟩ := by
  rw [storeValue, get_pair, ok_bind]
  cases set pair.value j c with
  | error u => rfl
  | ok value => rw [ok_bind, set_pair]; rfl

/-- In a segment the loop works on its pair. -/
lemma QueryScan.pass_segment (path : Block) (pathLen : Int) (before behind : List (Option PairT))
    (s : PairScan) {c : UInt8} (hc : c ≠ chr '&') :
    (s.inQuery path pathLen before behind).pass c =
      (s.pass c).map (PairScan.inQuery path pathLen before behind) := by
  obtain ⟨pair, name, j⟩ := s
  rw [pass, PairScan.inQuery, if_pos rfl, if_neg hc, PairScan.pass]
  by_cases heq : c = chr '='
  · rw [if_pos heq, if_pos heq, UrlT.storeKey_eq]
    cases set pair.key j 0 <;> rfl
  · rw [if_neg heq, if_neg heq]
    cases name with
    | true =>
      simp only [if_true, UrlT.storeKey_eq]
      cases set pair.key j c with
      | error u => rfl
      | ok key => cases add j 1 <;> rfl
    | false =>
      simp only [Bool.false_eq_true, if_false, UrlT.storeValue_eq]
      cases set pair.value j c with
      | error u => rfl
      | ok value => cases add j 1 <;> rfl

lemma QueryScan.fold_segment (path : Block) (pathLen : Int) (before behind : List (Option PairT))
    (s : PairScan) {segment : Bytes} (h : chr '&' ∉ segment) :
    segment.foldlM QueryScan.pass (s.inQuery path pathLen before behind) =
      (segment.foldlM PairScan.pass s).map (PairScan.inQuery path pathLen before behind) :=
  foldlM_hom segment (fun s _ hc => pass_segment path pathLen before behind s fun heq => h (heq ▸ hc))
    s

/-- The state after the `&` behind a segment. -/
def QueryScan.afterPair (path : Block) (pathLen : Int) (before behind : List (Option PairT))
    (pair : PairT) : QueryScan :=
  ⟨⟨path, before ++ some pair :: behind, (before.length + 1 : ℕ), pathLen⟩, true, true, 0⟩

lemma UrlT.nextQuery_eq (path : Block) (queries : List (Option PairT)) (pathLen : Int) {count : ℕ}
    (h : count ≤ 10) : (UrlT.mk path queries count pathLen).nextQuery =
      .ok ⟨path, queries, (count + 1 : ℕ), pathLen⟩ := by
  have hadd : add (count : Int) 1 = .ok ((count + 1 : ℕ) : Int) := add_ok (by omega) (by omega)
  rw [nextQuery, hadd]
  rfl

lemma QueryScan.pass_amp (path : Block) (pathLen : Int) (before behind : List (Option PairT))
    (s : PairScan) (h : before.length ≤ 10) :
    (s.inQuery path pathLen before behind).pass (chr '&') =
      s.close.map (afterPair path pathLen before behind) := by
  rw [pass, PairScan.inQuery, if_pos rfl, if_pos rfl, UrlT.storeValue_eq, PairScan.close]
  cases set s.pair.value s.j 0 with
  | error u => rfl
  | ok value =>
    simp only [Except.map, ok_bind, UrlT.nextQuery_eq _ _ _ h, pure_eq_ok]
    rfl

lemma QueryScan.finish_segment {path path' : Block} {pathLen : Int} (hpath : set path pathLen 0 = .ok path')
    (before behind : List (Option PairT)) (s : PairScan) (h : before.length ≤ 10) :
    (s.inQuery path pathLen before behind).finish =
      s.close.map fun pair => ⟨path', before ++ some pair :: behind, (before.length + 1 : ℕ), pathLen⟩ := by
  simp only [finish, PairScan.inQuery, UrlT.storePath, hpath, ok_bind, pure_eq_ok, if_true,
    UrlT.storeValue_eq, PairScan.close]
  cases set s.pair.value s.j 0 with
  | error u => rfl
  | ok value => simp only [Except.map, ok_bind, UrlT.nextQuery_eq _ _ _ h]

/-- A segment and the `&` behind it. -/
lemma QueryScan.fold_amp (path : Block) (pathLen : Int) (before behind : List (Option PairT))
    (h : before.length ≤ 10) {segment : Bytes} (hamp : chr '&' ∉ segment) (rest : Bytes) :
    (segment ++ chr '&' :: rest).foldlM QueryScan.pass
        (PairScan.start.inQuery path pathLen before behind) =
      parsePair segment >>= fun pair =>
        rest.foldlM QueryScan.pass (afterPair path pathLen before behind pair) := by
  rw [List.foldlM_append, fold_segment _ _ _ _ _ hamp, parsePair]
  cases segment.foldlM PairScan.pass .start with
  | error u => rfl
  | ok s =>
    simp only [Except.map, ok_bind, List.foldlM_cons, pass_amp _ _ _ _ _ h]
    cases s.close <;> rfl

/-- Behind the last of the pairs there is no place for another segment. -/
lemma QueryScan.full (path : Block) (pathLen : Int) (before : List (Option PairT)) (pair : PairT)
    (text : Bytes) :
    text.foldlM QueryScan.pass (afterPair path pathLen before [] pair) >>= QueryScan.finish =
      .error .bounds := by
  have hget : get (before ++ [some pair]) ((before.length + 1 : ℕ) : Int) = .error .bounds :=
    get_of_le (by simp)
  rw [Nat.cast_add, Nat.cast_one] at hget
  cases text with
  | nil =>
    simp only [List.foldlM_nil, pure_bind, finish, afterPair, UrlT.storePath]
    cases hset : set path pathLen (0 : UInt8) with
    | error u =>
      simp only [CSem.set] at hset
      split_ifs at hset
      cases hset
      rfl
    | ok path => simp [UrlT.storeValue, hget]
  | cons c text =>
    rw [List.foldlM_cons]
    by_cases hamp : c = chr '&'
    · simp [pass, afterPair, UrlT.storeValue, hamp, hget]
    · by_cases heq : c = chr '='
      · have hne : chr '=' ≠ chr '&' := by decide
        simp [pass, afterPair, UrlT.storeKey, hne, heq, hget]
      · simp [pass, afterPair, UrlT.storeKey, hamp, heq, hget]

/-- The state after an `&` is that of a new segment. -/
lemma QueryScan.afterPair_cons (path : Block) (pathLen : Int) (before behind : List (Option PairT))
    (pair : PairT) :
    afterPair path pathLen before (some .zero :: behind) pair =
      PairScan.start.inQuery path pathLen (before ++ [some pair]) behind := by
  simp [afterPair, PairScan.inQuery, PairScan.start]

/-- The query from a segment on, with `k` pairs behind that of the segment: each segment is parsed
for itself. -/
lemma QueryScan.fold_segments {path path' : Block} {pathLen : Int}
    (hpath : set path pathLen 0 = .ok path') (segments : List Bytes) (segment : Bytes)
    (before : List (Option PairT)) (k : ℕ) (hk : before.length + k = 9)
    (hamp : ∀ s ∈ segment :: segments, chr '&' ∉ s) (hlen : segments.length ≤ k)
    (pairs : List PairT) (hpairs : List.Forall₂ (fun s pair => parsePair s = .ok pair)
      (segment :: segments) pairs) :
    ([chr '&'].intercalate (segment :: segments)).foldlM QueryScan.pass
        (PairScan.start.inQuery path pathLen before (List.replicate k (some .zero))) >>=
      QueryScan.finish = .ok ⟨path', before ++ pairs.map some ++
        List.replicate (k - segments.length) (some .zero),
        (before.length + pairs.length : ℕ), pathLen⟩ := by
  induction segments generalizing segment before k pairs with
  | nil =>
    obtain ⟨pair, rest, hpair, hrest, rfl⟩ := List.forall₂_cons_left_iff.mp hpairs
    rw [List.forall₂_nil_left_iff] at hrest
    subst hrest
    rw [List.intercalate_singleton, fold_segment _ _ _ _ _ (hamp segment List.mem_cons_self)]
    obtain ⟨s, hfold, hpair⟩ := bind_eq_ok.mp hpair
    rw [hfold]
    simp only [Except.map, ok_bind]
    rw [finish_segment hpath before _ s (by omega), hpair]
    simp [Except.map]
  | cons next segments ih =>
    obtain ⟨pair, rest, hpair, hrest, rfl⟩ := List.forall₂_cons_left_iff.mp hpairs
    rw [List.length_cons] at hlen
    obtain ⟨k, rfl⟩ := Nat.exists_eq_add_one_of_ne_zero (show k ≠ 0 by omega)
    rw [List.intercalate_cons_cons, List.append_assoc, List.singleton_append,
      fold_amp _ _ _ _ (by omega) (hamp segment List.mem_cons_self), hpair, ok_bind,
      List.replicate_succ, afterPair_cons,
      ih next (before ++ [some pair]) k (by simp only [List.length_append, List.length_singleton]; omega)
        (fun s hs => hamp s (List.mem_cons_of_mem _ hs)) (by omega) rest hrest]
    have hcount : (before ++ [some pair]).length + rest.length =
        before.length + (pair :: rest).length := by
      simp only [List.length_append, List.length_cons, List.length_nil]
      omega
    rw [hcount]
    simp

/-- With too many segments, or with a field that is too long, a store is outside its array. -/
lemma QueryScan.fold_segments_bounds {path path' : Block} {pathLen : Int}
    (hpath : set path pathLen 0 = .ok path') (segments : List Bytes) (segment : Bytes)
    (before : List (Option PairT)) (k : ℕ) (hk : before.length + k = 9)
    (hamp : ∀ s ∈ segment :: segments, chr '&' ∉ s)
    (hbad : k < segments.length ∨ ∃ s ∈ segment :: segments, ¬ SegmentFits s) :
    ([chr '&'].intercalate (segment :: segments)).foldlM QueryScan.pass
        (PairScan.start.inQuery path pathLen before (List.replicate k (some .zero))) >>=
      QueryScan.finish = .error .bounds := by
  induction segments generalizing segment before k with
  | nil =>
    have herror : parsePair segment = .error .bounds := by
      rcases parsePair_cases segment with ⟨hfit, -⟩ | ⟨-, herror⟩
      · simp [hfit] at hbad
      · exact herror
    rw [List.intercalate_singleton, fold_segment _ _ _ _ _ (hamp segment List.mem_cons_self)]
    rw [parsePair] at herror
    cases hfold : segment.foldlM PairScan.pass .start with
    | error u =>
      rw [hfold, error_bind] at herror
      simpa [Except.map] using herror
    | ok s =>
      rw [hfold, ok_bind] at herror
      simp only [Except.map, ok_bind]
      rw [finish_segment hpath before _ s (by omega), herror]
      rfl
  | cons next segments ih =>
    rw [List.intercalate_cons_cons, List.append_assoc, List.singleton_append,
      fold_amp _ _ _ _ (by omega) (hamp segment List.mem_cons_self), bind_assoc]
    rcases parsePair_cases segment with ⟨hfit, pair, hpair⟩ | ⟨-, herror⟩
    · rw [hpair, ok_bind]
      cases k with
      | zero => exact full _ _ _ _ _
      | succ k =>
        rw [List.replicate_succ, afterPair_cons]
        refine ih next (before ++ [some pair]) k
          (by simp only [List.length_append, List.length_singleton]; omega)
          (fun s hs => hamp s (List.mem_cons_of_mem _ hs)) ?_
        rcases hbad with hlen | ⟨s, hs, hsfit⟩
        · rw [List.length_cons] at hlen
          exact .inl (by omega)
        · rcases List.mem_cons.mp hs with rfl | hs
          · exact absurd hfit hsfit
          · exact .inr ⟨s, hs, hsfit⟩
    · rw [herror]
      rfl

/-! ### The path -/

/-- The array of the path, when it holds `path`. -/
def pathCells (path : Bytes) : Block := path.map some ++ zeros (256 - path.length)

lemma QueryScan.fold_path (path done : Bytes) (hmark : chr '?' ∉ path)
    (hlen : done.length + path.length ≤ 255) (queries : List (Option PairT)) :
    path.foldlM QueryScan.pass ⟨⟨pathCells done, queries, 0, done.length⟩, false, true, 0⟩ =
      .ok ⟨⟨pathCells (done ++ path), queries, 0, (done ++ path).length⟩, false, true, 0⟩ := by
  induction path generalizing done with
  | nil => simp
  | cons c path ih =>
    rw [List.mem_cons, not_or] at hmark
    rw [List.length_cons] at hlen
    have hset : set (pathCells done) done.length c = .ok (pathCells (done ++ [c])) := by
      obtain ⟨k, hk⟩ : ∃ k, 256 - done.length = k + 1 := ⟨255 - done.length, by omega⟩
      have hk' : 256 - (done ++ [c]).length = k := by
        rw [List.length_append, List.length_singleton]
        omega
      rw [pathCells, pathCells, hk, hk', zeros, zeros, List.replicate_succ]
      exact set_next done c (some 0) _
    have hadd : add (done.length : Int) 1 = .ok ((done.length : Int) + 1) :=
      add_ok (by omega) (by omega)
    have hrest := ih (done ++ [c]) hmark.2
      (by rw [List.length_append, List.length_singleton]; omega)
    rw [List.foldlM_cons]
    simp only [pass, Bool.false_eq_true, if_false, Ne.symm hmark.1, UrlT.storePath, UrlT.nextPath, hset,
      hadd, ok_bind, pure_eq_ok]
    simpa using hrest

lemma pathCells_eq {path : Bytes} (h : path.length ≤ 255) :
    ∃ rest, pathCells path = path.map some ++ some 0 :: rest := by
  obtain ⟨k, hk⟩ : ∃ k, 256 - path.length = k + 1 := ⟨255 - path.length, by omega⟩
  exact ⟨List.replicate k (some 0), by rw [pathCells, hk, zeros, List.replicate_succ]⟩

lemma set_pathCells {path : Bytes} (h : path.length ≤ 255) :
    set (pathCells path) path.length 0 = .ok (pathCells path) := by
  obtain ⟨rest, hrest⟩ := pathCells_eq h
  rw [hrest, set_next]
  simp

lemma pathCells_hasString {path : Bytes} (h : path.length ≤ 255) (hnul : (0 : UInt8) ∉ path) :
    HasString (pathCells path) path :=
  hasString_zeros hnul (by omega)

/-! ### The text as a whole -/

def pathOf (text : Bytes) : Bytes := text.takeWhile (· ≠ chr '?')

/-- The segments behind the first `?`. -/
def segmentsOf (text : Bytes) : List Bytes :=
  match text.dropWhile (· ≠ chr '?') with
  | [] => []
  | _ :: query => query.splitOn (chr '&')

/-- There are at most ten segments, and all fields fit. -/
def QueryFits (text : Bytes) : Prop :=
  (segmentsOf text).length ≤ 10 ∧ ∀ s ∈ segmentsOf text, SegmentFits s

instance (text : Bytes) : Decidable (QueryFits text) :=
  inferInstanceAs (Decidable (_ ∧ ∀ s ∈ segmentsOf text, SegmentFits s))

lemma notMem_pathOf (text : Bytes) : chr '?' ∉ pathOf text := by
  intro h
  simpa using List.mem_takeWhile_imp h

/-- A text is its path, and its segments behind it if it has a `?`. -/
lemma text_cases (text : Bytes) :
    (segmentsOf text = [] ∧ text = pathOf text) ∨
      ∃ s segments, segmentsOf text = s :: segments ∧ (∀ t ∈ s :: segments, chr '&' ∉ t) ∧
        text = pathOf text ++ chr '?' :: [chr '&'].intercalate (s :: segments) := by
  have hsplit := List.takeWhile_append_dropWhile (p := fun c => decide (c ≠ chr '?')) (l := text)
  rw [segmentsOf]
  cases hdrop : text.dropWhile (· ≠ chr '?') with
  | nil =>
    rw [hdrop, List.append_nil] at hsplit
    exact .inl ⟨rfl, hsplit.symm⟩
  | cons c query =>
    have hc : c = chr '?' := by
      have hhead := List.head?_dropWhile_not (fun c => decide (c ≠ chr '?')) text
      rw [hdrop] at hhead
      simpa using hhead
    obtain ⟨s, segments, hsegments⟩ := List.exists_cons_of_ne_nil (List.splitOn_ne_nil (chr '&') query)
    refine .inr ⟨s, segments, hsegments, fun t ht => ?_, ?_⟩
    · rw [← hsegments] at ht
      exact Split.sep_notMem ht
    · rw [← hsegments, List.intercalate_splitOn, ← hc, ← hdrop]
      exact hsplit.symm

lemma QueryScan.fold_pathOf {text : Bytes} (h : (pathOf text).length ≤ 255) :
    (pathOf text).foldlM QueryScan.pass ⟨initUrl, false, true, 0⟩ =
      .ok ⟨⟨pathCells (pathOf text), List.replicate 10 (some .zero), 0, (pathOf text).length⟩,
        false, true, 0⟩ :=
  fold_path (pathOf text) [] (notMem_pathOf text) (by simpa using h) _

/-- The text is taken apart if and only if its query fits, else a store is outside its array. -/
lemma separateText_cases {text : Bytes} (h : (pathOf text).length ≤ 255) :
    (QueryFits text ∧ ∃ pairs,
      List.Forall₂ (fun s pair => parsePair s = .ok pair) (segmentsOf text) pairs ∧
      separateText text = .ok ⟨pathCells (pathOf text),
        pairs.map some ++ List.replicate (10 - pairs.length) (some .zero), pairs.length,
        (pathOf text).length⟩) ∨
    (¬ QueryFits text ∧ separateText text = .error .bounds) := by
  have hpath : set (pathCells (pathOf text)) (pathOf text).length 0 = .ok (pathCells (pathOf text)) :=
    set_pathCells h
  have hfold := QueryScan.fold_pathOf h
  rcases text_cases text with ⟨hnone, htext⟩ | ⟨s, segments, hsegments, hamp, htext⟩
  · refine .inl ⟨⟨by simp [hnone], by simp [hnone]⟩, [], by rw [hnone]; exact .nil, ?_⟩
    have hloop : separateText text = separateText (pathOf text) := by rw [← htext]
    rw [hloop, separateText, hfold, ok_bind, QueryScan.finish, UrlT.storePath, hpath]
    rfl
  · have hloop : separateText text =
        ([chr '&'].intercalate (s :: segments)).foldlM QueryScan.pass
          (PairScan.start.inQuery (pathCells (pathOf text)) (pathOf text).length []
            (List.replicate 9 (some .zero))) >>= QueryScan.finish := by
      conv_lhs => rw [htext]
      rw [separateText, List.foldlM_append, hfold, ok_bind, List.foldlM_cons]
      rfl
    rw [hloop, QueryFits, hsegments, List.length_cons]
    by_cases hfits : segments.length + 1 ≤ 10 ∧ ∀ t ∈ s :: segments, SegmentFits t
    · obtain ⟨hlen, hsegs⟩ := hfits
      obtain ⟨pairs, hpairs⟩ := exists_parsePairs hsegs
      have hcount : pairs.length = segments.length + 1 := by simpa using hpairs.length_eq.symm
      refine .inl ⟨⟨hlen, hsegs⟩, pairs, hpairs, ?_⟩
      rw [QueryScan.fold_segments hpath segments s [] 9 rfl hamp (by omega) pairs hpairs]
      have hfree : 9 - segments.length = 10 - pairs.length := by omega
      rw [hfree]
      simp
    · refine .inr ⟨hfits, QueryScan.fold_segments_bounds hpath segments s [] 9 rfl hamp ?_⟩
      by_contra hgood
      push Not at hgood
      exact hfits ⟨by omega, hgood.2⟩

end Ccybe
