import Ccybe.Lib.Split
import Ccybe.Url.Decoding
import Ccybe.Url.Url

/-!
# The pair of a segment

What the loop of `seperate_query` does between two `&`: it fills one pair, and it stays inside the
arrays of the pair as long as the fields of the segment, the stretches between two `=`, have at
most 127 bytes. The first field is the key. Of the other ones the last is the value; each one
before it leaves its length, since the zero byte that ends it is written into the key.
-/

namespace Ccybe

open CSem

/-! ### The loop on one segment -/

/-- The variables of the loop that a segment changes. -/
structure PairScan where
  pair : PairT
  queryName : Bool
  j : Int

namespace PairScan

/-- The body of the loop on a character of a segment. -/
def pass (s : PairScan) (c : UInt8) : Eval PairScan :=
  if c = chr '=' then do
    let key ← set s.pair.key s.j 0
    pure ⟨{ s.pair with key := key }, false, 0⟩
  else if s.queryName then do
    let key ← set s.pair.key s.j c
    let j ← add s.j 1
    pure ⟨{ s.pair with key := key }, true, j⟩
  else do
    let value ← set s.pair.value s.j c
    let j ← add s.j 1
    pure ⟨{ s.pair with value := value }, false, j⟩

/-- What ends a segment. -/
def close (s : PairScan) : Eval PairT := do
  let value ← set s.pair.value s.j 0
  pure { s.pair with value := value }

/-- Before the first character. -/
def start : PairScan := ⟨.zero, true, 0⟩

end PairScan

/-- The pair of a segment. -/
def parsePair (segment : Bytes) : Eval PairT := do
  let s ← segment.foldlM PairScan.pass .start
  s.close

/-- The first field has room behind `j` bytes, the other ones from the front on. -/
def FieldsFit (j : ℕ) : List Bytes → Prop
  | [] => True
  | f :: fs => j + f.length ≤ 127 ∧ ∀ g ∈ fs, g.length ≤ 127

/-- The arrays of a pair keep their sizes. -/
def PairT.Sized (pair : PairT) : Prop := pair.key.length = 128 ∧ pair.value.length = 128

lemma fieldsFit_zero {fields : List Bytes} :
    FieldsFit 0 fields ↔ ∀ f ∈ fields, f.length ≤ 127 := by
  cases fields <;> simp [FieldsFit]

lemma fieldsFit_cons (j : ℕ) (c : UInt8) (segment : Bytes) :
    FieldsFit j ((c :: segment).splitOn (chr '=')) ↔
      j ≤ 127 ∧ FieldsFit (if c = chr '=' then 0 else j + 1) (segment.splitOn (chr '=')) := by
  rw [List.splitOn_cons_eq_if_modifyHead]
  by_cases hc : c = chr '='
  · rw [if_pos hc, fieldsFit_zero]
    simp [hc, FieldsFit]
  · have hne := List.splitOn_ne_nil (chr '=') segment
    cases hfields : segment.splitOn (chr '=') with
    | nil => exact absurd hfields hne
    | cons f fs =>
      simp only [beq_iff_eq, hc, if_false, List.modifyHead_cons, FieldsFit, List.length_cons]
      constructor
      · rintro ⟨h, hfs⟩
        exact ⟨by omega, by omega, hfs⟩
      · rintro ⟨-, h, hfs⟩
        exact ⟨by omega, hfs⟩

/-- A pass stores inside the arrays if and only if there is room. -/
lemma PairScan.pass_cases {s : PairScan} (hpair : s.pair.Sized) {j : ℕ} (hj : s.j = j) (c : UInt8) :
    (j ≤ 127 ∧ ∃ pair name, pair.Sized ∧
      s.pass c = .ok ⟨pair, name, ((if c = chr '=' then 0 else j + 1 : ℕ) : Int)⟩) ∨
    (127 < j ∧ s.pass c = .error .bounds) := by
  obtain ⟨⟨key, value⟩, name, i⟩ := s
  obtain ⟨hkey, hvalue⟩ := hpair
  simp only at hkey hvalue hj
  subst hj
  by_cases hlt : j ≤ 127
  · refine .inl ⟨hlt, ?_⟩
    have hadd : add (j : Int) 1 = .ok ((j + 1 : ℕ) : Int) := add_ok (by omega) (by omega)
    by_cases hc : c = chr '='
    · refine ⟨⟨key.set j (some 0), value⟩, false, ⟨by simpa using hkey, hvalue⟩, ?_⟩
      simp [pass, hc, set_natCast _ (show j < key.length by omega)]
    · cases name with
      | true =>
        refine ⟨⟨key.set j (some c), value⟩, true, ⟨by simpa using hkey, hvalue⟩, ?_⟩
        simp [pass, hc, set_natCast _ (show j < key.length by omega), hadd]
      | false =>
        refine ⟨⟨key, value.set j (some c)⟩, false, ⟨hkey, by simpa using hvalue⟩, ?_⟩
        simp [pass, hc, set_natCast _ (show j < value.length by omega), hadd]
  · refine .inr ⟨by omega, ?_⟩
    have hk : ∀ x : UInt8, set key j x = .error .bounds := fun x => set_of_le x (by omega)
    have hv : ∀ x : UInt8, set value j x = .error .bounds := fun x => set_of_le x (by omega)
    by_cases hc : c = chr '='
    · simp [pass, hc, hk]
    · cases name <;> simp [pass, hc, hk, hv]

/-- A segment is parsed if and only if its fields fit, else a store is outside its array. -/
lemma parse_cases (segment : Bytes) (s : PairScan) (hpair : s.pair.Sized) (j : ℕ) (hj : s.j = j) :
    (FieldsFit j (segment.splitOn (chr '=')) ∧
      ∃ pair, pair.Sized ∧ (segment.foldlM PairScan.pass s >>= PairScan.close) = .ok pair) ∨
    (¬ FieldsFit j (segment.splitOn (chr '=')) ∧
      (segment.foldlM PairScan.pass s >>= PairScan.close) = .error .bounds) := by
  induction segment generalizing s j with
  | nil =>
    have hfit : FieldsFit j (([] : Bytes).splitOn (chr '=')) ↔ j ≤ 127 := by
      simp [FieldsFit]
    obtain ⟨hkey, hvalue⟩ := hpair
    rw [hfit, List.foldlM_nil, pure_bind, PairScan.close, hj]
    by_cases hlt : j ≤ 127
    · refine .inl ⟨hlt, ⟨s.pair.key, s.pair.value.set j (some 0)⟩, ⟨hkey, by simpa using hvalue⟩, ?_⟩
      rw [set_natCast 0 (by omega)]
      rfl
    · refine .inr ⟨hlt, ?_⟩
      rw [set_of_le 0 (by omega)]
      rfl
  | cons c segment ih =>
    rw [List.foldlM_cons, bind_assoc, fieldsFit_cons]
    rcases PairScan.pass_cases hpair hj c with ⟨hle, pair, name, hsized, hpass⟩ | ⟨hgt, hpass⟩
    · rw [hpass, ok_bind]
      rcases ih ⟨pair, name, _⟩ hsized _ rfl with ⟨hfit, hok⟩ | ⟨hfit, herror⟩
      · exact .inl ⟨⟨hle, hfit⟩, hok⟩
      · exact .inr ⟨fun h => hfit h.2, herror⟩
    · rw [hpass, error_bind]
      exact .inr ⟨fun h => by omega, rfl⟩

/-- The fields of a segment fit into the arrays of a pair. -/
def SegmentFits (segment : Bytes) : Prop := ∀ f ∈ segment.splitOn (chr '='), f.length ≤ 127

instance (segment : Bytes) : Decidable (SegmentFits segment) :=
  inferInstanceAs (Decidable (∀ f ∈ segment.splitOn (chr '='), f.length ≤ 127))

lemma parsePair_cases (segment : Bytes) :
    (SegmentFits segment ∧ ∃ pair, parsePair segment = .ok pair) ∨
      (¬ SegmentFits segment ∧ parsePair segment = .error .bounds) := by
  have hzero : PairT.zero.Sized := ⟨by simp [PairT.zero, zeros], by simp [PairT.zero, zeros]⟩
  rcases parse_cases segment .start hzero 0 rfl with ⟨hfit, pair, -, hok⟩ | ⟨hfit, herror⟩
  · exact .inl ⟨fieldsFit_zero.mp hfit, pair, hok⟩
  · exact .inr ⟨fun h => hfit (fieldsFit_zero.mpr h), herror⟩

/-! ### What the arrays hold -/

/-- What is left of a key when each of the fields ended in its place. -/
def shorten : Bytes → List Bytes → Bytes
  | key, [] => key
  | key, g :: fields => shorten (key.take g.length) fields

def keyOf : List Bytes → Bytes
  | [] => []
  | f :: fields => shorten f fields.dropLast

def valueOf (fields : List Bytes) : Bytes := fields.tail.getLast?.getD []

/-- Key and value of a segment, by its fields. -/
def pairOf (fields : List Bytes) : Bytes × Bytes := (keyOf fields, valueOf fields)

/-- What is left of a key is a front of it, as long as the shortest of all fields. -/
lemma shorten_spec (fields : List Bytes) (f : Bytes) :
    shorten f fields <+: f ∧ (∀ g ∈ f :: fields, (shorten f fields).length ≤ g.length) ∧
      ∃ g ∈ f :: fields, g.length = (shorten f fields).length := by
  induction fields generalizing f with
  | nil => simp [shorten]
  | cons h fields ih =>
    obtain ⟨hfront, hle, g, hg, hlen⟩ := ih (f.take h.length)
    rw [shorten]
    have hfirst := hle _ List.mem_cons_self
    rw [List.length_take] at hfirst
    refine ⟨hfront.trans (List.take_prefix _ _), ?_, ?_⟩
    · refine List.forall_mem_cons.mpr ⟨by omega, List.forall_mem_cons.mpr ⟨by omega, ?_⟩⟩
      exact fun g hg => hle g (List.mem_cons_of_mem _ hg)
    · rcases List.mem_cons.mp hg with rfl | hg
      · rw [List.length_take] at hlen
        rcases le_total f.length h.length with hfh | hfh
        · exact ⟨f, List.mem_cons_self, by omega⟩
        · exact ⟨h, by simp, by omega⟩
      · exact ⟨g, by simp [hg], hlen⟩

lemma keyOf_concat (f : Bytes) (rest : List Bytes) (last : Bytes) :
    keyOf (f :: (rest ++ [last])) = shorten f rest := by
  simp [keyOf]

lemma valueOf_concat (f : Bytes) (rest : List Bytes) (last : Bytes) :
    valueOf (f :: (rest ++ [last])) = last := by
  simp [valueOf]

lemma fields_cases (fields : List Bytes) (h : fields ≠ []) :
    (∃ last, fields = [last]) ∨ ∃ f rest last, fields = f :: (rest ++ [last]) := by
  obtain ⟨f, fields, rfl⟩ := List.exists_cons_of_ne_nil h
  rcases List.eq_nil_or_concat fields with rfl | ⟨rest, last, rfl⟩
  · exact .inl ⟨f, rfl⟩
  · exact .inr ⟨f, rest, last, by rw [List.concat_eq_append]⟩

/-- Fields in which there is no `=` make a key and a value without it. -/
lemma eq_notMem_pairOf (fields : List Bytes) (h : ∀ f ∈ fields, chr '=' ∉ f) :
    chr '=' ∉ keyOf fields ∧ chr '=' ∉ valueOf fields := by
  rcases fields.eq_nil_or_concat with rfl | ⟨init, l, rfl⟩
  · exact ⟨List.not_mem_nil, List.not_mem_nil⟩
  · rcases fields_cases (init.concat l) (by simp) with ⟨last, hlast⟩ | ⟨f, rest, last, hlast⟩
    · rw [hlast] at h ⊢
      exact ⟨h last List.mem_cons_self, List.not_mem_nil⟩
    · rw [hlast] at h ⊢
      rw [keyOf_concat, valueOf_concat]
      refine ⟨fun hmem => ?_, h last (by simp)⟩
      exact h f List.mem_cons_self ((shorten_spec rest f).1.subset hmem)

namespace PairScan

/-- A stretch without `=` goes into the array in use. -/
lemma fold_field (place : Block → PairT) (name : Bool)
    (hpass : ∀ cells (j : Int) c, c ≠ chr '=' → pass ⟨place cells, name, j⟩ c = do
      let cells ← set cells j c
      let j ← add j 1
      pure ⟨place cells, name, j⟩)
    (f done : Bytes) (room : Block) (heq : chr '=' ∉ f) (hroom : f.length ≤ room.length)
    (hint : done.length + f.length ≤ 2147483647) :
    f.foldlM pass ⟨place (done.map some ++ room), name, done.length⟩ =
      .ok ⟨place ((done ++ f).map some ++ room.drop f.length), name, (done ++ f).length⟩ := by
  induction f generalizing done room with
  | nil => simp
  | cons c f ih =>
    rw [List.mem_cons, not_or] at heq
    rw [List.length_cons] at hroom hint
    obtain ⟨cell, room, rfl⟩ := List.exists_cons_of_length_pos (Nat.zero_lt_of_lt hroom)
    have hadd : add (done.length : Int) 1 = .ok ((done ++ [c]).length : Int) := by
      rw [List.length_append]
      exact add_ok (by omega) (by omega)
    have hrest := ih (done ++ [c]) room heq.2 (by simpa using hroom) (by simp; omega)
    rw [List.foldlM_cons, hpass _ _ _ (Ne.symm heq.1), set_next, ok_bind, hadd, ok_bind, pure_eq_ok,
      ok_bind, hrest]
    simp

lemma fold_key (f : Bytes) (key value : Block) (heq : chr '=' ∉ f) (h : f.length ≤ key.length)
    (hint : f.length ≤ 2147483647) :
    f.foldlM pass ⟨⟨key, value⟩, true, 0⟩ =
      .ok ⟨⟨f.map some ++ key.drop f.length, value⟩, true, f.length⟩ := by
  refine fold_field (fun key => ⟨key, value⟩) true (fun cells j c hc => ?_) f [] key heq h (by simpa)
  simp [pass, hc]

lemma fold_value (f : Bytes) (key value : Block) (heq : chr '=' ∉ f) (h : f.length ≤ value.length)
    (hint : f.length ≤ 2147483647) :
    f.foldlM pass ⟨⟨key, value⟩, false, 0⟩ =
      .ok ⟨⟨key, f.map some ++ value.drop f.length⟩, false, f.length⟩ := by
  refine fold_field (fun value => ⟨key, value⟩) false (fun cells j c hc => ?_) f [] value heq h
    (by simpa)
  simp [pass, hc]

/-- What a field leaves behind in an array. -/
lemma set_end {f : Bytes} {rest : Block} (hnul : (0 : UInt8) ∉ f)
    (h : f.length < (f.map some ++ rest).length) :
    ∃ cells, set (f.map some ++ rest) f.length 0 = .ok cells ∧
      cells.length = (f.map some ++ rest).length ∧ HasString cells f := by
  refine ⟨_, set_natCast 0 h, List.length_set, hnul, rest.tail, ?_⟩
  cases rest with
  | nil => simp at h
  | cons cell rest =>
    rw [List.set_append_right _ _ (by simp)]
    simp [terminated]

/-- The fields behind the key: the last one is the value, the others shorten the key. -/
lemma fold_values (fields : List Bytes) (g : Bytes) {key value : Block} {k : Bytes}
    (hkey : HasString key k) (hsized : (PairT.mk key value).Sized)
    (hfields : ∀ f ∈ g :: fields, chr '=' ∉ f ∧ (0 : UInt8) ∉ f ∧ f.length ≤ 127) :
    ∃ pair, (([chr '='].intercalate (g :: fields)).foldlM pass ⟨⟨key, value⟩, false, 0⟩ >>= close) =
        .ok pair ∧
      HasString pair.key (shorten k (g :: fields).dropLast) ∧
      HasString pair.value ((g :: fields).getLast?.getD []) := by
  obtain ⟨hkeylen, hvallen⟩ := hsized
  simp only at hkeylen hvallen
  induction fields generalizing g key value k with
  | nil =>
    obtain ⟨heq, hnul, hlen⟩ := hfields g List.mem_cons_self
    have hlt : g.length < (g.map some ++ value.drop g.length).length := by
      simp only [List.length_append, List.length_map, List.length_drop]
      omega
    obtain ⟨cells, hset, -, hcells⟩ := set_end hnul hlt
    refine ⟨⟨key, cells⟩, ?_, hkey, hcells⟩
    rw [List.intercalate_singleton, fold_value g key value heq (by omega) (by omega), ok_bind, close, hset]
    rfl
  | cons h fields ih =>
    obtain ⟨heq, hnul, hlen⟩ := hfields g List.mem_cons_self
    have hsize : (g.map some ++ value.drop g.length).length = 128 := by
      simp only [List.length_append, List.length_map, List.length_drop]
      omega
    have hcut : HasString (key.set g.length (some 0)) (k.take g.length) := hkey.set_zero (by omega)
    obtain ⟨pair, hfold, hpkey, hpvalue⟩ := ih h hcut
      (fun f hf => hfields f (List.mem_cons_of_mem _ hf)) (by rw [List.length_set, hkeylen]) hsize
    refine ⟨pair, ?_, hpkey, hpvalue⟩
    rw [List.intercalate_cons_cons, List.append_assoc, List.foldlM_append,
      fold_value g key value heq (by omega) (by omega), ok_bind, List.singleton_append,
      List.foldlM_cons, pass, if_pos rfl, set_natCast 0 (by simpa using (by omega : g.length < key.length))]
    exact hfold

end PairScan

/-- The arrays of a pair hold the key and the value of its segment. -/
lemma parsePair_holds {segment : Bytes} (hnul : (0 : UInt8) ∉ segment) {pair : PairT}
    (h : parsePair segment = .ok pair) :
    HasString pair.key (keyOf (segment.splitOn (chr '='))) ∧
      HasString pair.value (valueOf (segment.splitOn (chr '='))) := by
  have hfits : SegmentFits segment := by
    rcases parsePair_cases segment with ⟨hfits, -⟩ | ⟨-, herror⟩
    · exact hfits
    · rw [herror] at h
      cases h
  have hfields : ∀ f ∈ segment.splitOn (chr '='),
      chr '=' ∉ f ∧ (0 : UInt8) ∉ f ∧ f.length ≤ 127 :=
    fun f hf => ⟨Split.sep_notMem hf, fun hmem => hnul ((Split.piece_sublist hf).subset hmem), hfits f hf⟩
  have hsegment : [chr '='].intercalate (segment.splitOn (chr '=')) = segment :=
    List.intercalate_splitOn (chr '=')
  rw [parsePair, ← hsegment] at h
  cases hsplit : segment.splitOn (chr '=') with
  | nil => exact absurd hsplit (List.splitOn_ne_nil _ _)
  | cons f fields =>
    rw [hsplit] at h hfields
    obtain ⟨heq, hnul, hlen⟩ := hfields f List.mem_cons_self
    have hsize : (zeros 128).length = 128 := List.length_replicate
    have hfold := PairScan.fold_key f (zeros 128) (zeros 128) heq (by omega) (by omega)
    have hlt : f.length < (f.map some ++ (zeros 128).drop f.length).length := by
      simp only [List.length_append, List.length_map, List.length_drop]
      omega
    cases fields with
    | nil =>
      have hset : set (zeros 128) f.length (0 : UInt8) = .ok (zeros 128) := by
        rw [set_natCast 0 (by omega), zeros, List.set_replicate_self]
      rw [List.intercalate_singleton, PairScan.start, PairT.zero, hfold, ok_bind, PairScan.close,
        hset, ok_bind, pure_eq_ok] at h
      cases h
      have hkey : HasString (f.map some ++ zeros (128 - f.length)) f := hasString_zeros hnul (by omega)
      have hvalue : HasString (zeros 128) [] := @hasString_zeros [] List.not_mem_nil 128 (by decide)
      rw [zeros, ← List.drop_replicate] at hkey
      exact ⟨hkey, hvalue⟩
    | cons g fields =>
      obtain ⟨cells, hset, hlength, hcells⟩ := PairScan.set_end hnul hlt
      have hsized : (PairT.mk cells (zeros 128)).Sized := by
        refine ⟨?_, hsize⟩
        rw [hlength]
        simp only [List.length_append, List.length_map, List.length_drop]
        omega
      obtain ⟨pair', hvalues, hkey, hvalue⟩ := PairScan.fold_values fields g hcells hsized
        fun t ht => hfields t (List.mem_cons_of_mem _ ht)
      rw [List.intercalate_cons_cons, List.append_assoc, List.foldlM_append, PairScan.start, PairT.zero,
        hfold, ok_bind, List.singleton_append, List.foldlM_cons, PairScan.pass, if_pos rfl, hset,
        ok_bind, pure_eq_ok, ok_bind, hvalues] at h
      cases h
      exact ⟨hkey, hvalue⟩

end Ccybe
