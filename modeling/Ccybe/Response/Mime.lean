import Ccybe.Response.Basic

/-!
# The type of a file

`get_mime` copies the extension of a path backwards into an array of ten characters and turns it
around. It is never asked whether there is room.
-/

namespace Ccybe

open CSem

/-- What is behind the last `.`. -/
def extension (path : Bytes) : Bytes := (path.reverse.takeWhile (· ≠ chr '.')).reverse

/-- The type with this extension. -/
def mimeOf (ext : Bytes) : Option MimeType :=
  if sameIgnoringCase ext (ascii "js".toList) then some .js
  else if sameIgnoringCase ext (ascii "css".toList) then some .css
  else if sameIgnoringCase ext (ascii "html".toList) then some .html
  else if sameIgnoringCase ext (ascii "png".toList) then some .png
  else none

/-! ### The first loop -/

/-- The array `ext` when `text` has been copied to its front. -/
def extCells (text : Bytes) : Block := text.map some ++ List.replicate (10 - text.length) none

lemma length_extCells {text : Bytes} (h : text.length ≤ 10) : (extCells text).length = 10 := by
  rw [extCells, List.length_append, List.length_map, List.length_replicate]
  omega

lemma set_extCells {text : Bytes} (h : text.length < 10) (c : UInt8) :
    set (extCells text) text.length c = .ok (extCells (text ++ [c])) := by
  obtain ⟨k, hk⟩ : ∃ k, 10 - text.length = k + 1 := ⟨9 - text.length, by omega⟩
  have hk' : 10 - (text ++ [c]).length = k := by
    rw [List.length_append, List.length_singleton]
    omega
  rw [extCells, extCells, hk, hk', List.replicate_succ, set_natCast c (by simp)]
  simp

/-- The characters that are copied when `i` characters are left. -/
def copied (path : Bytes) (i : ℕ) : Bytes := (path.take i).reverse.takeWhile (· ≠ chr '.')

lemma copied_succ {path : Bytes} {i : ℕ} {c : UInt8} (hc : path[i]? = some c) :
    copied path (i + 1) = if c = chr '.' then [] else c :: copied path i := by
  have htake : (path.take (i + 1)).reverse = c :: (path.take i).reverse := by
    rw [List.take_add_one, hc]
    simp
  rw [copied, htake, copied]
  split_ifs with hdot
  · simp [hdot]
  · exact List.takeWhile_cons_of_pos (by simpa using hdot)

/-- The characters behind the last `.` are copied, as long as there is room. -/
lemma scanExt_cases {cells : Block} {path : Bytes} (h : HasString cells path) (i : ℕ)
    (hi : i ≤ path.length) (done : Bytes) (hdone : done.length ≤ 10) :
    ((done ++ copied path i).length ≤ 10 ∧ scanExt cells i done.length (extCells done) =
      .ok ((done ++ copied path i).length, extCells (done ++ copied path i))) ∨
    (10 < (done ++ copied path i).length ∧
      scanExt cells i done.length (extCells done) = .error .bounds) := by
  induction i generalizing done with
  | zero => exact .inl ⟨by simpa [copied] using hdone, by simp [scanExt, copied]⟩
  | succ i ih =>
    obtain ⟨c, hc⟩ : ∃ c, path[i]? = some c := ⟨_, List.getElem?_eq_getElem (by omega)⟩
    have hget : get cells i = .ok c := by
      obtain ⟨-, rest, rfl⟩ := h
      refine get_natCast ?_
      rw [terminated, List.append_assoc, List.getElem?_append_left (by rw [List.length_map]; omega),
        List.getElem?_map, hc]
      rfl
    rw [scanExt, hget, ok_bind, copied_succ hc]
    by_cases hdot : c = chr '.'
    · refine .inl ?_
      simp [hdot, hdone]
    · rw [if_neg hdot, if_neg hdot]
      rcases hdone.lt_or_eq with hroom | hfull
      · rw [set_extCells hroom, ok_bind]
        have hlen : (done ++ [c]).length = done.length + 1 := by simp
        have hrest := ih (by omega) (done ++ [c]) (by omega)
        rw [hlen, List.append_assoc, List.singleton_append] at hrest
        exact hrest
      · rw [set_of_le c (by rw [length_extCells hdone, hfull])]
        refine .inr ⟨?_, rfl⟩
        rw [List.length_append, List.length_cons]
        omega

/-! ### The second loop -/

lemma swapExt_eq {ext : Block} {m k : ℕ} (hm : m ≤ ext.length) (hk : k < m) {x y : UInt8}
    (hx : ext[k]? = some (some x)) (hy : ext[m - k - 1]? = some (some y)) :
    swapExt m ext k = .ok ((ext.set k (some y)).set (m - k - 1) (some x)) := by
  rw [swapExt, get_natCast hx, ok_bind, get_natCast hy, ok_bind, set_natCast y (by omega), ok_bind,
    set_natCast x (by rw [List.length_set]; omega)]

/-- After `k` passes the first and the last `k` of `m` cells are exchanged. -/
lemma swaps_eq {ext : Block} {m : ℕ} (hm : m ≤ ext.length)
    (hinit : ∀ j < m, ∃ c, ext[j]? = some (some c)) (k : ℕ) (hk : 2 * k ≤ m) :
    ∃ out, (List.range k).foldlM (swapExt m) ext = .ok out ∧ out.length = ext.length ∧
      ∀ j, out[j]? = if j < k ∨ m - k ≤ j ∧ j < m then ext[m - 1 - j]? else ext[j]? := by
  induction k with
  | zero =>
    refine ⟨ext, rfl, rfl, fun j => ?_⟩
    rw [if_neg (by omega)]
  | succ k ih =>
    obtain ⟨out, hfold, hlen, hout⟩ := ih (by omega)
    obtain ⟨x, hx⟩ := hinit k (by omega)
    obtain ⟨y, hy⟩ := hinit (m - k - 1) (by omega)
    have hx' : out[k]? = some (some x) := by rw [hout, if_neg (by omega), hx]
    have hy' : out[m - k - 1]? = some (some y) := by rw [hout, if_neg (by omega), hy]
    refine ⟨(out.set k (some y)).set (m - k - 1) (some x), ?_, by simp [hlen], fun j => ?_⟩
    · rw [List.range_succ, List.foldlM_append, hfold, ok_bind, List.foldlM_cons,
        swapExt_eq (by omega) (by omega) hx' hy']
      rfl
    · rcases eq_or_ne (m - k - 1) j with rfl | hj
      · rw [List.getElem?_set_self (by rw [List.length_set]; omega), if_pos (by omega), ← hx]
        congr 1
        omega
      · rw [List.getElem?_set_ne hj]
        rcases eq_or_ne k j with rfl | hj'
        · rw [List.getElem?_set_self (by omega), if_pos (by omega), ← hy]
          congr 1
          omega
        · rw [List.getElem?_set_ne hj', hout]
          exact if_congr (by omega) rfl rfl

/-- The second loop turns the characters around. -/
lemma swaps_extCells {text : Bytes} (h : text.length ≤ 10) :
    (List.range (text.length / 2)).foldlM (swapExt text.length) (extCells text) =
      .ok (extCells text.reverse) := by
  have hget : ∀ j < text.length, (extCells text)[j]? = text[j]?.map some := by
    intro j hj
    rw [extCells, List.getElem?_append_left (by rwa [List.length_map]), List.getElem?_map]
  obtain ⟨out, hfold, hlen, hout⟩ := @swaps_eq (extCells text) text.length
    (by rw [length_extCells h]; exact h)
    (fun j hj => ⟨text[j], by rw [hget j hj, List.getElem?_eq_getElem hj]; rfl⟩)
    (text.length / 2) (by omega)
  rw [hfold]
  congr 1
  refine List.ext_getElem? fun j => ?_
  rw [hout]
  rcases lt_or_ge j text.length with hj | hj
  · have hrev : (extCells text.reverse)[j]? = (extCells text)[text.length - 1 - j]? := by
      rw [hget _ (by omega), extCells, List.getElem?_append_left (by simpa using hj),
        List.getElem?_map, List.getElem?_reverse hj]
    rw [hrev]
    split_ifs with hmid
    · rfl
    · congr 1
      omega
  · rw [if_neg (by omega), extCells, extCells, List.getElem?_append_right (by simpa using hj),
      List.getElem?_append_right (by simpa using hj)]
    simp

/-! ### What is returned -/

/-- The end of `get_mime`, when the extension is in the array. -/
lemma classify_cases {text : Bytes} (hnul : (0 : UInt8) ∉ text) (h : text.length ≤ 10) :
    (text.length ≤ 9 ∧ ∃ cells, set (extCells text) text.length 0 = .ok cells ∧
      readString cells = .ok text) ∨
    (9 < text.length ∧ set (extCells text) text.length (0 : UInt8) = .error .bounds) := by
  rcases h.lt_or_eq with hroom | hfull
  · refine .inl ⟨by omega, extCells (text ++ [0]), set_extCells hroom 0, HasString.readString_eq ?_⟩
    refine ⟨hnul, List.replicate (10 - (text ++ [0]).length) none, ?_⟩
    rw [extCells, List.map_append]
    rfl
  · exact .inr ⟨by omega, set_of_le 0 (by rw [length_extCells h, hfull])⟩

/-- The type is that of the extension, if there is room for the extension and a zero byte. -/
lemma getMime_cases {cells : Block} {path : Bytes} (h : HasString cells path)
    (hint : path.length ≤ 2147483647) :
    ((extension path).length ≤ 9 ∧ getMime cells = .ok (mimeOf (extension path))) ∨
    (9 < (extension path).length ∧ getMime cells = .error .bounds) := by
  have hn : (toInt path.length).toNat = path.length := by
    rw [toInt_eq (by omega) (by omega), Int.toNat_natCast]
  have hext : copied path path.length = (extension path).reverse := by
    rw [extension, copied, List.take_length, List.reverse_reverse]
  have hnul : (0 : UInt8) ∉ extension path := fun hmem => by
    rw [extension, List.mem_reverse] at hmem
    exact h.1 (List.mem_reverse.mp ((List.takeWhile_sublist _).subset hmem))
  have hstart : List.replicate 10 none = extCells [] := rfl
  have hscan := scanExt_cases h path.length (le_refl _) [] (Nat.zero_le _)
  rw [List.nil_append, List.length_nil, hext, List.length_reverse] at hscan
  rw [getMime, h.strlen_eq, ok_bind, hn, hstart]
  rcases hscan with ⟨hle, hscan⟩ | ⟨hgt, hscan⟩
  · have hswaps := swaps_extCells (by rwa [List.length_reverse] : (extension path).reverse.length ≤ 10)
    rw [List.length_reverse, List.reverse_reverse] at hswaps
    rw [hscan, ok_bind]
    simp only [hswaps, ok_bind]
    rcases classify_cases hnul hle with ⟨hroom, cells', hset, hread⟩ | ⟨hfull, hset⟩
    · rw [hset, ok_bind, hread, ok_bind, mimeOf]
      refine .inl ⟨hroom, ?_⟩
      split_ifs <;> rfl
    · rw [hset]
      exact .inr ⟨hfull, rfl⟩
  · rw [hscan]
    exact .inr ⟨by omega, rfl⟩

/-! ### The paths of files -/

/-- The path of a file below `./www`. -/
def filePath (text : Bytes) : Bytes := ascii "./www".toList ++ text

lemma www_string : HasString (terminated (ascii "./www".toList)) (ascii "./www".toList) :=
  hasString_terminated (by decide)

lemma length_www : (ascii "./www".toList).length = 5 := by decide

lemma length_filePath (text : Bytes) : (filePath text).length = 5 + text.length := by
  rw [filePath, List.length_append, length_www]

lemma filePath_string {text : Bytes} (h : (0 : UInt8) ∉ text) :
    HasString (terminated (filePath text)) (filePath text) := by
  refine hasString_terminated ?_
  rw [filePath, List.mem_append, not_or]
  exact ⟨www_string.1, h⟩

section NotFound

variable {files : Files} {req : HttpRequest} {path : Bytes} (hpath : HasString req.url.path path)
  (hlen : path.length ≤ 255) {mem : ℕ → Bool}

include hpath hlen

/-- `handle_not_found` without memory for the path of the file. -/
lemma handleNotFound_noMem (hmem : ¬ (mem 0 = true ∧ mem 1 = true)) :
    handleNotFound files initResp req mem = .ok ({ initResp with statusCode := 500 }, []) := by
  have hwww := length_www
  rw [handleNotFound, StringT.newString_if www_string (by omega), ok_bind]
  cases hmem₀ : mem 0 with
  | false =>
    simp only [Bool.false_eq_true, if_false, StringT.appendStringCstr_null, ok_bind]
    rfl
  | true =>
    have hmem₁ : mem 1 = false := by simpa [hmem₀] using hmem
    rw [if_pos rfl, StringT.appendStringCstr_if _ hpath (by omega), ok_bind, hmem₁]
    rfl

/-- `handle_not_found` with memory for the path of the file. -/
lemma handleNotFound_mem (hmem₀ : mem 0 = true) (hmem₁ : mem 1 = true) :
    handleNotFound files initResp req mem = match files.stat with
      | none => (notFoundPage initResp req fun k => mem (2 + k)).map fun r => (r, [])
      | some (.regular, size) =>
        handleStaticFiles files initResp (terminated (filePath path)) (toInt size) fun k => mem (2 + k)
      | some _ => .ok (initResp, []) := by
  have hwww := length_www
  rw [handleNotFound, StringT.newString_if www_string (by omega), ok_bind, hmem₀, if_pos rfl,
    StringT.appendStringCstr_if _ hpath (by omega), ok_bind, hmem₁]
  simp only [Bool.not_true, Bool.false_eq_true, if_false, if_true]
  rcases files.stat with - | ⟨kind, size⟩
  · cases notFoundPage initResp req fun k => mem (2 + k) <;> rfl
  · cases kind <;> rfl

end NotFound

/-- `handle_not_found` passes these cells on when `text` is the path of the URL. -/
def Passed (cells : Block) (text : Bytes) : Prop :=
  ∃ urlPath temp temp', HasString urlPath text ∧
    StringT.newString (some (terminated (ascii "./www".toList))) true = .ok temp ∧
    temp.appendStringCstr (some urlPath) true = .ok (true, temp') ∧ temp'.data = some cells

lemma temp_www : ∃ temp, StringT.newString (some (terminated (ascii "./www".toList))) true = .ok temp ∧
    temp.Holds (ascii "./www".toList) :=
  StringT.newString_eq www_string (by decide)

/-- The length of what is passed on is an `int`. -/
lemma Passed.spec {cells : Block} {text : Bytes} (h : Passed cells text) :
    HasString cells (filePath text) ∧ (filePath text).length ≤ 2147483647 := by
  obtain ⟨urlPath, temp, temp', hurl, hnew, happend, hcells⟩ := h
  obtain ⟨temp₀, hnew₀, hholds⟩ := temp_www
  obtain rfl : temp₀ = temp := Except.ok.inj (hnew₀.symm.trans hnew)
  rcases le_or_gt ((ascii "./www".toList).length + text.length + 1) 2147483647 with hle | hgt
  · obtain ⟨temp₁, happend₁, hholds₁⟩ := StringT.appendStringCstr_eq hholds hurl hle
    rw [happend] at happend₁
    cases happend₁
    rw [hholds₁.data] at hcells
    cases hcells
    rw [length_www] at hle
    exact ⟨filePath_string hurl.1, by rw [length_filePath]; omega⟩
  · rw [StringT.appendStringCstr_overflow hholds hurl hgt] at happend
    cases happend

lemma passed_terminated {text : Bytes} (hnul : (0 : UInt8) ∉ text) (hlen : text.length ≤ 255) :
    Passed (terminated (filePath text)) text := by
  have hwww := length_www
  obtain ⟨temp, hnew, hholds⟩ := temp_www
  obtain ⟨temp', happend, hholds'⟩ :=
    StringT.appendStringCstr_eq hholds (hasString_terminated hnul) (by omega)
  exact ⟨_, temp, temp', hasString_terminated hnul, hnew, happend, hholds'.data⟩

/-- `get_mime` stays inside `ext` and returns the type of the extension. -/
def ClassifiesRight (cells : Block) (path : Bytes) : Prop :=
  getMime cells = .ok (mimeOf (extension path))

/-- `get_mime` is right about a path below `./www` if and only if there are at most nine characters
behind the last `.`. -/
theorem classifies_right_iff {text : Bytes} {cells : Block} (h : Passed cells text) :
    ClassifiesRight cells (filePath text) ↔ (extension (filePath text)).length ≤ 9 := by
  obtain ⟨hstring, hint⟩ := h.spec
  rcases getMime_cases hstring hint with ⟨hle, hok⟩ | ⟨hgt, herror⟩
  · exact iff_of_true hok hle
  · refine iff_of_false (fun hok => ?_) (not_le.mpr hgt)
    rw [ClassifiesRight, herror] at hok
    cases hok

theorem classifies_right_iff_script :
    ClassifiesRight (terminated (filePath (ascii "/a.JS".toList))) (filePath (ascii "/a.JS".toList)) ↔
      (extension (filePath (ascii "/a.JS".toList))).length ≤ 9 :=
  classifies_right_iff (passed_terminated (by decide) (by decide))

/-- A file without an extension: the scan goes back to the first character of the path. -/
theorem no_extension_out_of_bounds :
    Passed (terminated (filePath (ascii "/download".toList))) (ascii "/download".toList) ∧
      getMime (terminated (filePath (ascii "/download".toList))) = .error .bounds ∧
      ¬ ClassifiesRight (terminated (filePath (ascii "/download".toList)))
        (filePath (ascii "/download".toList)) := by
  have hpassed := @passed_terminated (ascii "/download".toList) (by decide) (by decide)
  obtain ⟨hstring, hint⟩ := hpassed.spec
  rcases getMime_cases hstring hint with ⟨hle, -⟩ | ⟨-, herror⟩
  · exact absurd hle (by decide)
  · refine ⟨hpassed, herror, fun hok => ?_⟩
    rw [ClassifiesRight, herror] at hok
    cases hok

end Ccybe
