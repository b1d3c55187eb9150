import Ccybe.Response.Headers

/-!
# What `generate_response` builds

The status line, a line for each header, an empty line and the body, of which the bytes behind a
zero byte are lost.
-/

namespace Ccybe

open CSem

/-- There is memory for everything. -/
abbrev memAll : ℕ → Bool := fun _ => true

lemma lengthText_eq {r : HttpResponse} {n : ℕ} (h : r.body.len = n) (hint : n ≤ 2147483647) :
    ∃ cells, lengthText r = .ok cells ∧ HasString cells (decimal n) := by
  have hlen : (decimal n).length ≤ 10 := length_decimal_le (by decide) (by omega)
  refine ⟨written (List.replicate 33 none) (decimal n), ?_, written_hasString _ (decimal_nul n)⟩
  rw [lengthText, h, formatInt_natCast, snprintf_eq (by omega) (by simp)]
  rfl

/-! ### Lines -/

/-- What is left of a line of up to `TEMP_LEN` bytes: `snprintf` has no place for the last of 216. -/
def printed (text : Bytes) : Bytes := if text.length ≤ 215 then text else text.take 215 ++ [0]

lemma printed_eq_self_iff {text : Bytes} (hnul : (0 : UInt8) ∉ text) :
    printed text = text ↔ text.length ≤ 215 := by
  rw [printed]
  split_ifs with hle
  · exact iff_of_true rfl hle
  · refine iff_of_false (fun heq => hnul ?_) hle
    rw [← heq]
    exact List.mem_append_right _ List.mem_cons_self

lemma length_printed {text : Bytes} (h : text.length ≤ 216) : (printed text).length = text.length := by
  rw [printed]
  split_ifs
  · rfl
  · rw [List.length_append, List.length_take, List.length_singleton]
    omega

lemma set_temp_bounds {cells : Block} (h : cells.length = 217) {n : ℕ} (hn : 216 < n) :
    set cells n (0 : UInt8) = .error .bounds :=
  set_of_le 0 (by omega)

/-- Where `snprintf` has no place for the whole text, it prints what it has a place for. -/
lemma snprintf_cut {dst : Block} {size : ℕ} {text : Bytes} (h : size + 1 ≤ text.length)
    (hsize : size + 1 ≤ dst.length) :
    snprintf dst (size + 1) text =
      .ok (text.length, (text.take size).map some ++ some 0 :: dst.drop (size + 1)) := by
  have hlen : ((text.take size).map some ++ [some (0 : UInt8)]).length = size + 1 := by
    rw [List.length_append, List.length_map, List.length_take, List.length_singleton]
    omega
  have hblit : blit dst 0 ((text.take size).map some ++ [some 0]) =
      .ok ((text.take size).map some ++ some 0 :: dst.drop (size + 1)) := by
    rw [blit_front (by omega), hlen, List.append_assoc]
    rfl
  rw [snprintf, if_neg (Nat.succ_ne_zero _), Nat.add_sub_cancel, hblit]
  rfl

lemma padded_concat_zero {u : Bytes} (h : (0 : UInt8) ∉ u) : padded (u ++ [0]) = u ++ [0] := by
  induction u with
  | nil => rfl
  | cons c u ih =>
    rw [List.mem_cons, not_or] at h
    rw [List.cons_append, padded, if_neg (Ne.symm h.1), ih h.2]

/-- A text of up to 216 bytes is printed, but for the last of 216. A longer one is stored outside. -/
lemma tempString_cases {text : Bytes} (hnul : (0 : UInt8) ∉ text) :
    (text.length ≤ 216 ∧ ∃ cells, tempString text true = .ok ⟨text.length, some cells⟩ ∧
      strncpyBytes cells text.length = .ok (printed text)) ∨
    (216 < text.length ∧ tempString text true = .error .bounds) := by
  have hnew : StringT.newNString 216 true = .ok ⟨216, some (List.replicate 216 none ++ [some 0])⟩ :=
    StringT.newNString_eq (by decide)
  have hsize : (List.replicate 216 none ++ [some (0 : UInt8)]).length = 217 := by
    rw [List.length_append, List.length_replicate]
    rfl
  rcases le_or_gt text.length 215 with hle | hgt
  · refine .inl ⟨by omega, written (List.replicate 216 none ++ [some 0]) text, ?_, ?_⟩
    · rw [tempString, hnew, ok_bind]
      simp only [snprintf_eq (show text.length < 216 by omega) (show 216 ≤ _ by rw [hsize]; decide),
        ok_bind, set_written (show text.length < _ by rw [hsize]; omega), pure_eq_ok]
    · rw [(written_hasString _ hnul).strncpyBytes_eq, printed, if_pos hle]
  · have hcut := @snprintf_cut (List.replicate 216 none ++ [some 0]) 215 text hgt (by rw [hsize]; decide)
    have hrest : (List.replicate 216 none ++ [some (0 : UInt8)]).drop (215 + 1) = [some 0] := by
      rw [List.drop_left' (by rw [List.length_replicate])]
    rw [hrest] at hcut
    have hcells : ((text.take 215).map some ++ [some (0 : UInt8), some 0]).length = 217 := by
      rw [List.length_append, List.length_map, List.length_take, List.length_cons,
        List.length_singleton]
      omega
    have htemp : tempString text true =
        (set ((text.take 215).map some ++ [some 0, some 0]) text.length (0 : UInt8)).map
          fun data => ⟨text.length, some data⟩ := by
      rw [tempString, hnew, ok_bind]
      simp only [hcut, ok_bind]
      cases set ((text.take 215).map some ++ [some 0, some 0]) text.length (0 : UInt8) <;> rfl
    rcases eq_or_lt_of_le (show 216 ≤ text.length from hgt) with heq | hlong
    · have hlen : (text.take 215 ++ [0]).length = text.length := by
        rw [List.length_append, List.length_take, List.length_singleton]
        omega
      have hset : set ((text.take 215).map some ++ [some 0, some 0]) text.length (0 : UInt8) =
          .ok (terminated (text.take 215 ++ [0])) := by
        have hback : ((text.take 215).map some).length + 1 = text.length := by
          rw [← hlen, List.length_append, List.length_map, List.length_singleton]
        rw [set_natCast 0 (by omega), ← hback, List.set_append_right _ _ (Nat.le_add_right _ 1),
          Nat.add_sub_cancel_left, terminated, List.map_append, List.append_assoc]
        rfl
      refine .inl ⟨by omega, terminated (text.take 215 ++ [0]), by rw [htemp, hset]; rfl, ?_⟩
      have hcopy := strncpyBytes_padded (text.take 215 ++ [0])
      rw [padded_concat_zero fun hmem => hnul (List.mem_of_mem_take hmem), hlen] at hcopy
      rw [printed, if_neg (by omega)]
      exact hcopy
    · rw [htemp, set_temp_bounds hcells hlong]
      exact .inr ⟨hlong, rfl⟩

/-- A text of up to 216 bytes is appended as it was printed. -/
lemma appendTemp_cases {resp : StringT} {acc text : Bytes} (hresp : resp.Holds acc)
    (hnul : (0 : UInt8) ∉ text) (hint : acc.length + 216 + 1 ≤ 2147483647) :
    (text.length ≤ 216 ∧ ∃ temp resp', tempString text true = .ok temp ∧
      resp.appendString temp true = .ok (true, resp') ∧ resp'.Holds (acc ++ printed text)) ∨
    (216 < text.length ∧ tempString text true = .error .bounds) := by
  rcases tempString_cases hnul with ⟨hle, cells, htemp, hcells⟩ | hlong
  · have hlen := length_printed hle
    rcases @StringT.appendString_eq resp ⟨text.length, some cells⟩ acc (printed text) hresp cells rfl
      (by rw [hlen]) (by rw [hlen]; exact hcells) with ⟨-, resp', hok, hholds⟩ | ⟨hgt, -⟩
    · exact .inl ⟨hle, _, resp', htemp, hok, hholds⟩
    · omega
  · exact .inr hlong

/-- The line of a header. -/
def lineOf (h : Bytes × Bytes) : Bytes := headerLine h.1 h.2

/-- The status line and the lines of the headers are short. -/
def LinesFit (code : Int) (hs : List (Bytes × Bytes)) : Prop :=
  (firstLine code).length ≤ 215 ∧ ∀ h ∈ hs, (headerLine h.1 h.2).length ≤ 215

/-- Everything up to the body. -/
def headText (code : Int) (hs : List (Bytes × Bytes)) : Bytes :=
  firstLine code ++ hs.flatMap (fun h => headerLine h.1 h.2) ++ crlf

lemma formatInt_nul (x : Int) : (0 : UInt8) ∉ formatInt x := by
  rw [formatInt]
  split_ifs
  · rw [List.mem_cons, not_or]
    exact ⟨by decide, decimal_nul _⟩
  · exact decimal_nul _

lemma firstLine_nul (code : Int) : (0 : UInt8) ∉ firstLine code := by
  have hstatus : (0 : UInt8) ∉ getStatusCode code := by
    rw [getStatusCode]
    split_ifs <;> decide
  have hversion : (0 : UInt8) ∉ ascii "HTTP/1.1 ".toList := by decide
  have hspace : (0 : UInt8) ≠ chr ' ' := by decide
  have hend : (0 : UInt8) ∉ crlf := by decide
  simp only [firstLine, List.mem_append, List.mem_cons, not_or]
  exact ⟨⟨⟨hversion, formatInt_nul code⟩, hspace, hstatus⟩, hend⟩

lemma headerLine_nul {key value : Bytes} (hkey : (0 : UInt8) ∉ key) (hvalue : (0 : UInt8) ∉ value) :
    (0 : UInt8) ∉ headerLine key value := by
  have hcolon : (0 : UInt8) ∉ ascii ": ".toList := by decide
  have hend : (0 : UInt8) ∉ crlf := by decide
  simp only [headerLine, List.mem_append, not_or]
  exact ⟨⟨⟨hkey, hcolon⟩, hvalue⟩, hend⟩

lemma length_firstLine_le {code : Int} (h₁ : -2147483648 ≤ code) (h₂ : code ≤ 2147483647) :
    (firstLine code).length ≤ 215 := by
  have hdigits : (decimal code.natAbs).length ≤ 10 := length_decimal_le (by decide) (by omega)
  have hint : (formatInt code).length ≤ 11 := by
    rw [formatInt]
    split_ifs
    · rw [List.length_cons]
      omega
    · omega
  have hstatus : (getStatusCode code).length ≤ 21 := by
    rw [getStatusCode]
    split_ifs <;> decide
  have hversion : (ascii "HTTP/1.1 ".toList).length = 9 := by decide
  rw [firstLine, List.length_append, List.length_append, List.length_append, List.length_cons, hversion,
    show crlf.length = 2 from rfl]
  omega

section Generate

variable {r : HttpResponse} {hs : List (Bytes × Bytes)} (hr : r.Lists hs)

include hr

lemma HttpResponse.Lists.nul {h : Bytes × Bytes} (hh : h ∈ hs) : (0 : UInt8) ∉ lineOf h := by
  obtain ⟨i, hi⟩ := List.getElem?_of_mem hh
  obtain ⟨pair, -, hkey, hvalue⟩ := hr.held i h hi
  exact headerLine_nul hkey.1 hvalue.1

/-- A pass of the loop appends the line of its header as it was printed. -/
lemma addHeader_cases {i : ℕ} {h : Bytes × Bytes} (hi : hs[i]? = some h) {resp : StringT} {acc : Bytes}
    (hresp : resp.Holds acc) (hint : acc.length + 216 + 1 ≤ 2147483647) :
    ((lineOf h).length ≤ 216 ∧ ∃ resp', addHeader r memAll resp i = .ok resp' ∧
      resp'.Holds (acc ++ printed (lineOf h))) ∨
    (216 < (lineOf h).length ∧ addHeader r memAll resp i = .error .bounds) := by
  obtain ⟨pair, hpair, hkey, hvalue⟩ := hr.held i h hi
  rw [addHeader, get_natCast hpair, ok_bind, hkey.readString_eq, ok_bind, hvalue.readString_eq, ok_bind]
  rcases appendTemp_cases hresp (hr.nul (List.mem_of_getElem? hi)) hint with
    ⟨hle, temp, resp', htemp, happend, hholds⟩ | ⟨hgt, htemp⟩
  · rw [lineOf] at htemp
    rw [htemp, ok_bind, happend]
    exact .inl ⟨hle, resp', rfl, hholds⟩
  · rw [lineOf] at htemp
    rw [htemp]
    exact .inr ⟨hgt, rfl⟩

/-- The loop appends the lines of all headers, unless one of them is too long for its buffer. -/
lemma addHeaders_cases (n : ℕ) (hn : n ≤ hs.length) {resp : StringT} {acc : Bytes}
    (hresp : resp.Holds acc) (hint : acc.length + 216 * n + 1 ≤ 2147483647) :
    ((∀ h ∈ hs.take n, (lineOf h).length ≤ 216) ∧
      ∃ resp', (List.range n).foldlM (addHeader r memAll) resp = .ok resp' ∧
        resp'.Holds (acc ++ (hs.take n).flatMap fun h => printed (lineOf h)) ∧
        ((hs.take n).flatMap fun h => printed (lineOf h)).length ≤ 216 * n) ∨
    ((∃ h ∈ hs.take n, 216 < (lineOf h).length) ∧
      (List.range n).foldlM (addHeader r memAll) resp = .error .bounds) := by
  induction n with
  | zero => exact .inl ⟨by simp, resp, rfl, by simpa using hresp, by simp⟩
  | succ n ih =>
    obtain ⟨h, hh⟩ : ∃ h, hs[n]? = some h := ⟨_, List.getElem?_eq_getElem (by omega)⟩
    have htake : hs.take (n + 1) = hs.take n ++ [h] := by
      rw [List.take_add_one, hh]
      rfl
    rw [htake, List.range_succ, List.foldlM_append]
    rcases ih (by omega) (by omega) with ⟨hall, resp₁, hfold, hholds, hlen⟩ | ⟨⟨g, hg, hlong⟩, herror⟩
    · rw [hfold, ok_bind, List.foldlM_cons]
      rcases addHeader_cases hr hh hholds (by rw [List.length_append]; omega) with
        ⟨hle, resp₂, hadd, hholds₂⟩ | ⟨hlong, herror⟩
      · refine .inl ⟨?_, resp₂, by rw [hadd]; rfl, ?_, ?_⟩
        · rw [List.forall_mem_append, List.forall_mem_singleton]
          exact ⟨hall, hle⟩
        · rw [List.flatMap_append, List.flatMap_singleton, ← List.append_assoc]
          exact hholds₂
        · rw [List.flatMap_append, List.flatMap_singleton, List.length_append, length_printed hle]
          omega
      · exact .inr ⟨⟨h, by simp, hlong⟩, by rw [herror]; rfl⟩
    · exact .inr ⟨⟨g, List.mem_append_left _ hg, hlong⟩, by rw [herror]; rfl⟩

/-- The head as it was printed. -/
def printedHead (code : Int) (hs : List (Bytes × Bytes)) : Bytes :=
  firstLine code ++ hs.flatMap (fun h => printed (lineOf h)) ++ crlf

/-- `generate_response` builds the head as it was printed and the body up to its first zero byte, if
no line is too long for its buffer and the lengths add up to an `int`. -/
lemma generateResponse_lists (hcount : hs.length ≤ 128) (hfirst : (firstLine r.statusCode).length ≤ 215)
    {bs : Bytes} (hbody : r.body.Begins bs) :
    ((∀ h ∈ hs, (lineOf h).length ≤ 216) ∧
      (printedHead r.statusCode hs).length + bs.length + 1 ≤ 2147483647 ∧
      ∃ s, generateResponse r memAll = .ok s ∧ s.Holds (printedHead r.statusCode hs ++ padded bs)) ∨
    ((∀ h ∈ hs, (lineOf h).length ≤ 216) ∧
      2147483647 < (printedHead r.statusCode hs).length + bs.length + 1 ∧
      generateResponse r memAll = .error .overflow) ∨
    ((∃ h ∈ hs, 216 < (lineOf h).length) ∧ generateResponse r memAll = .error .bounds) := by
  have hcrlf : HasString (terminated crlf) crlf := hasString_terminated (by decide)
  have hnil : HasString (terminated []) [] := hasString_terminated List.not_mem_nil
  obtain ⟨empty, hempty, hemptyHolds⟩ := StringT.newString_eq hnil (by decide)
  obtain ⟨temp, resp₁, htemp, happend₁, hholds₁⟩ : ∃ temp resp₁,
      tempString (firstLine r.statusCode) true = .ok temp ∧
      empty.appendString temp true = .ok (true, resp₁) ∧ resp₁.Holds (firstLine r.statusCode) := by
    rcases appendTemp_cases hemptyHolds (firstLine_nul r.statusCode) (by decide) with
      ⟨-, temp, resp₁, htemp, happend, hholds⟩ | ⟨hlong, -⟩
    · rw [List.nil_append, (printed_eq_self_iff (firstLine_nul r.statusCode)).mpr hfirst] at hholds
      exact ⟨temp, resp₁, htemp, happend, hholds⟩
    · omega
  have hfold := addHeaders_cases hr hs.length (le_refl _) hholds₁ (by omega)
  rw [List.take_length] at hfold
  rcases hfold with ⟨hall, resp₂, hfold, hholds₂, hlen₂⟩ | ⟨hlong, hfold⟩
  · obtain ⟨sep, hsep, hsepHolds⟩ := StringT.newString_eq hcrlf (by decide)
    obtain ⟨resp₃, happend₃, hholds₃⟩ : ∃ resp₃, resp₂.appendString sep true = .ok (true, resp₃) ∧
        resp₃.Holds (printedHead r.statusCode hs) := by
      rcases StringT.appendString_eq hholds₂ hsepHolds.data hsepHolds.len hcrlf.strncpyBytes_eq with
        ⟨-, hok⟩ | ⟨hgt, -⟩
      · exact hok
      · rw [List.length_append, show crlf.length = 2 from rfl] at hgt
        omega
    have hrun : generateResponse r memAll = (do
        let body ← r.body.copyString true
        let appended ← resp₃.appendString body true
        pure appended.2) := by
      simp only [generateResponse, htemp, ok_bind, hempty, happend₁, hr.count, hfold, hsep, happend₃]
    rw [hrun]
    rcases le_or_gt (bs.length + 1) 2147483647 with hint | hbig
    · obtain ⟨body, hcopy, hbody⟩ := hbody.copyString_eq hint
      have hpadded : strncpyBytes (terminated bs) (padded bs).length = .ok (padded bs) := by
        rw [length_padded, strncpyBytes_padded]
      rw [hcopy, ok_bind]
      rcases StringT.appendString_eq hholds₃ hbody.data (by rw [hbody.len, length_padded]) hpadded with
        ⟨hle, s, hok, hholds⟩ | ⟨hgt, herror⟩
      · rw [length_padded] at hle
        exact .inl ⟨hall, hle, s, by rw [hok]; rfl, hholds⟩
      · rw [length_padded] at hgt
        exact .inr (.inl ⟨hall, hgt, by rw [herror]; rfl⟩)
    · refine .inr (.inl ⟨hall, by omega, ?_⟩)
      rw [StringT.copyString, StringT.newNString, hbody.1, add_overflow (by omega)]
      rfl
  · refine .inr (.inr ⟨hlong, ?_⟩)
    simp only [generateResponse, htemp, ok_bind, hempty, happend₁, hr.count, hfold, error_bind]

omit hr in
/-- Nothing is lost if and only if each line has at most 215 bytes. -/
lemma printedHead_eq_iff (code : Int) (hnul : ∀ h ∈ hs, (0 : UInt8) ∉ lineOf h) :
    printedHead code hs = headText code hs ↔ ∀ h ∈ hs, (lineOf h).length ≤ 215 := by
  rw [printedHead, headText, List.append_left_inj, List.append_right_inj]
  constructor
  · intro heq h hh
    by_contra hlong
    have hmem : (0 : UInt8) ∈ hs.flatMap fun h => printed (lineOf h) := by
      refine List.mem_flatMap.mpr ⟨h, hh, ?_⟩
      rw [printed, if_neg hlong]
      exact List.mem_append_right _ List.mem_cons_self
    rw [heq] at hmem
    obtain ⟨g, hg, hzero⟩ := List.mem_flatMap.mp hmem
    exact hnul g hg hzero
  · intro hall
    exact List.flatMap_congr fun h hh => (printed_eq_self_iff (hnul h hh)).mpr (hall h hh)

/-- The head of short lines and the body up to its first zero byte, if their lengths add up to an
`int`. -/
lemma generateResponse_cases (hcount : hs.length ≤ 128) (hfit : LinesFit r.statusCode hs) {bs : Bytes}
    (hbody : r.body.Begins bs) :
    ((headText r.statusCode hs).length + bs.length + 1 ≤ 2147483647 ∧
      ∃ s, generateResponse r memAll = .ok s ∧ s.Holds (headText r.statusCode hs ++ padded bs)) ∨
    (2147483647 < (headText r.statusCode hs).length + bs.length + 1 ∧
      generateResponse r memAll = .error .overflow) := by
  have hhead : printedHead r.statusCode hs = headText r.statusCode hs :=
    (printedHead_eq_iff r.statusCode fun h hh => hr.nul hh).mpr hfit.2
  rcases generateResponse_lists hr hcount hfit.1 hbody with ⟨-, hok⟩ | ⟨-, herror⟩ | ⟨⟨h, hh, hlong⟩, -⟩
  · rw [hhead] at hok
    exact .inl hok
  · rw [hhead] at herror
    exact .inr herror
  · have := hfit.2 h hh
    rw [lineOf] at hlong
    omega

end Generate

/-! ### The head -/

/-- The status line, the lines of the headers and an empty line are in front of the body, and no store
was outside a buffer. -/
def HttpResponse.HeadExact (r : HttpResponse) (hs : List (Bytes × Bytes)) : Prop :=
  ∃ s body, generateResponse r memAll = .ok s ∧ s.bytes = .ok (headText r.statusCode hs ++ body) ∧
    r.body.len = body.length

/-- The head is exact if and only if each line of a header has at most 215 bytes, and the length of
the whole is an `int`. -/
theorem head_exact_iff {r : HttpResponse} {hs : List (Bytes × Bytes)} (hr : r.Lists hs)
    (hcount : r.headerCount ≤ 128) (hcode : -2147483648 ≤ r.statusCode ∧ r.statusCode ≤ 2147483647)
    {bs : Bytes} (hbody : r.body.Begins bs) :
    r.HeadExact hs ↔ (∀ h ∈ hs, (headerLine h.1 h.2).length ≤ 215) ∧
      (headText r.statusCode hs).length + bs.length + 1 ≤ 2147483647 := by
  have hlen : hs.length ≤ 128 := by
    rw [← hr.count]
    omega
  have hfirst := length_firstLine_le hcode.1 hcode.2
  have hhead := printedHead_eq_iff r.statusCode fun h hh => hr.nul hh
  constructor
  · rintro ⟨s, body, hok, hbytes, hbodyLen⟩
    rcases generateResponse_lists hr hlen hfirst hbody with
      ⟨-, hint, s', hok', hholds⟩ | ⟨-, -, herror⟩ | ⟨-, herror⟩
    · rw [hok] at hok'
      cases hok'
      rw [hholds.bytes_eq] at hbytes
      have hback : (padded bs).length = body.length := by
        rw [length_padded]
        exact Int.ofNat_inj.mp (hbody.1.symm.trans hbodyLen)
      have heq := (List.append_inj' (Except.ok.inj hbytes) hback).1
      rw [heq] at hint
      exact ⟨hhead.mp heq, hint⟩
    · rw [hok] at herror
      cases herror
    · rw [hok] at herror
      cases herror
  · rintro ⟨hlines, hint⟩
    rcases generateResponse_cases hr hlen ⟨hfirst, hlines⟩ hbody with ⟨-, s, hok, hholds⟩ | ⟨hgt, -⟩
    · exact ⟨s, padded bs, hok, hholds.bytes_eq, by rw [length_padded]; exact hbody.1⟩
    · omega

/-- The response with one header and no body. -/
def oneHeader (h : Bytes × Bytes) : HttpResponse :=
  { initResp with
    headers := some ⟨terminated h.1, terminated h.2⟩ :: List.replicate 127 (some .zero)
    headerCount := 1 }

lemma lists_oneHeader {h : Bytes × Bytes} (hkey : (0 : UInt8) ∉ h.1) (hvalue : (0 : UInt8) ∉ h.2) :
    (oneHeader h).Lists [h] := by
  refine ⟨rfl, fun i g hi => ?_⟩
  cases i with
  | zero =>
    cases hi
    exact ⟨_, rfl, hasString_terminated hkey, hasString_terminated hvalue⟩
  | succ i => cases hi

theorem head_exact_iff_host :
    (oneHeader (header "Host".toList "a".toList)).HeadExact [header "Host".toList "a".toList] ↔
      (∀ h ∈ [header "Host".toList "a".toList], (headerLine h.1 h.2).length ≤ 215) ∧
        (headText 0 [header "Host".toList "a".toList]).length + ([] : Bytes).length + 1 ≤ 2147483647 :=
  @head_exact_iff _ _ (lists_oneHeader (by decide) (by decide)) (by decide) (by decide) []
    ⟨rfl, [], rfl⟩

/-- The longest name and value that have a place in the array. -/
def longHeader : Bytes × Bytes := (List.replicate 127 (chr 'k'), List.replicate 127 (chr 'v'))

/-- `snprintf` returns 258, and the zero byte is stored behind the buffer. -/
theorem long_header_out_of_bounds :
    (oneHeader longHeader).Lists [longHeader] ∧
      generateResponse (oneHeader longHeader) memAll = .error .bounds ∧
      ¬ (oneHeader longHeader).HeadExact [longHeader] := by
  have hr := @lists_oneHeader longHeader (by decide) (by decide)
  have hlong : (lineOf longHeader).length = 258 := by decide +kernel
  have herror : generateResponse (oneHeader longHeader) memAll = .error .bounds := by
    rcases @generateResponse_lists _ _ hr (by decide) (by decide) [] ⟨rfl, [], rfl⟩ with
      ⟨hall, -⟩ | ⟨hall, -⟩ | ⟨-, herror⟩
    · exact absurd (hall longHeader List.mem_cons_self) (by rw [hlong]; decide)
    · exact absurd (hall longHeader List.mem_cons_self) (by rw [hlong]; decide)
    · exact herror
  refine ⟨hr, herror, ?_⟩
  rintro ⟨s, body, hok, -⟩
  rw [herror] at hok
  cases hok

end Ccybe
