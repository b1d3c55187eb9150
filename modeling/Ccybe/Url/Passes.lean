import Ccybe.Lib.Logged
import Ccybe.Url.Escapes

/-!
# The passes of `decode_url`

The loop of `decode_url` once more, with a log of the cells that it reads and writes and of what each
pass does with the characters in front of it.
-/

namespace Ccybe

open CSem Logged

/-- What the loop does; the last two are what a pass was about. -/
inductive DecodeEvent where
  | read (i : Int)      -- `url[i]`
  | store (k : Int)     -- `dec_url[k]`
  | copied (i : Int)
  | escape (i : Int)
  deriving DecidableEq

/-- Read `url[i]`. -/
def readUrl (url : Block) (i : Int) : Logged DecodeEvent UInt8 := event (.read i) (get url i)

/-- Write `dec_url[k]`. -/
def storeDec (decUrl : Block) (k : Int) (c : UInt8) : Logged DecodeEvent Block :=
  event (.store k) (set decUrl k c)

/-- The loop of `decode_url` from `i` on, with at most `passes` passes. -/
def decodeLogged (url : Block) (n : Int) :
    ℕ → Int → Int → Block → Logged DecodeEvent (Int × Block)
  | 0, i, len, decUrl => do
    if i < n then silent (.error .passes)
    else
      let decUrl ← storeDec decUrl len 0
      pure (0, decUrl)
  | passes + 1, i, len, decUrl => do
    if i < n then
      let c ← readUrl url i
      let last ← silent (sub n 3)
      let next ← silent (add len 1)
      if c = chr '%' ∧ i < last then
        let kind ← readUrl url (i + 1)
        let code ← readUrl url (i + 2)
        if kind = chr '2' then
          let x := get2Char code
          if x = 0 then pure (-1, decUrl)
          else
            let decUrl ← storeDec decUrl len x
            event (.escape i) (pure ())
            decodeLogged url n passes (i + 3) next decUrl
        else if kind = chr '3' then
          let x := get3Char code
          if x = 0 then pure (-1, decUrl)
          else
            let decUrl ← storeDec decUrl len x
            event (.escape i) (pure ())
            decodeLogged url n passes (i + 3) next decUrl
        else pure (-1, decUrl)
      else
        let decUrl ← storeDec decUrl len c
        event (.copied i) (pure ())
        decodeLogged url n passes (i + 1) next decUrl
    else
      let decUrl ← storeDec decUrl len 0
      pure (0, decUrl)

/-- `decode_url`. -/
def decodeUrlLogged (url decUrl : Block) : Logged DecodeEvent (Int × Block) := do
  let n ← silent (strlen url)
  decodeLogged url (toInt n) n 0 0 decUrl

/-! ### The log changes nothing -/

lemma value_decodeLogged (url : Block) (n : Int) (passes : ℕ) (i len : Int) (decUrl : Block) :
    (decodeLogged url n passes i len decUrl).value = decodeFrom url n passes i len decUrl := by
  induction passes generalizing i len decUrl with
  | zero =>
    rw [decodeLogged, decodeFrom]
    split_ifs
    · rw [value_silent]
    · simp only [value_bind, storeDec, value_event, value_pure, pure_eq_ok]
  | succ passes ih =>
    simp only [decodeLogged, decodeFrom, readUrl, storeDec, apply_ite value, value_bind, value_event,
      value_silent, value_pure, pure_eq_ok, ok_bind, ih]

lemma value_decodeUrlLogged (url decUrl : Block) :
    (decodeUrlLogged url decUrl).value = decodeUrl url decUrl := by
  simp only [decodeUrlLogged, decodeUrl, value_bind, value_silent, value_decodeLogged]

/-! ### One pass -/

/-- A character is written over the first of the cells that are left. -/
lemma set_next (out : Bytes) (x : UInt8) (cell : Option UInt8) (room : Block) :
    set (out.map some ++ cell :: room) out.length x = .ok ((out ++ [x]).map some ++ room) := by
  have hlen : out.length = (out.map some).length := (List.length_map some).symm
  rw [set_natCast _ (by simp), hlen, List.set_append_right _ _ (le_refl _)]
  simp

/-- The loop between two passes: `done` is behind it and `url` before it, `out` is written. -/
def loggedHere (done url : Bytes) (more : Block) (passes : ℕ) (out : Bytes) (room : Block) :
    Logged DecodeEvent (Int × Block) :=
  decodeLogged ((done ++ url).map some ++ more) (done ++ url).length passes done.length out.length
    (out.map some ++ room)

section Passes

variable {done url : Bytes} {more : Block} {out : Bytes}

lemma loggedHere_nil (passes : ℕ) (cell : Option UInt8) (room : Block) :
    loggedHere done [] more passes out (cell :: room) =
      after [.store out.length] (pure (0, terminated out ++ room)) := by
  have hstop : ¬ ((done.length : Int) < (done ++ []).length) := by
    rw [List.append_nil]
    exact lt_irrefl _
  have hstore : storeDec (out.map some ++ cell :: room) out.length 0 >>=
      (fun decUrl => (pure ((0 : Int), decUrl) : Logged DecodeEvent (Int × Block))) =
        after [.store out.length] (pure (0, terminated out ++ room)) := by
    rw [storeDec, event_bind (set_next out 0 cell room), terminated, List.map_append]
    rfl
  cases passes <;> rw [loggedHere, decodeLogged, if_neg hstop, hstore]

/-- A pass that copies a character. -/
lemma loggedHere_copy {c : UInt8} (hc : c ≠ chr '%' ∨ url.length ≤ 2)
    (hn : (done ++ c :: url).length ≤ 2147483647) (hout : out.length ≤ done.length) (passes : ℕ)
    (cell : Option UInt8) (room : Block) :
    loggedHere done (c :: url) more (passes + 1) out (cell :: room) =
      after [.read done.length, .store out.length, .copied done.length]
        (loggedHere (done ++ [c]) url more passes (out ++ [c]) room) := by
  have hlen : (done ++ c :: url).length = done.length + url.length + 1 := by simp [add_assoc]
  have hget : get ((done ++ c :: url).map some ++ more) done.length = .ok c :=
    get_natCast (by simp)
  have hsub : sub ((done ++ c :: url).length : Int) 3 = .ok (((done ++ c :: url).length : Int) - 3) :=
    sub_ok (by omega) (by omega)
  have hadd : add (out.length : Int) 1 = .ok ((out.length : Int) + 1) :=
    add_ok (by omega) (by omega)
  have htest : ¬ (c = chr '%' ∧ (done.length : Int) < ((done ++ c :: url).length : Int) - 3) := by
    rintro ⟨hpct, hlt⟩
    rcases hc with hc | hc
    · exact hc hpct
    · omega
  rw [loggedHere, decodeLogged, if_pos (by omega), readUrl, event_bind hget, silent_bind hsub,
    silent_bind hadd, if_neg htest, storeDec, event_bind (set_next out c cell room),
    event_bind (pure_eq_ok ()), after_after, after_after, loggedHere]
  simp

/-- A pass at a `%` with three characters behind it. -/
lemma loggedHere_escape {a b d : UInt8} (hn : (done ++ chr '%' :: a :: b :: d :: url).length ≤ 2147483647)
    (hout : out.length ≤ done.length) (passes : ℕ) (cell : Option UInt8) (room : Block) :
    loggedHere done (chr '%' :: a :: b :: d :: url) more (passes + 1) out (cell :: room) =
      after [.read done.length, .read (done.length + 1), .read (done.length + 2)]
        (match escaped a b with
        | none => pure (-1, out.map some ++ cell :: room)
        | some x => after [.store out.length, .escape done.length]
          (loggedHere (done ++ [chr '%', a, b]) (d :: url) more passes (out ++ [x]) room)) := by
  have hlen : (done ++ chr '%' :: a :: b :: d :: url).length = done.length + url.length + 4 := by
    simp [add_assoc]
  have hget : get ((done ++ chr '%' :: a :: b :: d :: url).map some ++ more) done.length =
      .ok (chr '%') := get_natCast (by simp)
  have hkind : get ((done ++ chr '%' :: a :: b :: d :: url).map some ++ more) (done.length + 1 : ℕ) =
      .ok a := get_natCast (by simp)
  have hcode : get ((done ++ chr '%' :: a :: b :: d :: url).map some ++ more) (done.length + 2 : ℕ) =
      .ok b := get_natCast (by simp)
  have hsub : sub ((done ++ chr '%' :: a :: b :: d :: url).length : Int) 3 =
      .ok (((done ++ chr '%' :: a :: b :: d :: url).length : Int) - 3) :=
    sub_ok (by omega) (by omega)
  have hadd : add (out.length : Int) 1 = .ok ((out.length : Int) + 1) :=
    add_ok (by omega) (by omega)
  rw [Nat.cast_add, Nat.cast_one] at hkind
  rw [Nat.cast_add, Nat.cast_ofNat] at hcode
  rw [loggedHere, decodeLogged, if_pos (by omega), readUrl, event_bind hget, silent_bind hsub,
    silent_bind hadd, if_pos ⟨rfl, by omega⟩, readUrl, event_bind hkind, readUrl, event_bind hcode,
    after_after, after_after]
  have hthree : (chr '3' : UInt8) ≠ chr '2' := by decide
  by_cases ha₂ : a = chr '2'
  · by_cases hx : get2Char b = 0
    · simp [escaped, ha₂, hx]
    · simp only [escaped, ha₂, hx, if_true, if_false, storeDec, event_bind (set_next out _ cell room),
        event_bind (pure_eq_ok ()), after_after, loggedHere]
      simp
  · by_cases ha₃ : a = chr '3'
    · by_cases hx : get3Char b = 0
      · simp [escaped, ha₃, hx, hthree]
      · simp only [escaped, ha₃, hx, hthree, if_true, if_false, storeDec,
          event_bind (set_next out _ cell room), event_bind (pure_eq_ok ()), after_after, loggedHere]
        simp
    · simp [escaped, ha₂, ha₃]

end Passes

/-- An induction along the passes: a character is copied if it is no `%` or has at most two others
behind it. -/
lemma pass_induction {P : Bytes → Prop} (nil : P [])
    (copy : ∀ c url, c ≠ chr '%' ∨ url.length ≤ 2 → P url → P (c :: url))
    (escape : ∀ a b d x url, escaped a b = some x → P (d :: url) → P (chr '%' :: a :: b :: d :: url))
    (refused : ∀ a b d url, escaped a b = none → P (chr '%' :: a :: b :: d :: url)) (url : Bytes) :
    P url := by
  induction hn : url.length using Nat.strong_induction_on generalizing url with
  | _ n ih =>
    subst hn
    match url with
    | [] => exact nil
    | c :: url =>
      by_cases hc : c ≠ chr '%' ∨ url.length ≤ 2
      · exact copy c url hc (ih url.length (by simp) url rfl)
      · rw [not_or, not_not, not_le] at hc
        obtain ⟨rfl, hlong⟩ := hc
        match url, hlong with
        | a :: b :: d :: url, _ =>
          cases hx : escaped a b with
          | none => exact refused a b d url hx
          | some x =>
            refine escape a b d x url hx (ih (d :: url).length ?_ (d :: url) rfl)
            simp only [List.length_cons]
            omega

end Ccybe
