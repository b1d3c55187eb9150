import Ccybe.Ds.Buffer
import Ccybe.Lib.Heap

/-!
# Strings as sequences of bytes

The variables of a program are strings whose data is on the heap. Seen from outside, a variable is
a text, a null string, or a string that was released when it was appended to another one.
-/

namespace Ccybe

open CSem

/-- `string_t`, with the address of its data. -/
structure StringVar where
  len : Int
  data : Option ℕ
  deriving DecidableEq

namespace StringVar

/-- The string of a variable, with its data. -/
def load (h : Heap UInt8) (v : StringVar) : Eval StringT :=
  match v.data with
  | none => pure ⟨v.len, none⟩
  | some p => do
    let data ← h.load p
    pure ⟨v.len, some data⟩

/-- A string becomes a variable; its data, if there is one, is a new block. -/
def place (h : Heap UInt8) (s : StringT) : Heap UInt8 × StringVar :=
  match s.data with
  | none => (h, ⟨s.len, none⟩)
  | some data =>
    let (h, p) := h.alloc data
    (h, ⟨s.len, some p⟩)

/-- The data of `a` moves to a new block. -/
def moved (h : Heap UInt8) (a : StringVar) (s : StringT) : Heap UInt8 × StringVar :=
  match a.data, s.data with
  | some p, some data =>
    let (h, q) := h.move p data
    (h, ⟨s.len, some q⟩)
  | _, _ => (h, a)

/-- `append_string` on the heap; `free_string(*b)` is its last statement. -/
def appendString (h : Heap UInt8) (a b : StringVar) (mem : Bool) :
    Eval (Bool × Heap UInt8 × StringVar) := do
  let sa ← a.load h
  let sb ← b.load h
  let (ok, s) ← sa.appendString sb mem
  if ok then do
    let (h, a) := moved h a s
    let h ← match b.data with
      | none => pure h
      | some q => h.free q
    pure (true, h, a)
  else pure (false, h, a)

/-- `append_string_cstr` on the heap. -/
def appendStringCstr (h : Heap UInt8) (a : StringVar) (b : Option Block) (mem : Bool) :
    Eval (Bool × Heap UInt8 × StringVar) := do
  let sa ← a.load h
  let (ok, s) ← sa.appendStringCstr b mem
  if ok then do
    let (h, a) := moved h a s
    pure (true, h, a)
  else pure (false, h, a)

end StringVar

/-- A call of a function of `buffer.h` on the variables; `mem` says whether there is memory for it.
The first, the second and the last one make a new variable. -/
inductive StringOp where
  | newString (str : Option Block) (mem : Bool)
  | initString (mem : Bool)
  | appendString (a b : ℕ) (mem : Bool)
  | appendStringCstr (a : ℕ) (b : Option Block) (mem : Bool)
  | copyString (a : ℕ) (mem : Bool)

/-- The variables and the heap. -/
structure Strings where
  heap : Heap UInt8
  vars : List StringVar

namespace Strings

def init : Strings := ⟨.empty, []⟩

/-- Variable `i`. -/
def var (m : Strings) (i : ℕ) : Eval StringVar :=
  match m.vars[i]? with
  | none => .error .bounds
  | some v => .ok v

/-- A new variable. -/
def push (m : Strings) (s : StringT) : Strings :=
  let (h, v) := StringVar.place m.heap s
  ⟨h, m.vars ++ [v]⟩

/-- What a call returns, if it is a `bool`, and the state after it. -/
def apply (m : Strings) : StringOp → Eval (Option Bool × Strings)
  | .newString str mem => do
    let s ← StringT.newString str mem
    pure (none, m.push s)
  | .initString mem => do
    let s ← StringT.newString (some (terminated [])) mem
    pure (none, m.push s)
  | .appendString a b mem => do
    let va ← m.var a
    let vb ← m.var b
    let (ok, h, va) ← va.appendString m.heap vb mem
    pure (some ok, ⟨h, m.vars.set a va⟩)
  | .appendStringCstr a b mem => do
    let va ← m.var a
    let (ok, h, va) ← va.appendStringCstr m.heap b mem
    pure (some ok, ⟨h, m.vars.set a va⟩)
  | .copyString a mem => do
    let va ← m.var a
    let sa ← va.load m.heap
    let s ← sa.copyString mem
    pure (none, m.push s)

/-- The state after the calls. -/
def run (m : Strings) : List StringOp → Eval Strings
  | [] => pure m
  | op :: ops => do
    let (_, m) ← m.apply op
    m.run ops

end Strings

/-! ### The texts -/

/-- What a variable is. -/
inductive Slot where
  | null
  | text (bs : Bytes)
  | released
  deriving DecidableEq

/-- A new variable with this text, if there is memory. -/
def Slot.made (bs : Bytes) (mem : Bool) : Slot := if mem then .text bs else .null

/-- The text of a C string that is shorter than `2 ^ 31 - 1`. -/
def stringArg (str : Block) : Option Bytes :=
  match readString str with
  | .ok bs => if bs.length < 2147483647 then some bs else none
  | .error _ => none

/-- What a call returns and what the variables are after it, if it is a call that a program may make:
the variables are there and were not released, those of `append_string` are two, the C strings can
be read, and the total length is below `2 ^ 31 - 1`. -/
def StringOp.next (slots : List Slot) : StringOp → Option (Option Bool × List Slot)
  | .newString none _ => some (none, slots ++ [.null])
  | .newString (some str) mem => (stringArg str).map fun bs => (none, slots ++ [.made bs mem])
  | .initString mem => some (none, slots ++ [.made [] mem])
  | .appendString a b mem =>
    if a = b then none
    else match slots[a]?, slots[b]? with
      | some (.text x), some (.text y) =>
        if x.length + y.length < 2147483647 then
          if mem then some (some true, (slots.set a (.text (x ++ y))).set b .released)
          else some (some false, slots)
        else none
      | some (.text _), some .null => some (some false, slots)
      | some .null, some (.text _) => some (some false, slots)
      | some .null, some .null => some (some false, slots)
      | _, _ => none
  | .appendStringCstr a b mem =>
    match slots[a]?, b with
    | some (.text x), some str =>
      (stringArg str).bind fun y =>
        if x.length + y.length < 2147483647 then
          if mem then some (some true, slots.set a (.text (x ++ y)))
          else some (some false, slots)
        else none
    | some (.text _), none => some (some false, slots)
    | some .null, _ => some (some false, slots)
    | _, _ => none
  | .copyString a mem =>
    match slots[a]? with
    | some (.text x) => some (none, slots ++ [.made x mem])
    | some .null => some (none, slots ++ [.made [] mem])
    | _ => none

/-- The variables after the calls, if they are calls that a program may make. -/
def nextAll (slots : List Slot) : List StringOp → Option (List Slot)
  | [] => some slots
  | op :: ops => (op.next slots).bind fun r => nextAll r.2 ops

/-! ### What the variables hold -/

/-- The variable is what the slot says. -/
inductive Slot.Rep (h : Heap UInt8) : Slot → StringVar → Prop
  | null : Rep h .null ⟨0, none⟩
  | text {bs : Bytes} {p : ℕ} (nul : (0 : UInt8) ∉ bs) (int : bs.length < 2147483647)
      (live : h.Live p (terminated bs)) : Rep h (.text bs) ⟨bs.length, some p⟩
  | released {v : StringVar} {p : ℕ} (data : v.data = some p) (freed : p ∈ h.freed) :
      Rep h .released v

/-- The variables hold the texts: a text has a block of its own with a zero byte behind it, and none
was freed twice. -/
structure Strings.Holds (m : Strings) (slots : List Slot) : Prop where
  length : m.vars.length = slots.length
  each : ∀ (i : ℕ) (slot : Slot), slots[i]? = some slot →
    ∃ v, m.vars[i]? = some v ∧ slot.Rep m.heap v
  distinct : ∀ (i j : ℕ) (x y : Bytes) (v w : StringVar), slots[i]? = some (.text x) →
    slots[j]? = some (.text y) → m.vars[i]? = some v → m.vars[j]? = some w → v.data = w.data → i = j
  freed : m.heap.WellFreed

/-- The heap may change elsewhere. -/
lemma Slot.Rep.frame {h h' : Heap UInt8} {slot : Slot} {v : StringVar} (hrep : slot.Rep h v)
    (hlive : ∀ bs p, slot = .text bs → v.data = some p → h.Live p (terminated bs) →
      h'.Live p (terminated bs)) (hfreed : h.freed ⊆ h'.freed) : slot.Rep h' v := by
  cases hrep with
  | null => exact .null
  | text hnul hint hp => exact .text hnul hint (hlive _ _ rfl rfl hp)
  | released hdata hp => exact .released hdata (hfreed hp)

namespace Strings

lemma holds_init : init.Holds [] := by
  refine ⟨rfl, fun i slot hi => ?_, fun i j x y v w hi => ?_, Heap.wellFreed_empty⟩
  · cases hi
  · cases hi

variable {m : Strings} {slots : List Slot}

/-- A text has a block. -/
lemma Holds.live (hm : m.Holds slots) {i : ℕ} {bs : Bytes} {v : StringVar}
    (hi : slots[i]? = some (.text bs)) (hv : m.vars[i]? = some v) :
    ∃ p, v = ⟨bs.length, some p⟩ ∧ (0 : UInt8) ∉ bs ∧ bs.length < 2147483647 ∧
      m.heap.Live p (terminated bs) := by
  obtain ⟨w, hw, hrep⟩ := hm.each i _ hi
  obtain rfl : v = w := Option.some.inj (hv.symm.trans hw)
  cases hrep with
  | text hnul hint hp => exact ⟨_, rfl, hnul, hint, hp⟩

/-! ### A new variable -/

/-- A variable is added, and the others are as before. -/
lemma Holds.concat (hm : m.Holds slots) {h : Heap UInt8} {v : StringVar} {slot : Slot}
    (hlive : ∀ p block, m.heap.Live p block → h.Live p block) (hfreed : m.heap.freed ⊆ h.freed)
    (hw : h.WellFreed) (hrep : slot.Rep h v)
    (hnew : ∀ bs, slot = .text bs → ∀ p block, v.data = some p → ¬ m.heap.Live p block) :
    Strings.Holds ⟨h, m.vars ++ [v]⟩ (slots ++ [slot]) := by
  have hself : (m.vars ++ [v])[slots.length]? = some v := by
    rw [← hm.length]
    exact List.getElem?_concat_length
  -- An old variable is found where it was.
  have hold : ∀ (i : ℕ) (slot' : Slot) (w : StringVar), slots[i]? = some slot' →
      (m.vars ++ [v])[i]? = some w → m.vars[i]? = some w := by
    intro i slot' w hi hw
    rwa [List.getElem?_append_left] at hw
    rw [hm.length]
    exact (List.getElem?_eq_some_iff.mp hi).1
  refine ⟨by simp [hm.length], fun i slot' hi => ?_, fun i j x y w w' hi hj hw hw' hdata => ?_, hw⟩
  · rcases concat_cases hi with hi | ⟨rfl, rfl⟩
    · obtain ⟨w, hw, hrep'⟩ := hm.each i slot' hi
      refine ⟨w, ?_, hrep'.frame (fun _ _ _ _ => hlive _ _) hfreed⟩
      exact (List.getElem?_append_left (List.getElem?_eq_some_iff.mp hw).1).trans hw
    · exact ⟨v, hself, hrep⟩
  · rcases concat_cases hi with hi | ⟨rfl, hx⟩ <;> rcases concat_cases hj with hj | ⟨rfl, hy⟩
    · exact hm.distinct i j x y w w' hi hj (hold i _ w hi hw) (hold j _ w' hj hw') hdata
    · obtain ⟨p, rfl, -, -, hp⟩ := hm.live hi (hold i _ w hi hw)
      obtain rfl : v = w' := Option.some.inj (hself.symm.trans hw')
      exact absurd hp (hnew y hy.symm p _ hdata.symm)
    · obtain ⟨p, rfl, -, -, hp⟩ := hm.live hj (hold j _ w' hj hw')
      obtain rfl : v = w := Option.some.inj (hself.symm.trans hw)
      exact absurd hp (hnew x hx.symm p _ hdata)
    · rfl

/-- A new string, with or without memory. -/
lemma Holds.push (hm : m.Holds slots) {bs : Bytes} (hnul : (0 : UInt8) ∉ bs)
    (hint : bs.length < 2147483647) (mem : Bool) :
    (m.push (if mem then .of bs else .null)).Holds (slots ++ [.made bs mem]) := by
  cases mem with
  | true =>
    refine hm.concat (fun p block hp => hp.alloc _) (List.Subset.refl _) (hm.freed.alloc _)
      (.text hnul hint (Heap.live_alloc _ _)) fun _ _ p block hp hlive => ?_
    cases hp
    exact absurd hlive.lt (lt_irrefl _)
  | false =>
    exact hm.concat (fun _ _ hp => hp) (List.Subset.refl _) hm.freed .null fun _ h => by cases h

/-! ### A variable that changes -/

/-- A text is replaced, and the other variables are as before. -/
lemma Holds.replace (hm : m.Holds slots) {a : ℕ} {x : Bytes} {p : ℕ} (ha : slots[a]? = some (.text x))
    (hva : m.vars[a]? = some ⟨x.length, some p⟩) {h : Heap UInt8} {v : StringVar} {slot : Slot}
    (hlive : ∀ q block, m.heap.Live q block → q ≠ p → h.Live q block)
    (hfreed : m.heap.freed ⊆ h.freed) (hw : h.WellFreed) (hrep : slot.Rep h v)
    (hnew : ∀ bs, slot = .text bs → ∀ p block, v.data = some p → ¬ m.heap.Live p block) :
    Strings.Holds ⟨h, m.vars.set a v⟩ (slots.set a slot) := by
  have hlt : a < slots.length := (List.getElem?_eq_some_iff.mp ha).1
  have hself : (m.vars.set a v)[a]? = some v := List.getElem?_set_self (by rwa [hm.length])
  refine ⟨by simp [hm.length], fun i slot' hi => ?_, fun i j y z w w' hi hj hw hw' hdata => ?_, hw⟩
  · rcases eq_or_ne a i with rfl | hne
    · rw [List.getElem?_set_self hlt, Option.some.injEq] at hi
      exact ⟨v, hself, hi ▸ hrep⟩
    · rw [List.getElem?_set_ne hne] at hi
      obtain ⟨w, hw, hrep'⟩ := hm.each i slot' hi
      refine ⟨w, by rwa [List.getElem?_set_ne hne], hrep'.frame (fun bs q htext hq hp => ?_) hfreed⟩
      refine hlive q _ hp fun heq => hne ?_
      exact hm.distinct a i x bs _ w ha (htext ▸ hi) hva hw (by rw [hq, heq])
  · rcases eq_or_ne a i with rfl | hne <;> rcases eq_or_ne a j with rfl | hne'
    · rfl
    · rw [List.getElem?_set_self hlt, Option.some.injEq] at hi
      rw [List.getElem?_set_ne hne'] at hj hw'
      obtain ⟨q, rfl, -, -, hq⟩ := hm.live hj hw'
      obtain rfl : v = w := Option.some.inj (hself.symm.trans hw)
      exact absurd hq (hnew y hi q _ hdata)
    · rw [List.getElem?_set_self hlt, Option.some.injEq] at hj
      rw [List.getElem?_set_ne hne] at hi hw
      obtain ⟨q, rfl, -, -, hq⟩ := hm.live hi hw
      obtain rfl : v = w' := Option.some.inj (hself.symm.trans hw')
      exact absurd hq (hnew z hj q _ hdata.symm)
    · rw [List.getElem?_set_ne hne] at hi hw
      rw [List.getElem?_set_ne hne'] at hj hw'
      exact hm.distinct i j y z w w' hi hj hw hw' hdata

/-- The text grows in a new block. -/
lemma Holds.grow (hm : m.Holds slots) {a : ℕ} {x : Bytes} {p : ℕ} (ha : slots[a]? = some (.text x))
    (hva : m.vars[a]? = some ⟨x.length, some p⟩) {z : Bytes} (hnul : (0 : UInt8) ∉ z)
    (hint : z.length < 2147483647) :
    Strings.Holds ⟨(m.heap.move p (terminated z)).1,
      m.vars.set a ⟨z.length, some (m.heap.move p (terminated z)).2⟩⟩ (slots.set a (.text z)) := by
  refine hm.replace ha hva (fun q block hq hne => hq.move hne _) (List.Subset.refl _) (hm.freed.move p _)
    (.text hnul hint (Heap.live_move _ p _)) fun _ _ q block hq hlive => ?_
  cases hq
  rw [Heap.move_snd] at hlive
  exact absurd hlive.lt (lt_irrefl _)

/-- The block of the text is freed. -/
lemma Holds.release (hm : m.Holds slots) {b : ℕ} {y : Bytes} {q : ℕ} (hb : slots[b]? = some (.text y))
    (hvb : m.vars[b]? = some ⟨y.length, some q⟩) :
    Strings.Holds ⟨⟨m.heap.blocks.set q none, m.heap.freed ++ [q]⟩, m.vars⟩ (slots.set b .released) := by
  obtain ⟨q', hq', -, -, hlive⟩ := hm.live hb hvb
  cases hq'
  have hset : m.vars.set b ⟨y.length, some q⟩ = m.vars := by
    obtain ⟨hlt, hget⟩ := List.getElem?_eq_some_iff.mp hvb
    rw [← hget, List.set_getElem_self]
  have hreleased := hm.replace hb hvb (fun p block hp hne => hp.free hne (m.heap.freed ++ [q]))
    (List.subset_append_left _ _) (hm.freed.free hlive)
    (.released (show StringVar.data ⟨y.length, some q⟩ = some q from rfl) (by simp)) fun _ h => by cases h
  rwa [hset] at hreleased

end Strings

/-! ### The functions -/

lemma stringArg_eq {str : Block} {bs : Bytes} (h : stringArg str = some bs) :
    HasString str bs ∧ bs.length < 2147483647 := by
  rw [stringArg] at h
  cases hread : readString str with
  | error u => simp [hread] at h
  | ok text =>
    simp only [hread] at h
    split_ifs at h with hlt
    cases h
    refine ⟨?_, hlt⟩
    cases hlen : strlen str with
    | error u => simp [readString, hlen] at hread
    | ok n =>
      obtain ⟨text, htext⟩ := hasString_of_strlen hlen
      rw [htext.readString_eq] at hread
      cases hread
      exact htext

namespace StringVar

variable {h : Heap UInt8} {x y : Bytes} {p q : ℕ}

lemma load_text (hp : h.Live p (terminated x)) :
    load h ⟨x.length, some p⟩ = .ok (StringT.of x) := by
  simp only [load, hp.load_eq, ok_bind]
  rfl

lemma load_null (h : Heap UInt8) : load h ⟨0, none⟩ = .ok StringT.null := rfl

/-- The text of `b` goes behind that of `a`, and the block of `b` is freed; or nothing happens. -/
lemma appendString_text (hp : h.Live p (terminated x)) (hq : h.Live q (terminated y)) (hne : p ≠ q)
    (hnul : (0 : UInt8) ∉ y) (hint : x.length + y.length < 2147483647) (mem : Bool) :
    appendString h ⟨x.length, some p⟩ ⟨y.length, some q⟩ mem =
      .ok (if mem then (true,
        ⟨(h.move p (terminated (x ++ y))).1.blocks.set q none, h.freed ++ [q]⟩,
        ⟨(x ++ y).length, some (h.move p (terminated (x ++ y))).2⟩)
      else (false, h, ⟨x.length, some p⟩)) := by
  have hfree := (hq.move hne.symm (terminated (x ++ y))).free_eq
  rw [appendString, load_text hp, ok_bind, load_text hq, ok_bind,
    StringT.appendString_if x hnul (by omega) mem, ok_bind]
  cases mem with
  | true =>
    simp only [if_true, moved, StringT.of, hfree, ok_bind]
    rfl
  | false => rfl

lemma appendStringCstr_text (hp : h.Live p (terminated x)) {str : Block} (hstr : HasString str y)
    (hint : x.length + y.length < 2147483647) (mem : Bool) :
    appendStringCstr h ⟨x.length, some p⟩ (some str) mem =
      .ok (if mem then (true, (h.move p (terminated (x ++ y))).1,
        ⟨(x ++ y).length, some (h.move p (terminated (x ++ y))).2⟩)
      else (false, h, ⟨x.length, some p⟩)) := by
  rw [appendStringCstr, load_text hp, ok_bind, StringT.appendStringCstr_if x hstr (by omega) mem, ok_bind]
  cases mem with
  | true => rfl
  | false => rfl

/-- A null string is not appended to, and not appended. -/
lemma appendString_null {a b : StringVar} {sa sb : StringT} (ha : a.load h = .ok sa)
    (hb : b.load h = .ok sb) (hnull : sa.data = none ∨ sb.data = none) (mem : Bool) :
    a.appendString h b mem = .ok (false, h, a) := by
  have happend : sa.appendString sb mem = .ok (false, sa) := by
    rcases hnull with hnull | hnull
    · simp only [StringT.appendString, hnull, pure_eq_ok]
    · cases hdata : sa.data <;> simp only [StringT.appendString, hdata, hnull, pure_eq_ok]
  rw [appendString, ha, ok_bind, hb, ok_bind, happend]
  rfl

lemma appendStringCstr_null {a : StringVar} {sa : StringT} (ha : a.load h = .ok sa) {b : Option Block}
    (hnull : sa.data = none ∨ b = none) (mem : Bool) :
    a.appendStringCstr h b mem = .ok (false, h, a) := by
  have happend : sa.appendStringCstr b mem = .ok (false, sa) := by
    rcases hnull with hnull | rfl
    · simp only [StringT.appendStringCstr, hnull, pure_eq_ok]
    · cases hdata : sa.data <;> simp only [StringT.appendStringCstr, hdata, pure_eq_ok]
  rw [appendStringCstr, ha, ok_bind, happend]
  rfl

end StringVar

/-! ### Calls -/

/-- The variable that a call consumes. -/
def StringOp.consumed : StringOp → Option Bool → Option ℕ
  | .appendString _ b _, some true => some b
  | _, _ => none

namespace Strings

/-- What a call changes: nothing if it returns false; and the only block that is freed is that of the
variable which is consumed. -/
structure Changes (m : Strings) (op : StringOp) (result : Option Bool) (m' : Strings) : Prop where
  failed : result = some false → m' = m
  consumed : ∀ b, op.consumed result = some b → ∃ v q, m.vars[b]? = some v ∧ v.data = some q ∧
    m'.heap.freed = m.heap.freed ++ [q]
  kept : op.consumed result = none → m'.heap.freed = m.heap.freed

variable {m : Strings} {slots : List Slot}

lemma var_eq {a : ℕ} {v : StringVar} (hv : m.vars[a]? = some v) : m.var a = .ok v := by
  rw [var, hv]

lemma set_self {a : ℕ} {v : StringVar} (hv : m.vars[a]? = some v) :
    (⟨m.heap, m.vars.set a v⟩ : Strings) = m := by
  obtain ⟨hlt, hget⟩ := List.getElem?_eq_some_iff.mp hv
  rw [← hget, List.set_getElem_self]

/-- The variable of a slot that was not released, and its string. -/
lemma Holds.text_eq (hm : m.Holds slots) {i : ℕ} {bs : Bytes} (hi : slots[i]? = some (.text bs)) :
    ∃ p, m.vars[i]? = some ⟨bs.length, some p⟩ ∧ (0 : UInt8) ∉ bs ∧ bs.length < 2147483647 ∧
      m.heap.Live p (terminated bs) := by
  obtain ⟨v, hv, -⟩ := hm.each i _ hi
  obtain ⟨p, rfl, hnul, hint, hp⟩ := hm.live hi hv
  exact ⟨p, hv, hnul, hint, hp⟩

lemma Holds.null_eq (hm : m.Holds slots) {i : ℕ} (hi : slots[i]? = some .null) :
    m.vars[i]? = some ⟨0, none⟩ := by
  obtain ⟨v, hv, hrep⟩ := hm.each i _ hi
  cases hrep
  exact hv

/-- The call returns `result`, and the variables hold `slots'` after it. -/
def Steps (m : Strings) (op : StringOp) (result : Option Bool) (slots' : List Slot) : Prop :=
  ∃ m', m.apply op = .ok (result, m') ∧ m'.Holds slots' ∧ m.Changes op result m'

/-- A call that returns false. -/
lemma Holds.steps_false (hm : m.Holds slots) {op : StringOp} (h : m.apply op = .ok (some false, m)) :
    m.Steps op (some false) slots := by
  refine ⟨m, h, hm, fun _ => rfl, fun b hb => ?_, fun _ => rfl⟩
  cases op <;> cases hb

/-- A call that makes a new variable. -/
lemma Holds.steps_push (hm : m.Holds slots) {op : StringOp} {bs : Bytes} {mem : Bool}
    (hnul : (0 : UInt8) ∉ bs) (hint : bs.length < 2147483647)
    (h : m.apply op = .ok (none, m.push (if mem then .of bs else .null))) :
    m.Steps op none (slots ++ [.made bs mem]) := by
  refine ⟨_, h, hm.push hnul hint mem, fun hfalse => ?_, fun b hb => ?_, fun _ => ?_⟩
  · cases hfalse
  · cases op <;> cases hb
  · cases mem <;> rfl

/-- `append_string`. -/
lemma Holds.steps_append (hm : m.Holds slots) {a b : ℕ} {mem : Bool} {result : Option Bool}
    {slots' : List Slot} (h : (StringOp.appendString a b mem).next slots = some (result, slots')) :
    m.Steps (.appendString a b mem) result slots' := by
  have hnull : ∀ va vb sa sb, m.vars[a]? = some va → m.vars[b]? = some vb → va.load m.heap = .ok sa →
      vb.load m.heap = .ok sb → sa.data = none ∨ sb.data = none →
      m.apply (.appendString a b mem) = .ok (some false, m) := by
    intro va vb sa sb hva hvb hsa hsb hdata
    rw [apply, var_eq hva, ok_bind, var_eq hvb, ok_bind,
      StringVar.appendString_null hsa hsb hdata mem, ok_bind]
    simp only [set_self hva, pure_eq_ok]
  rcases eq_or_ne a b with rfl | hab
  · simp [StringOp.next] at h
  rw [StringOp.next, if_neg hab] at h
  split at h
  · rename_i x y ha hb
    obtain ⟨p, hva, hx, -, hp⟩ := hm.text_eq ha
    obtain ⟨q, hvb, hy, -, hq⟩ := hm.text_eq hb
    have hne : p ≠ q := fun heq => hab (hm.distinct a b x y _ _ ha hb hva hvb (congrArg some heq))
    split_ifs at h with hint hmem
    · cases h
      obtain rfl := hmem
      have hxy : (0 : UInt8) ∉ x ++ y := by
        rw [List.mem_append, not_or]
        exact ⟨hx, hy⟩
      have hgrow := hm.grow ha hva hxy (by rw [List.length_append]; exact hint)
      have hrelease := hgrow.release (by rwa [List.getElem?_set_ne hab]) (by rwa [List.getElem?_set_ne hab])
      refine ⟨_, ?_, hrelease, fun hfalse => ?_, fun b' hb' => ?_, fun hnone => ?_⟩
      · rw [apply, var_eq hva, ok_bind, var_eq hvb, ok_bind,
          StringVar.appendString_text hp hq hne hy hint true]
        rfl
      · cases hfalse
      · cases hb'
        exact ⟨_, q, hvb, rfl, rfl⟩
      · cases hnone
    · cases h
      refine hm.steps_false ?_
      rw [apply, var_eq hva, ok_bind, var_eq hvb, ok_bind,
        StringVar.appendString_text hp hq hne hy hint mem, if_neg hmem, ok_bind]
      simp only [set_self hva, pure_eq_ok]
  · rename_i x ha hb
    cases h
    obtain ⟨p, hva, -, -, hp⟩ := hm.text_eq ha
    exact hm.steps_false (hnull _ _ _ _ hva (hm.null_eq hb) (StringVar.load_text hp) rfl (.inr rfl))
  · rename_i y ha hb
    cases h
    obtain ⟨q, hvb, -, -, hq⟩ := hm.text_eq hb
    exact hm.steps_false (hnull _ _ _ _ (hm.null_eq ha) hvb rfl (StringVar.load_text hq) (.inl rfl))
  · rename_i ha hb
    cases h
    exact hm.steps_false (hnull _ _ _ _ (hm.null_eq ha) (hm.null_eq hb) rfl rfl (.inl rfl))
  · cases h

/-- `append_string_cstr`. -/
lemma Holds.steps_appendCstr (hm : m.Holds slots) {a : ℕ} {b : Option Block} {mem : Bool}
    {result : Option Bool} {slots' : List Slot}
    (h : (StringOp.appendStringCstr a b mem).next slots = some (result, slots')) :
    m.Steps (.appendStringCstr a b mem) result slots' := by
  have hnull : ∀ va sa, m.vars[a]? = some va → va.load m.heap = .ok sa → sa.data = none ∨ b = none →
      m.apply (.appendStringCstr a b mem) = .ok (some false, m) := by
    intro va sa hva hsa hdata
    rw [apply, var_eq hva, ok_bind, StringVar.appendStringCstr_null hsa hdata mem, ok_bind]
    simp only [set_self hva, pure_eq_ok]
  simp only [StringOp.next] at h
  split at h
  · rename_i x str ha
    obtain ⟨p, hva, hx, -, hp⟩ := hm.text_eq ha
    obtain ⟨y, hy, h⟩ := Option.bind_eq_some_iff.mp h
    obtain ⟨hstr, -⟩ := stringArg_eq hy
    split_ifs at h with hint hmem
    · cases h
      obtain rfl := hmem
      have hxy : (0 : UInt8) ∉ x ++ y := by
        rw [List.mem_append, not_or]
        exact ⟨hx, hstr.1⟩
      have hgrow := hm.grow ha hva hxy (by rw [List.length_append]; exact hint)
      refine ⟨_, ?_, hgrow, fun hfalse => ?_, fun b hb => ?_, fun _ => rfl⟩
      · rw [apply, var_eq hva, ok_bind, StringVar.appendStringCstr_text hp hstr hint true]
        rfl
      · cases hfalse
      · cases hb
    · cases h
      refine hm.steps_false ?_
      rw [apply, var_eq hva, ok_bind, StringVar.appendStringCstr_text hp hstr hint mem, if_neg hmem,
        ok_bind]
      simp only [set_self hva, pure_eq_ok]
  · rename_i x ha
    cases h
    obtain ⟨p, hva, -, -, hp⟩ := hm.text_eq ha
    exact hm.steps_false (hnull _ _ hva (StringVar.load_text hp) (.inr rfl))
  · rename_i ha
    cases h
    exact hm.steps_false (hnull _ _ (hm.null_eq ha) rfl (.inl rfl))
  · cases h

/-- `copy_string`. -/
lemma Holds.steps_copy (hm : m.Holds slots) {a : ℕ} {mem : Bool} {result : Option Bool}
    {slots' : List Slot} (h : (StringOp.copyString a mem).next slots = some (result, slots')) :
    m.Steps (.copyString a mem) result slots' := by
  rw [StringOp.next] at h
  split at h
  · rename_i x ha
    cases h
    obtain ⟨p, hva, hx, hint, hp⟩ := hm.text_eq ha
    refine hm.steps_push hx hint ?_
    rw [apply, var_eq hva, ok_bind, StringVar.load_text hp, ok_bind,
      (StringT.holds_of x).begins.copyString_if (by omega) mem]
    rfl
  · rename_i ha
    cases h
    have hbegins : StringT.null.Begins [] := ⟨rfl, [], rfl⟩
    refine hm.steps_push List.not_mem_nil (by decide) ?_
    rw [apply, var_eq (hm.null_eq ha), ok_bind, StringVar.load_null, ok_bind,
      hbegins.copyString_if (by decide) mem]
    rfl
  · cases h

/-- Each call does what it does to the texts. -/
lemma Holds.steps (hm : m.Holds slots) {op : StringOp} {result : Option Bool} {slots' : List Slot}
    (h : op.next slots = some (result, slots')) : m.Steps op result slots' := by
  have hempty : HasString (terminated []) [] := hasString_terminated List.not_mem_nil
  cases op with
  | newString str mem =>
    cases str with
    | none =>
      cases h
      exact @Holds.steps_push m slots hm _ [] false List.not_mem_nil (by decide) rfl
    | some str =>
      obtain ⟨bs, hbs, h⟩ := Option.map_eq_some_iff.mp h
      cases h
      obtain ⟨hstr, hint⟩ := stringArg_eq hbs
      refine hm.steps_push hstr.1 hint ?_
      rw [apply, StringT.newString_if hstr (by omega) mem]
      rfl
  | initString mem =>
    cases h
    refine hm.steps_push List.not_mem_nil (by decide) ?_
    rw [apply, StringT.newString_if hempty (by decide) mem]
    rfl
  | appendString a b mem => exact hm.steps_append h
  | appendStringCstr a b mem => exact hm.steps_appendCstr h
  | copyString a mem => exact hm.steps_copy h

/-- What the calls do to the variables is what they do to the texts. -/
lemma Holds.run_eq (hm : m.Holds slots) (ops : List StringOp) {slots' : List Slot}
    (h : nextAll slots ops = some slots') : ∃ m', m.run ops = .ok m' ∧ m'.Holds slots' := by
  induction ops generalizing m slots with
  | nil =>
    cases h
    exact ⟨m, rfl, hm⟩
  | cons op ops ih =>
    obtain ⟨⟨result, slots₁⟩, hnext, hrest⟩ := Option.bind_eq_some_iff.mp h
    obtain ⟨m₁, happly, hm₁, -⟩ := hm.steps hnext
    obtain ⟨m', hrun, hm'⟩ := ih hm₁ hrest
    refine ⟨m', ?_, hm'⟩
    rw [run, happly, ok_bind]
    exact hrun

/-- After any calls the variables hold the texts, and each further call returns and changes what it
says. -/
theorem strings_hold {ops : List StringOp} {slots : List Slot} (h : nextAll [] ops = some slots) :
    ∃ m, init.run ops = .ok m ∧ m.Holds slots ∧ ∀ op result slots',
      op.next slots = some (result, slots') →
        ∃ m', m.apply op = .ok (result, m') ∧ m'.Holds slots' ∧ m.Changes op result m' := by
  obtain ⟨m, hrun, hm⟩ := holds_init.run_eq ops h
  exact ⟨m, hrun, hm, fun op result slots' hnext => hm.steps hnext⟩

/-- A string to which another one and a literal are appended, one time without memory. -/
def appendCalls : List StringOp :=
  [.newString (some (terminated (ascii "ab".toList))) true, .initString true,
    .appendStringCstr 1 (some (terminated (ascii "cd".toList))) true, .appendString 0 1 false,
    .appendString 0 1 true, .copyString 0 true]

/-- The second string is released, and there is a copy of the first one. -/
theorem strings_hold_append :
    ∃ m, init.run appendCalls = .ok m ∧
      m.Holds [.text (ascii "abcd".toList), .released, .text (ascii "abcd".toList)] := by
  obtain ⟨m, hrun, hm, -⟩ := @strings_hold appendCalls
    [.text (ascii "abcd".toList), .released, .text (ascii "abcd".toList)] (by decide)
  exact ⟨m, hrun, hm⟩

end Strings

end Ccybe
