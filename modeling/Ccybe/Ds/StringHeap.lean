import Ccybe.Ds.Strings
import Ccybe.Lib.Owned

/-!
# The blocks of strings

The functions of `ds/buffer.c` on the heap, as the functions that fill in a response call them. A
variable stands for a string and owns the block with its data; each function does to the strings what
it does without a heap, and to the blocks what its lemma says.
-/

namespace Ccybe

open CSem

/-- The variable stands for the string, and these are its blocks. -/
inductive StringVar.Stands : StringVar → StringT → Owned UInt8 → Prop
  | null (len : Int) : Stands ⟨len, none⟩ ⟨len, none⟩ 0
  | data (len : Int) (p : ℕ) (data : Block) : Stands ⟨len, some p⟩ ⟨len, some data⟩ {(p, data)}

namespace OnHeap

/-- A string becomes a variable. -/
def placed (s : Eval StringT) : OnHeap UInt8 StringVar := fun h => do
  let s ← s
  let (h, v) := StringVar.place h s
  pure (v, h)

/-- The string of a variable. -/
def string (v : StringVar) : OnHeap UInt8 StringT := fun h => do
  let s ← v.load h
  pure (s, h)

/-- The data is written over in place. -/
def writeBack (v : StringVar) (s : StringT) : OnHeap UInt8 StringVar :=
  match v.data, s.data with
  | some p, some data => do
    OnHeap.store p data
    pure ⟨s.len, some p⟩
  | _, _ => pure ⟨s.len, v.data⟩

/-- `new_string`. -/
def newString (str : Option Block) (mem : Bool) : OnHeap UInt8 StringVar :=
  placed (StringT.newString str mem)

/-- `new_n_string`. -/
def newNString (len : Int) (mem : Bool) : OnHeap UInt8 StringVar := placed (StringT.newNString len mem)

/-- `copy_string`. -/
def copyString (v : StringVar) (mem : Bool) : OnHeap UInt8 StringVar := fun h => do
  let s ← v.load h
  placed (s.copyString mem) h

/-- `append_string`. -/
def appendString (a b : StringVar) (mem : Bool) : OnHeap UInt8 (Bool × StringVar) := fun h => do
  let (ok, h, a) ← a.appendString h b mem
  pure ((ok, a), h)

/-- `append_string_cstr`. -/
def appendStringCstr (a : StringVar) (b : Option Block) (mem : Bool) :
    OnHeap UInt8 (Bool × StringVar) := fun h => do
  let (ok, h, a) ← a.appendStringCstr h b mem
  pure ((ok, a), h)

/-- `free_string`. -/
def freeString (v : StringVar) : OnHeap UInt8 Unit :=
  match v.data with
  | none => pure ()
  | some p => OnHeap.free p

end OnHeap

/-! ### Strings -/

/-- Where `append_string_cstr` returns false, nothing has changed, and else there is data. -/
lemma StringT.appendStringCstr_result {s s' : StringT} {b : Option Block} {mem ok : Bool}
    (h : s.appendStringCstr b mem = .ok (ok, s')) :
    (ok = false ∧ s' = s) ∨ (ok = true ∧ s.data ≠ none ∧ s'.data ≠ none) := by
  obtain ⟨len, data⟩ := s
  cases data with
  | none =>
    cases b <;> cases h <;> exact .inl ⟨rfl, rfl⟩
  | some data =>
    cases b with
    | none =>
      cases h
      exact .inl ⟨rfl, rfl⟩
    | some b =>
      obtain ⟨bLen, -, h⟩ := bind_eq_ok.mp h
      obtain ⟨sum, -, h⟩ := bind_eq_ok.mp h
      obtain ⟨size, -, h⟩ := bind_eq_ok.mp h
      split at h
      · cases h
        exact .inl ⟨rfl, rfl⟩
      · obtain ⟨ptr, -, h⟩ := bind_eq_ok.mp h
        obtain ⟨ptr', -, h⟩ := bind_eq_ok.mp h
        cases h
        exact .inr ⟨rfl, Option.some_ne_none _, Option.some_ne_none _⟩

lemma StringT.appendString_result {a b a' : StringT} {mem ok : Bool}
    (h : a.appendString b mem = .ok (ok, a')) :
    (ok = false ∧ a' = a) ∨ (ok = true ∧ a.data ≠ none ∧ b.data ≠ none ∧ a'.data ≠ none) := by
  obtain ⟨lenA, dataA⟩ := a
  obtain ⟨lenB, dataB⟩ := b
  cases dataA with
  | none =>
    cases dataB <;> cases h <;> exact .inl ⟨rfl, rfl⟩
  | some dataA =>
    cases dataB with
    | none =>
      cases h
      exact .inl ⟨rfl, rfl⟩
    | some dataB =>
      obtain ⟨sum, -, h⟩ := bind_eq_ok.mp h
      obtain ⟨size, -, h⟩ := bind_eq_ok.mp h
      split at h
      · cases h
        exact .inl ⟨rfl, rfl⟩
      · obtain ⟨ptr, -, h⟩ := bind_eq_ok.mp h
        obtain ⟨ptr', -, h⟩ := bind_eq_ok.mp h
        cases h
        exact .inr ⟨rfl, Option.some_ne_none _, Option.some_ne_none _, Option.some_ne_none _⟩

section Memory

variable {s s' : StringT} {b : Block} {ok : Bool}

lemma StringT.newNString_data {len : Int} (h : StringT.newNString len true = .ok s) :
    s.data ≠ none := by
  obtain ⟨size, -, h⟩ := bind_eq_ok.mp h
  obtain ⟨data, -, h⟩ := bind_eq_ok.mp h
  cases h
  exact Option.some_ne_none data

lemma StringT.newString_data (h : StringT.newString (some b) true = .ok s) : s.data ≠ none := by
  obtain ⟨len, -, h⟩ := bind_eq_ok.mp h
  obtain ⟨size, -, h⟩ := bind_eq_ok.mp h
  obtain ⟨data, -, h⟩ := bind_eq_ok.mp h
  obtain ⟨data', -, h⟩ := bind_eq_ok.mp h
  cases h
  exact Option.some_ne_none data'

lemma StringT.appendStringCstr_true (h : s.appendStringCstr (some b) true = .ok (ok, s'))
    (hs : s.data ≠ none) : ok = true := by
  obtain ⟨len, data⟩ := s
  obtain ⟨data, rfl⟩ := Option.ne_none_iff_exists'.mp hs
  obtain ⟨bLen, -, h⟩ := bind_eq_ok.mp h
  obtain ⟨len, -, h⟩ := bind_eq_ok.mp h
  obtain ⟨size, -, h⟩ := bind_eq_ok.mp h
  obtain ⟨ptr, -, h⟩ := bind_eq_ok.mp h
  obtain ⟨ptr', -, h⟩ := bind_eq_ok.mp h
  cases h
  rfl

lemma StringT.newString_null (h : StringT.newString (some b) false = .ok s) : s.data = none := by
  obtain ⟨len, -, h⟩ := bind_eq_ok.mp h
  obtain ⟨size, -, h⟩ := bind_eq_ok.mp h
  cases h
  rfl

lemma StringT.appendStringCstr_false (h : s.appendStringCstr (some b) false = .ok (ok, s')) :
    ok = false := by
  obtain ⟨len, data⟩ := s
  cases data with
  | none =>
    cases h
    rfl
  | some data =>
    obtain ⟨bLen, -, h⟩ := bind_eq_ok.mp h
    obtain ⟨len, -, h⟩ := bind_eq_ok.mp h
    obtain ⟨size, -, h⟩ := bind_eq_ok.mp h
    cases h
    rfl

lemma StringT.appendString_true {t : StringT} (h : s.appendString t true = .ok (ok, s'))
    (hs : s.data ≠ none) (ht : t.data ≠ none) : ok = true := by
  obtain ⟨lenS, data⟩ := s
  obtain ⟨lenT, src⟩ := t
  obtain ⟨data, rfl⟩ := Option.ne_none_iff_exists'.mp hs
  obtain ⟨src, rfl⟩ := Option.ne_none_iff_exists'.mp ht
  obtain ⟨len, -, h⟩ := bind_eq_ok.mp h
  obtain ⟨size, -, h⟩ := bind_eq_ok.mp h
  obtain ⟨ptr, -, h⟩ := bind_eq_ok.mp h
  obtain ⟨ptr', -, h⟩ := bind_eq_ok.mp h
  cases h
  rfl

end Memory

namespace StringVar.Stands

variable {h : Heap UInt8} {rest m ma mb : Owned UInt8} {v a b : StringVar} {s sa sb : StringT}

lemma load_eq (hv : v.Stands s m) (hm : h.Exactly (m + rest)) : v.load h = .ok s := by
  cases hv with
  | null len => rfl
  | data len p data =>
    rw [Multiset.singleton_add] at hm
    simp only [StringVar.load, hm.load_eq, ok_bind]
    rfl

lemma card (hv : v.Stands s m) (hdata : s.data ≠ none) : Multiset.card m = 1 := by
  cases hv with
  | null => exact absurd rfl hdata
  | data => exact Multiset.card_singleton _

lemma eq_zero (hv : v.Stands s m) (hdata : s.data = none) : m = 0 := by
  cases hv with
  | null => rfl
  | data => cases hdata

lemma len_eq (hv : v.Stands s m) : v.len = s.len := by
  cases hv <;> rfl

lemma data_isNone (hv : v.Stands s m) : v.data.isNone = s.data.isNone := by
  cases hv <;> rfl

lemma string (hv : v.Stands s m) :
    Refines m (OnHeap.string v) (pure s) fun t t' m' => t = s ∧ t' = s ∧ m' = m := by
  intro h rest hm
  refine ⟨fun u hu => (by cases hu), fun c hc => ⟨s, h, m, ?_, ⟨rfl, ?_, rfl⟩, hm⟩⟩
  · show (v.load h >>= _) = _
    rw [hv.load_eq hm]
    rfl
  · cases hc
    rfl

/-- The data stays, or it is written over. -/
lemma writeBack (hv : v.Stands s m) {t : StringT} (ht : t.data.isSome = s.data.isSome) :
    Refines m (OnHeap.writeBack v t) (pure t) fun v' t' m' => v'.Stands t' m' := by
  obtain ⟨len, data⟩ := t
  cases hv with
  | null =>
    cases data with
    | none => exact refines_pure (.null len)
    | some data => cases ht
  | data _ p old =>
    cases data with
    | none => cases ht
    | some data =>
      rw [← Multiset.add_zero {(p, old)}]
      refine (refines_store data).bind_left fun _ m' hm' => ?_
      rw [hm', Multiset.add_zero]
      exact refines_pure (.data len p data)

/-- A string that becomes a variable is a new block. -/
lemma placed (m : Owned UInt8) (s : Eval StringT) :
    Refines m (OnHeap.placed s) s fun v s m' => ∃ m₁, v.Stands s m₁ ∧ m' = m₁ + m := by
  intro h rest hm
  refine ⟨fun u hu => by rw [hu]; rfl, fun c hc => ?_⟩
  obtain ⟨len, data⟩ := c
  cases data with
  | none => exact ⟨⟨len, none⟩, h, m, by rw [hc]; rfl, ⟨0, .null len, (Multiset.zero_add m).symm⟩, hm⟩
  | some data =>
    refine ⟨⟨len, some h.blocks.length⟩, (h.alloc data).1, (h.blocks.length, data) ::ₘ m, by rw [hc]; rfl,
      ⟨{(h.blocks.length, data)}, .data len _ data, by rw [Multiset.singleton_add]⟩, ?_⟩
    rw [Multiset.cons_add]
    exact hm.alloc data

lemma copyString (hv : v.Stands s m) (mem : Bool) :
    Refines m (OnHeap.copyString v mem) (s.copyString mem) fun v' s' m' =>
      ∃ m₁, v'.Stands s' m₁ ∧ m' = m₁ + m := by
  intro h rest hm
  have hrun : (OnHeap.copyString v mem).run h = (OnHeap.placed (s.copyString mem)).run h := by
    show (v.load h >>= fun s => OnHeap.placed (s.copyString mem) h) = _
    rw [hv.load_eq hm]
    rfl
  rw [hrun]
  exact placed m (s.copyString mem) h rest hm

lemma freeString (hv : v.Stands s m) (k : Owned UInt8) :
    Refines (m + k) (OnHeap.freeString v) (pure ()) fun _ _ m' => m' = k := by
  cases hv with
  | null len => exact refines_pure (Multiset.zero_add k)
  | data len p data => exact refines_free

lemma appendStringCstr (ha : a.Stands sa m) (b : Option Block) (mem : Bool) :
    Refines m (OnHeap.appendStringCstr a b mem) (sa.appendStringCstr b mem) fun r c m' =>
      r.1 = c.1 ∧ r.2.Stands c.2 m' := by
  intro h rest hm
  have hload := ha.load_eq hm
  have hrun : (OnHeap.appendStringCstr a b mem).run h = sa.appendStringCstr b mem >>= fun c =>
      if c.1 then .ok ((true, (StringVar.moved h a c.2).2), (StringVar.moved h a c.2).1)
      else .ok ((false, a), h) := by
    show (a.appendStringCstr h b mem >>= _) = _
    rw [StringVar.appendStringCstr, hload, ok_bind]
    cases sa.appendStringCstr b mem with
    | error u => rfl
    | ok c =>
      obtain ⟨ok, s⟩ := c
      cases ok <;> rfl
  rw [hrun]
  refine ⟨fun u hu => by rw [hu]; rfl, ?_⟩
  rintro ⟨ok, s⟩ hc
  rw [hc, ok_bind]
  rcases StringT.appendStringCstr_result hc with ⟨rfl, rfl⟩ | ⟨rfl, hdata, hdata'⟩
  · exact ⟨_, h, m, rfl, ⟨rfl, ha⟩, hm⟩
  · cases ha with
    | null len => exact absurd rfl hdata
    | data len p data =>
      obtain ⟨len', data'⟩ := s
      cases data' with
      | none => exact absurd rfl hdata'
      | some data' =>
        rw [Multiset.singleton_add] at hm
        refine ⟨_, _, {(_, data')}, rfl, ⟨rfl, .data len' _ data'⟩, ?_⟩
        rw [Multiset.singleton_add]
        exact hm.move data'

/-- The block of `b` is freed where the result is true, and it stays where it is false. -/
lemma appendString (ha : a.Stands sa ma) (hb : b.Stands sb mb) (mem : Bool) :
    Refines (ma + mb) (OnHeap.appendString a b mem) (sa.appendString sb mem) fun r c m' =>
      r.1 = c.1 ∧ ∃ m₁, r.2.Stands c.2 m₁ ∧ m' = m₁ + if c.1 then 0 else mb := by
  intro h rest hm
  have hma : h.Exactly (ma + (mb + rest)) := by rwa [← Multiset.add_assoc]
  have hmb : h.Exactly (mb + (ma + rest)) := by rwa [← Multiset.add_assoc, Multiset.add_comm mb]
  have hloada := ha.load_eq hma
  have hloadb := hb.load_eq hmb
  have hrun : (OnHeap.appendString a b mem).run h = sa.appendString sb mem >>= fun c =>
      if c.1 then do
        let (h, a) := StringVar.moved h a c.2
        let h ← match b.data with
          | none => pure h
          | some q => h.free q
        pure ((true, a), h)
      else .ok ((false, a), h) := by
    show (a.appendString h b mem >>= _) = _
    rw [StringVar.appendString, hloada, ok_bind, hloadb, ok_bind]
    cases sa.appendString sb mem with
    | error u => rfl
    | ok c =>
      obtain ⟨ok, s⟩ := c
      cases ok with
      | true =>
        simp only [ok_bind, if_true]
        cases b.data with
        | none => rfl
        | some q => cases hfree : (StringVar.moved h a s).1.free q <;> simp [hfree]
      | false => rfl
  rw [hrun]
  refine ⟨fun u hu => by rw [hu]; rfl, ?_⟩
  rintro ⟨ok, s⟩ hc
  rw [hc, ok_bind]
  rcases StringT.appendString_result hc with ⟨rfl, rfl⟩ | ⟨rfl, hdata, hdatab, hdata'⟩
  · exact ⟨_, h, ma + mb, rfl, ⟨rfl, ma, ha, rfl⟩, hm⟩
  · cases ha with
    | null len => exact absurd rfl hdata
    | data len p data =>
      cases hb with
      | null lenb => exact absurd rfl hdatab
      | data lenb q datab =>
        obtain ⟨len', data'⟩ := s
        cases data' with
        | none => exact absurd rfl hdata'
        | some data' =>
          rw [Multiset.add_assoc, Multiset.singleton_add, Multiset.singleton_add] at hm
          have hmoved := hm.move data'
          rw [Multiset.cons_swap] at hmoved
          obtain ⟨h', hfree, hm'⟩ := hmoved.free_eq
          refine ⟨(true, ⟨len', some (h.move p data').2⟩), h', {((h.move p data').2, data')}, ?_,
            ⟨rfl, _, .data len' _ data', (Multiset.add_zero _).symm⟩, ?_⟩
          · simp only [if_true, StringVar.moved, hfree, ok_bind]
            rfl
          · rwa [Multiset.singleton_add]

end StringVar.Stands

end Ccybe
