import Ccybe.Lib.Heap
import Mathlib.Control.Monad.Basic
import Mathlib.Data.List.Induction
import Mathlib.Data.Multiset.MapFold

/-!
# Blocks that are owned

A computation on a heap owns some blocks when it begins and some when it ends; what else is on the heap
it does not touch. `Refines m x y R` says that `x`, which owns the blocks `m`, does what the evaluation
`y` does without a heap: it is undefined where `y` is, and else `R` relates the two values and the
blocks that are owned afterwards. All blocks of the heap are accounted for, so that a block that is
neither freed nor handed on is one of those.
-/

namespace CSem

/-- Blocks with their addresses. -/
abbrev Owned (α : Type) := Multiset (ℕ × List (Option α))

namespace Heap

variable {α : Type} {h : Heap α} {m : Owned α} {p : ℕ} {block : List (Option α)}

/-- The blocks that are on the heap are these. -/
structure Exactly (h : Heap α) (m : Owned α) : Prop where
  nodup : (m.map Prod.fst).Nodup
  live : ∀ p block, h.Live p block ↔ (p, block) ∈ m

lemma Exactly.lt (hm : h.Exactly m) (hp : p ∈ m.map Prod.fst) : p < h.blocks.length := by
  obtain ⟨⟨q, block⟩, hmem, rfl⟩ := Multiset.mem_map.mp hp
  exact ((hm.live q block).mpr hmem).lt

lemma Exactly.alloc (hm : h.Exactly m) (block : List (Option α)) :
    (h.alloc block).1.Exactly ((h.blocks.length, block) ::ₘ m) := by
  refine ⟨?_, fun p block' => ?_⟩
  · rw [Multiset.map_cons, Multiset.nodup_cons]
    exact ⟨fun hp => lt_irrefl _ (hm.lt hp), hm.nodup⟩
  · rw [Multiset.mem_cons, Prod.mk.injEq]
    constructor
    · intro hlive
      rcases concat_cases hlive with hold | ⟨hp, hblock⟩
      · exact .inr ((hm.live p block').mp hold)
      · exact .inl ⟨hp, Option.some.inj hblock⟩
    · rintro (⟨rfl, rfl⟩ | hmem)
      · exact live_alloc h block'
      · exact ((hm.live p block').mpr hmem).alloc block

/-- There are always such blocks. -/
lemma exists_exactly (h : Heap α) : ∃ m, h.Exactly m := by
  obtain ⟨blocks, freed⟩ := h
  induction blocks using List.reverseRecOn with
  | nil => exact ⟨0, Multiset.nodup_zero, fun p block => by simp [Live]⟩
  | append_singleton blocks last ih =>
    obtain ⟨m, hm⟩ := ih
    cases last with
    | some block => exact ⟨_, hm.alloc block⟩
    | none =>
      refine ⟨m, hm.nodup, fun p block => Iff.trans ?_ (hm.live p block)⟩
      constructor
      · intro hlive
        rcases concat_cases hlive with hold | ⟨-, hnone⟩
        · exact hold
        · cases hnone
      · intro hlive
        exact (List.getElem?_append_left hlive.lt).trans hlive

/-- A block that is taken away. -/
lemma Exactly.erase (hm : h.Exactly ((p, block) ::ₘ m)) (freed : List ℕ) :
    Exactly ⟨h.blocks.set p none, freed⟩ m := by
  have hnodup := hm.nodup
  rw [Multiset.map_cons, Multiset.nodup_cons] at hnodup
  refine ⟨hnodup.2, fun q block' => ?_⟩
  rcases eq_or_ne q p with rfl | hne
  · refine iff_of_false ?_ fun hmem => hnodup.1 (Multiset.mem_map.mpr ⟨_, hmem, rfl⟩)
    intro hlive
    have hlt : q < (h.blocks.set q none).length := (List.getElem?_eq_some_iff.mp hlive).1
    rw [List.length_set] at hlt
    rw [Live, List.getElem?_set_self hlt] at hlive
    cases hlive
  · have hsame : Live ⟨h.blocks.set p none, freed⟩ q block' ↔ h.Live q block' := by
      rw [Live, Live, List.getElem?_set_ne hne.symm]
    rw [hsame, hm.live, Multiset.mem_cons, Prod.mk.injEq]
    exact or_iff_right fun heq => hne heq.1

lemma Exactly.load_eq (hm : h.Exactly ((p, block) ::ₘ m)) : h.load p = .ok block :=
  ((hm.live p block).mpr (Multiset.mem_cons_self _ _)).load_eq

lemma Exactly.free_eq (hm : h.Exactly ((p, block) ::ₘ m)) :
    ∃ h', h.free p = .ok h' ∧ h'.Exactly m :=
  ⟨_, ((hm.live p block).mpr (Multiset.mem_cons_self _ _)).free_eq, hm.erase _⟩

lemma Exactly.move (hm : h.Exactly ((p, block) ::ₘ m)) (block' : List (Option α)) :
    (h.move p block').1.Exactly (((h.move p block').2, block') ::ₘ m) :=
  (hm.erase h.freed).alloc block'

lemma Exactly.store (hm : h.Exactly ((p, block) ::ₘ m)) (block' : List (Option α)) :
    Exactly ⟨h.blocks.set p (some block'), h.freed⟩ ((p, block') ::ₘ m) := by
  have hp : p < h.blocks.length := hm.lt (by rw [Multiset.map_cons]; exact Multiset.mem_cons_self _ _)
  have hnodup := hm.nodup
  rw [Multiset.map_cons, Multiset.nodup_cons] at hnodup
  refine ⟨by rw [Multiset.map_cons, Multiset.nodup_cons]; exact hnodup, fun q block'' => ?_⟩
  rw [Multiset.mem_cons, Prod.mk.injEq]
  rcases eq_or_ne q p with rfl | hne
  · rw [Live, List.getElem?_set_self hp, Option.some.injEq, Option.some.injEq]
    constructor
    · rintro rfl
      exact .inl ⟨rfl, rfl⟩
    · rintro (⟨-, rfl⟩ | hmem)
      · rfl
      · exact absurd (Multiset.mem_map.mpr ⟨_, hmem, rfl⟩) hnodup.1
  · have hsame : Live ⟨h.blocks.set p (some block'), h.freed⟩ q block'' ↔ h.Live q block'' := by
      rw [Live, Live, List.getElem?_set_ne hne.symm]
    rw [hsame, hm.live, Multiset.mem_cons, Prod.mk.injEq]
    exact (or_iff_right fun heq => hne heq.1).trans (or_iff_right fun heq => hne heq.1).symm

/-- The addresses of the blocks. -/
def addresses (h : Heap α) : List ℕ := (List.range h.blocks.length).filter fun p => h.blocks[p]?.join.isSome

/-- The blocks are counted by their addresses. -/
lemma Exactly.card_eq (hm : h.Exactly m) : Multiset.card m = h.addresses.length := by
  have hsame : m.map Prod.fst = (h.addresses : Multiset ℕ) := by
    refine (Multiset.Nodup.ext hm.nodup (Multiset.coe_nodup.mpr (List.nodup_range.filter _))).mpr fun p => ?_
    rw [Multiset.mem_coe, List.mem_filter, List.mem_range]
    constructor
    · intro hp
      refine ⟨hm.lt hp, ?_⟩
      obtain ⟨⟨q, block⟩, hmem, rfl⟩ := Multiset.mem_map.mp hp
      have hlive := (hm.live q block).mpr hmem
      simp only [show h.blocks[q]? = some (some block) from hlive, Option.join_some, Option.isSome_some]
    · rintro ⟨-, hsome⟩
      obtain ⟨block, hblock⟩ := Option.isSome_iff_exists.mp hsome
      have hlive : h.Live p block := Option.join_eq_some_iff.mp hblock
      exact Multiset.mem_map.mpr ⟨_, (hm.live p block).mp hlive, rfl⟩
  rw [← Multiset.card_map Prod.fst m, hsame, Multiset.coe_card]

end Heap

/-! ### Computations -/

/-- A computation on a heap. -/
abbrev OnHeap (α β : Type) := StateT (Heap α) Eval β

namespace OnHeap

variable {α : Type}

/-- `malloc` of a block, if there is memory. -/
def alloc (block : List (Option α)) : OnHeap α ℕ := fun h => .ok ((h.alloc block).2, (h.alloc block).1)

/-- `free`. -/
def free (p : ℕ) : OnHeap α Unit := fun h => (h.free p).map fun h => ((), h)

/-- The block at `p`. -/
def load (p : ℕ) : OnHeap α (List (Option α)) := fun h => do
  let block ← h.load p
  pure (block, h)

/-- The block at `p` is overwritten. -/
def store (p : ℕ) (block : List (Option α)) : OnHeap α Unit := fun h => do
  let _ ← h.load p
  pure ((), ⟨h.blocks.set p (some block), h.freed⟩)

end OnHeap

section Refines

variable {α β γ δ ε : Type}

/-- From the blocks `m` on, `x` does what `y` does. -/
def Refines (m : Owned α) (x : OnHeap α β) (y : Eval γ) (R : β → γ → Owned α → Prop) : Prop :=
  ∀ h rest, h.Exactly (m + rest) →
    (∀ u, y = .error u → x.run h = .error u) ∧
    ∀ c, y = .ok c → ∃ b h' m', x.run h = .ok (b, h') ∧ R b c m' ∧ h'.Exactly (m' + rest)

variable {m : Owned α} {x : OnHeap α β} {y : Eval γ} {R : β → γ → Owned α → Prop}

lemma Refines.mono {S : β → γ → Owned α → Prop} (hx : Refines m x y R)
    (h : ∀ b c m', y = .ok c → R b c m' → S b c m') : Refines m x y S := by
  intro hp rest hm
  obtain ⟨herror, hok⟩ := hx hp rest hm
  refine ⟨herror, fun c hc => ?_⟩
  obtain ⟨b, h', m', hrun, hR, hm'⟩ := hok c hc
  exact ⟨b, h', m', hrun, h b c m' hc hR, hm'⟩

lemma refines_pure {b : β} {c : γ} (h : R b c m) : Refines m (pure b) (pure c) R := by
  intro hp rest hm
  refine ⟨fun u hu => (by cases hu), fun c' hc => ?_⟩
  cases hc
  exact ⟨b, hp, m, rfl, h, hm⟩

lemma Refines.bind (hx : Refines m x y R) {f : β → OnHeap α δ} {g : γ → Eval ε}
    {S : δ → ε → Owned α → Prop}
    (hf : ∀ b c m', y = .ok c → R b c m' → Refines m' (f b) (g c) S) :
    Refines m (x >>= f) (y >>= g) S := by
  intro h rest hm
  obtain ⟨herror, hok⟩ := hx h rest hm
  cases hy : y with
  | error u =>
    have hrun := herror u hy
    refine ⟨fun u' hu => ?_, fun c hc => (by cases hc)⟩
    cases hu
    rw [StateT.run_bind, hrun]
    rfl
  | ok c =>
    obtain ⟨b, h', m', hrun, hR, hm'⟩ := hok c hy
    rw [StateT.run_bind, hrun, ok_bind]
    exact hf b c m' hy hR h' rest hm'

/-- A step of `x` that `y` does not have. -/
lemma Refines.bind_left {S : δ → γ → Owned α → Prop} {f : β → OnHeap α δ} {c : ε}
    {R : β → ε → Owned α → Prop} (hx : Refines m x (pure c) R)
    (hf : ∀ b m', R b c m' → Refines m' (f b) y S) : Refines m (x >>= f) y S := by
  have hbind := hx.bind (g := fun _ => y) fun b c' m' hc hR => hf b m' (by cases hc; exact hR)
  exact hbind

/-- Steps of `x` after it has done what `y` does. -/
lemma Refines.bind_right (hx : Refines m x y R) {f : β → OnHeap α δ} {S : δ → γ → Owned α → Prop}
    (hf : ∀ b c m', y = .ok c → R b c m' → Refines m' (f b) (pure c) S) : Refines m (x >>= f) y S := by
  have hbind := hx.bind (g := pure) hf
  rwa [bind_pure] at hbind

/-- A loop over a list, with what holds before each of its passes. -/
lemma Refines.foldlM {f : β → δ → OnHeap α β} {g : γ → δ → Eval γ}
    (hf : ∀ b c m a, R b c m → Refines m (f b a) (g c a) R) (l : List δ) {b : β} {c : γ} (h : R b c m) :
    Refines m (l.foldlM f b) (l.foldlM g c) R := by
  induction l generalizing b c m with
  | nil => exact refines_pure h
  | cons a l ih =>
    rw [List.foldlM_cons, List.foldlM_cons]
    exact (hf b c m a h).bind fun b' c' m' _ hR => ih hR

/-- What is not needed stays. -/
lemma Refines.frame (hx : Refines m x y R) (k : Owned α) :
    Refines (m + k) x y fun b c m' => ∃ m₀, m' = m₀ + k ∧ R b c m₀ := by
  intro h rest hm
  rw [Multiset.add_assoc] at hm
  obtain ⟨herror, hok⟩ := hx h (k + rest) hm
  refine ⟨herror, fun c hc => ?_⟩
  obtain ⟨b, h', m', hrun, hR, hm'⟩ := hok c hc
  refine ⟨b, h', m' + k, hrun, ⟨m', rfl, hR⟩, ?_⟩
  rwa [Multiset.add_assoc]

/-- An evaluation that does not touch the heap. -/
lemma refines_lift (y : Eval γ) : Refines m (liftM y) y fun b c m' => b = c ∧ m' = m := by
  intro h rest hm
  refine ⟨fun u hu => ?_, fun c hc => ?_⟩
  · rw [hu]
    rfl
  · exact ⟨c, h, m, by rw [hc]; rfl, ⟨rfl, rfl⟩, hm⟩

/-- An evaluation of which the two sides make different values. -/
lemma refines_lift_map (y : Eval γ) (f : γ → β) (g : γ → δ) :
    Refines m (liftM (y.map f)) (y.map g) fun b c m' =>
      m' = m ∧ ∃ a, y = .ok a ∧ b = f a ∧ c = g a := by
  intro h rest hm
  cases y with
  | error u => exact ⟨fun u' hu => (by cases hu; rfl), fun c hc => (by cases hc)⟩
  | ok a =>
    refine ⟨fun u hu => (by cases hu), fun c hc => ?_⟩
    cases hc
    exact ⟨f a, h, m, rfl, ⟨rfl, a, rfl, rfl, rfl⟩, hm⟩

lemma refines_alloc (block : List (Option α)) :
    Refines m (OnHeap.alloc block) (pure ()) fun p _ m' => m' = {(p, block)} + m := by
  intro h rest hm
  refine ⟨fun u hu => (by cases hu), fun c _ => ⟨_, _, _, rfl, rfl, ?_⟩⟩
  rw [Multiset.singleton_add, Multiset.cons_add]
  exact hm.alloc block

lemma refines_load {p : ℕ} {block : List (Option α)} :
    Refines ({(p, block)} + m) (OnHeap.load p) (pure block) fun b c m' =>
      b = c ∧ m' = {(p, block)} + m := by
  intro h rest hm
  refine ⟨fun u hu => (by cases hu), fun c hc => ⟨c, h, {(p, block)} + m, ?_, ⟨rfl, rfl⟩, hm⟩⟩
  cases hc
  rw [Multiset.singleton_add, Multiset.cons_add] at hm
  show (h.load p >>= _) = _
  rw [hm.load_eq]
  rfl

lemma refines_store {p : ℕ} {block : List (Option α)} (block' : List (Option α)) :
    Refines ({(p, block)} + m) (OnHeap.store p block') (pure ()) fun _ _ m' =>
      m' = {(p, block')} + m := by
  intro h rest hm
  rw [Multiset.singleton_add, Multiset.cons_add] at hm
  refine ⟨fun u hu => (by cases hu), fun c _ =>
    ⟨(), ⟨h.blocks.set p (some block'), h.freed⟩, {(p, block')} + m, ?_, rfl, ?_⟩⟩
  · show (h.load p >>= _) = _
    rw [hm.load_eq]
    rfl
  · rw [Multiset.singleton_add, Multiset.cons_add]
    exact hm.store block'

lemma refines_free {p : ℕ} {block : List (Option α)} :
    Refines ({(p, block)} + m) (OnHeap.free p) (pure ()) fun _ _ m' => m' = m := by
  intro h rest hm
  rw [Multiset.singleton_add, Multiset.cons_add] at hm
  obtain ⟨h', hfree, hm'⟩ := hm.free_eq
  refine ⟨fun u hu => (by cases hu), fun c _ => ⟨(), h', m, ?_, rfl, hm'⟩⟩
  show (h.free p).map _ = _
  rw [hfree]
  rfl

end Refines

end CSem
