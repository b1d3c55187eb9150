import Ccybe.Lib.CSem
import Mathlib.Data.List.Nodup

/-!
# Blocks on the heap

A heap has the blocks that were allocated so far, by their addresses. Loading and freeing a block
that is gone is undefined. The arguments of `free` are recorded.
-/

namespace CSem

variable {α : Type*}

/-- The blocks by their addresses, `none` for one that is gone, and the blocks that were freed. -/
structure Heap (α : Type*) where
  blocks : List (Option (List (Option α)))
  freed : List ℕ

namespace Heap

def empty : Heap α := ⟨[], []⟩

/-- The block at `p`. -/
def load (h : Heap α) (p : ℕ) : Eval (List (Option α)) :=
  match h.blocks[p]? with
  | none => .error .bounds
  | some none => .error .freed
  | some (some block) => .ok block

/-- A new block, and its address. -/
def alloc (h : Heap α) (block : List (Option α)) : Heap α × ℕ :=
  ({ h with blocks := h.blocks ++ [some block] }, h.blocks.length)

/-- `free`. -/
def free (h : Heap α) (p : ℕ) : Eval (Heap α) := do
  let _ ← h.load p
  pure ⟨h.blocks.set p none, h.freed ++ [p]⟩

/-- `realloc` that returns a block: the one at `p` is gone afterwards. -/
def move (h : Heap α) (p : ℕ) (block : List (Option α)) : Heap α × ℕ :=
  ({ h with blocks := h.blocks.set p none } : Heap α).alloc block

/-- The block is at `p`. -/
def Live (h : Heap α) (p : ℕ) (block : List (Option α)) : Prop := h.blocks[p]? = some (some block)

/-- No block was freed twice, and none is there that was freed. -/
def WellFreed (h : Heap α) : Prop := h.freed.Nodup ∧ ∀ p ∈ h.freed, h.blocks[p]? = some none

variable {h : Heap α} {p q : ℕ} {block : List (Option α)}

lemma Live.load_eq (hp : h.Live p block) : h.load p = .ok block := by
  rw [load, hp]

lemma Live.lt (hp : h.Live p block) : p < h.blocks.length := (List.getElem?_eq_some_iff.mp hp).1

lemma wellFreed_empty : (empty : Heap α).WellFreed := ⟨List.nodup_nil, fun _ hp => by cases hp⟩

/-! ### A new block -/

lemma live_alloc (h : Heap α) (block : List (Option α)) : (h.alloc block).1.Live h.blocks.length block :=
  List.getElem?_concat_length

lemma Live.alloc (hp : h.Live p block) (block' : List (Option α)) : (h.alloc block').1.Live p block :=
  (List.getElem?_append_left hp.lt).trans hp

lemma WellFreed.alloc (hw : h.WellFreed) (block : List (Option α)) : (h.alloc block).1.WellFreed := by
  refine ⟨hw.1, fun p hp => ?_⟩
  have hgone := hw.2 p hp
  exact (List.getElem?_append_left (List.getElem?_eq_some_iff.mp hgone).1).trans hgone

/-! ### A block that is freed -/

lemma Live.free_eq (hp : h.Live p block) : h.free p = .ok ⟨h.blocks.set p none, h.freed ++ [p]⟩ := by
  rw [free, hp.load_eq]
  rfl

lemma Live.free (hp : h.Live p block) (hne : p ≠ q) (freed : List ℕ) :
    Live ⟨h.blocks.set q none, freed⟩ p block :=
  (List.getElem?_set_ne hne.symm).trans hp

lemma WellFreed.free (hw : h.WellFreed) (hp : h.Live p block) :
    WellFreed ⟨h.blocks.set p none, h.freed ++ [p]⟩ := by
  have hnew : p ∉ h.freed := fun hmem => by
    have hgone := hw.2 p hmem
    rw [hp] at hgone
    cases hgone
  refine ⟨List.nodup_append_comm.mp (List.nodup_cons.mpr ⟨hnew, hw.1⟩), fun q hq => ?_⟩
  · rw [List.mem_append, List.mem_singleton] at hq
    rcases eq_or_ne p q with rfl | hne
    · exact List.getElem?_set_self hp.lt
    · exact (List.getElem?_set_ne hne).trans (hw.2 q (hq.resolve_right hne.symm))

/-! ### A block that is moved -/

lemma live_move (h : Heap α) (p : ℕ) (block : List (Option α)) :
    (h.move p block).1.Live (h.move p block).2 block := live_alloc _ block

lemma move_snd (h : Heap α) (p : ℕ) (block : List (Option α)) : (h.move p block).2 = h.blocks.length :=
  List.length_set

lemma Live.move (hp : h.Live p block) (hne : p ≠ q) (block' : List (Option α)) :
    (h.move q block').1.Live p block :=
  Live.alloc (hp.free hne h.freed) block'

lemma WellFreed.move (hw : h.WellFreed) (p : ℕ) (block : List (Option α)) :
    (h.move p block).1.WellFreed := by
  have hgone : WellFreed ({ h with blocks := h.blocks.set p none } : Heap α) := by
    refine ⟨hw.1, fun q hq => ?_⟩
    have hq' := hw.2 q hq
    rcases eq_or_ne p q with rfl | hne
    · exact List.getElem?_set_self (List.getElem?_eq_some_iff.mp hq').1
    · exact (List.getElem?_set_ne hne).trans hq'
  exact hgone.alloc block

end Heap

end CSem
