import Mathlib.Data.List.Basic

/-!
# Lines and the empty line behind them

A text of lines, each with two separators `cr` and `lf` behind it. Lines that are not empty and
have no `cr` in them are followed by the first empty line, whatever comes behind it.
-/

namespace Lines

variable {α : Type*}

/-- `pat` occurs in `l` for the first time between `u` and `v`. -/
def FirstAt (pat l u v : List α) : Prop :=
  l = u ++ pat ++ v ∧ ∀ u' v', l = u' ++ pat ++ v' → u.length ≤ u'.length

/-- The lines, each with its end. -/
def block (cr lf : α) (lines : List (List α)) : List α := lines.flatMap (· ++ [cr, lf])

lemma FirstAt.unique {pat l u v u' v' : List α} (h : FirstAt pat l u v) (h' : FirstAt pat l u' v') :
    u = u' ∧ v = v' := by
  have hlen : u.length = u'.length := Nat.le_antisymm (h.2 u' v' h'.1) (h'.2 u v h.1)
  have heq := h.1.symm.trans h'.1
  rw [List.append_assoc, List.append_assoc] at heq
  obtain ⟨hu, hrest⟩ := List.append_inj heq hlen
  exact ⟨hu, List.append_cancel_left hrest⟩

lemma block_eq (cr lf : α) {lines : List (List α)} (h : lines ≠ []) :
    block cr lf lines = [cr, lf].intercalate lines ++ [cr, lf] := by
  induction lines with
  | nil => exact absurd rfl h
  | cons line lines ih =>
    cases lines with
    | nil => simp [block]
    | cons next lines =>
      rw [List.intercalate_cons_cons, List.append_assoc, List.append_assoc, ← ih (List.cons_ne_nil _ _)]
      simp [block]

/-- A text that begins with `cr` does not begin with a line. -/
lemma eq_nil_of_cr {cr lf : α} {lines : List (List α)} (h : ∀ line ∈ lines, line ≠ [] ∧ cr ∉ line)
    {rest w : List α} (heq : block cr lf lines ++ rest = cr :: w) : lines = [] := by
  cases lines with
  | nil => rfl
  | cons line lines =>
    obtain ⟨hline, hcr⟩ := h line List.mem_cons_self
    obtain ⟨a, line, rfl⟩ := List.exists_cons_of_ne_nil hline
    simp only [block, List.flatMap_cons, List.cons_append, List.cons.injEq] at heq
    exact absurd (by simp [heq.1]) hcr

/-- An empty line before the end would begin in a line, or where one ends. -/
lemma length_le_of_emptyLine {cr lf : α} (hne : cr ≠ lf) (lines : List (List α)) (body : List α)
    (h : ∀ line ∈ lines, line ≠ [] ∧ cr ∉ line) {u v : List α}
    (heq : block cr lf lines ++ [cr, lf] ++ body = u ++ [cr, lf, cr, lf] ++ v) :
    ([cr, lf].intercalate lines).length ≤ u.length := by
  induction lines generalizing u with
  | nil => simp
  | cons line lines ih =>
    rw [List.forall_mem_cons] at h
    obtain ⟨⟨-, hcr⟩, hlines⟩ := h
    have hsplit : line ++ (cr :: lf :: (block cr lf lines ++ [cr, lf] ++ body)) =
        u ++ (cr :: lf :: cr :: lf :: v) := by
      simpa [block] using heq
    rcases List.append_eq_append_iff.mp hsplit with ⟨w, rfl, hw⟩ | ⟨w, rfl, hw⟩
    · match w with
      | [] =>
        -- the line ends here, and the next one is not empty
        simp only [List.nil_append, List.append_assoc, List.cons.injEq, true_and] at hw
        rw [eq_nil_of_cr hlines hw]
        simp
      | [a] =>
        simp only [List.cons_append, List.nil_append, List.cons.injEq] at hw
        exact absurd hw.2.1.symm hne
      | a :: b :: w =>
        simp only [List.cons_append, List.cons.injEq] at hw
        have hrest := ih hlines (u := w) (by simpa using hw.2.2)
        cases lines with
        | nil => simp
        | cons next lines =>
          rw [List.intercalate_cons_cons]
          simp only [List.length_append, List.length_cons, List.length_nil] at hrest ⊢
          omega
    · match w with
      | [] =>
        simp only [List.nil_append, List.append_assoc, List.cons.injEq, true_and] at hw
        rw [eq_nil_of_cr hlines hw.symm]
        simp
      | a :: w =>
        rw [List.cons_append, List.cons.injEq] at hw
        exact absurd (by simp [hw.1]) hcr

/-- The lines are followed by the first empty line. -/
lemma firstAt_block {cr lf : α} (hne : cr ≠ lf) {lines : List (List α)} (hlines : lines ≠ [])
    (h : ∀ line ∈ lines, line ≠ [] ∧ cr ∉ line) (body : List α) :
    FirstAt [cr, lf, cr, lf] (block cr lf lines ++ [cr, lf] ++ body) ([cr, lf].intercalate lines)
      body := by
  refine ⟨?_, fun u v heq => length_le_of_emptyLine hne lines body h heq⟩
  rw [block_eq cr lf hlines]
  simp

end Lines
