import Mathlib.Data.List.Basic

/-!
# Pieces of a list

What stands between the occurrences of a separator.
-/

namespace Split

variable {α : Type*} [BEq α] [LawfulBEq α] {sep : α}

/-- A piece is a part of the list in which nothing separates. -/
lemma piece_spec {l piece : List α} (h : piece ∈ l.splitOn sep) :
    piece.Sublist l ∧ sep ∉ piece := by
  induction l generalizing piece with
  | nil =>
    rw [List.splitOn_nil, List.mem_singleton] at h
    subst h
    exact ⟨List.Sublist.refl _, List.not_mem_nil⟩
  | cons b l ih =>
    rw [List.splitOn_cons_eq_if_modifyHead] at h
    split_ifs at h with hb
    · rcases List.mem_cons.mp h with rfl | h
      · exact ⟨List.nil_sublist _, List.not_mem_nil⟩
      · exact ⟨(ih h).1.cons b, (ih h).2⟩
    · cases hsplit : l.splitOn sep with
      | nil => exact absurd hsplit (List.splitOn_ne_nil sep l)
      | cons first rest =>
        rw [hsplit] at h ih
        rcases List.mem_cons.mp h with rfl | h
        · obtain ⟨hsub, hnot⟩ := ih List.mem_cons_self
          refine ⟨hsub.cons_cons b, ?_⟩
          rw [List.mem_cons, not_or]
          exact ⟨fun heq => hb (by simp [heq]), hnot⟩
        · obtain ⟨hsub, hnot⟩ := ih (List.mem_cons_of_mem _ h)
          exact ⟨hsub.cons b, hnot⟩

lemma sep_notMem {l piece : List α} (h : piece ∈ l.splitOn sep) : sep ∉ piece := (piece_spec h).2

lemma piece_sublist {l piece : List α} (h : piece ∈ l.splitOn sep) : piece.Sublist l :=
  (piece_spec h).1

lemma head_splitOn_isPrefix {l first : List α} {rest : List (List α)}
    (h : l.splitOn sep = first :: rest) : first <+: l := by
  have hl : [sep].intercalate (l.splitOn sep) = l := List.intercalate_splitOn sep
  rw [h] at hl
  cases rest with
  | nil =>
    rw [List.intercalate_singleton] at hl
    exact hl ▸ List.prefix_refl _
  | cons next rest =>
    rw [List.intercalate_cons_cons, List.append_assoc] at hl
    exact ⟨_, hl⟩

/-- Joined pieces are cut again where they were joined, and where they are cut themselves. -/
lemma splitOn_intercalate_flatMap {pieces : List (List α)} (h : pieces ≠ []) :
    ([sep].intercalate pieces).splitOn sep = pieces.flatMap (·.splitOn sep) := by
  induction pieces with
  | nil => exact absurd rfl h
  | cons first rest ih =>
    cases rest with
    | nil => simp
    | cons next rest =>
      rw [List.intercalate_cons_cons, List.append_assoc, List.singleton_append,
        List.splitOn_append_cons_self, ih (List.cons_ne_nil _ _)]
      rfl

/-- A tail in which nothing separates belongs to the last piece. -/
lemma splitOn_append_of_notMem (l : List α) {tail : List α} (h : sep ∉ tail) :
    ∃ init last, (l ++ tail).splitOn sep = init ++ [last ++ tail] := by
  induction l with
  | nil => exact ⟨[], [], by rw [List.nil_append, List.splitOn_eq_singleton h]; rfl⟩
  | cons b l ih =>
    obtain ⟨init, last, hsplit⟩ := ih
    rw [List.cons_append, List.splitOn_cons_eq_if_modifyHead, hsplit]
    split_ifs with hb
    · exact ⟨[] :: init, last, rfl⟩
    · cases init with
      | nil => exact ⟨[], b :: last, rfl⟩
      | cons first init => exact ⟨(b :: first) :: init, last, rfl⟩

omit [BEq α] [LawfulBEq α] in
lemma mem_intercalate {pieces : List (List α)} {piece : List α} (h : piece ∈ pieces) {a : α}
    (ha : a ∈ piece) : a ∈ [sep].intercalate pieces := by
  induction pieces with
  | nil => exact absurd h List.not_mem_nil
  | cons first rest ih =>
    cases rest with
    | nil =>
      rw [List.mem_singleton.mp h] at ha
      rwa [List.intercalate_singleton]
    | cons next rest =>
      rw [List.intercalate_cons_cons, List.mem_append, List.mem_append]
      rcases List.mem_cons.mp h with rfl | h
      · exact .inl (.inl ha)
      · exact .inr (ih h)

end Split
