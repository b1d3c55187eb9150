import Mathlib.Data.List.Nodup

/-!
# Association lists

A list of keys and values in which a key may stand more than once: its first entry is what
`List.lookup` finds, its last one what `List.lookup` finds in the reversed list.
-/

namespace Assoc

variable {α β : Type*} [BEq α] [LawfulBEq α]

/-! ### Without repetitions -/

lemma nodup_eraseDups (l : List α) : l.eraseDups.Nodup := by
  induction hn : l.length using Nat.strongRecOn generalizing l with
  | _ n ih =>
    cases l with
    | nil => simp
    | cons a l =>
      rw [List.eraseDups_cons, List.nodup_cons]
      constructor
      · intro hmem
        simpa using (List.mem_filter.mp (List.mem_eraseDups.mp hmem)).2
      · refine ih _ ?_ _ rfl
        rw [← hn, List.length_cons]
        exact Nat.lt_succ_of_le (List.length_filter_le _ l)

lemma eraseDups_eq_self_iff {l : List α} : l.eraseDups = l ↔ l.Nodup := by
  constructor
  · intro h
    rw [← h]
    exact nodup_eraseDups l
  · intro h
    induction l with
    | nil => rfl
    | cons a l ih =>
      obtain ⟨ha, hl⟩ := List.nodup_cons.mp h
      have hfilter : (l.filter fun b => !b == a) = l := by
        rw [List.filter_eq_self]
        intro b hb
        simpa using fun heq : b = a => ha (heq ▸ hb)
      rw [List.eraseDups_cons, hfilter, ih hl]

/-! ### Looking up -/

/-- Where no key is repeated, each entry is found. -/
lemma lookup_of_nodup {l : List (α × β)} (hkeys : (l.map Prod.fst).Nodup) {e : α × β} (he : e ∈ l) :
    l.lookup e.1 = some e.2 := by
  obtain ⟨u, v, rfl⟩ := List.append_of_mem he
  refine List.lookup_eq_some_iff.mpr ⟨u, v, rfl, fun p hp => ?_⟩
  rw [List.map_append, List.map_cons, List.nodup_append] at hkeys
  have hne := hkeys.2.2 p.1 (List.mem_map_of_mem hp) e.1 List.mem_cons_self
  simpa using Ne.symm hne

lemma lookup_reverse_of_nodup {l : List (α × β)} (hkeys : (l.map Prod.fst).Nodup) {e : α × β}
    (he : e ∈ l) : l.reverse.lookup e.1 = some e.2 := by
  refine lookup_of_nodup ?_ (List.mem_reverse.mpr he)
  rw [List.map_reverse]
  exact List.nodup_reverse.mpr hkeys

end Assoc
