import Ccybe.Ds.Sequence

/-!
# What `free_list` leaves behind

`free_list` closes and frees all clients, and the head of the list is null afterwards. The tail is not
touched: it points to the last node, which was freed, and `insert_client` writes through it.
-/

namespace Ccybe

open CSem Chain Logged

namespace LList

/-- On the list `l` of the nodes `xs` the calls close each client once, in order, and free each node
once. -/
structure Released (l : LList) (xs : List (Addr × Client)) (calls : List ListCall) : Prop where
  closes : calls.filterMap ListCall.closed = xs.map fun x => x.2.fd
  once : (calls.filterMap ListCall.freed).Nodup
  frees : ∀ a, a ∈ calls.filterMap ListCall.freed ↔ (l.heap a).isSome

/-- With these calls `free_list` leaves `l'`, which cannot be told from a new list. -/
structure Emptied (l : LList) (xs : List (Addr × Client)) (calls : List ListCall) (l' : LList) : Prop
    extends Released l xs calls where
  head : l'.head = none
  tail : l'.tail = none
  continues : ∀ (ops : List ListOp) (ys : List (Addr × Client)) (passes : ℕ),
    ops.foldlM ListOp.next [] = some ys → ops.length ≤ passes →
      ∃ l'', ops.foldlM (apply passes) l' = .ok l'' ∧ l''.IsSequence ys passes

/-- `free_list` ends within the given number of passes, and it empties the list. -/
def Empties (l : LList) (xs : List (Addr × Client)) (passes : ℕ) : Prop :=
  ∃ calls l', (l.freeListLogged passes).Does l' calls ∧ Emptied l xs calls l'

/-! ### What is released -/

lemma callsFor_released {l : LList} {xs : List (Addr × Client)} (h : l.Repr xs) :
    Released l xs (callsFor xs) where
  closes := closed_callsFor xs
  once := by
    rw [freed_callsFor]
    exact h.nodup
  frees := fun a => by rw [freed_callsFor, h.heap_isSome]

/-- `free_list` releases everything, and leaves an empty list but for the tail. -/
lemma freeListLogged_releases {l : LList} {xs : List (Addr × Client)} (h : l.Repr xs) {passes : ℕ}
    (hp : xs.length ≤ passes) :
    ∃ calls l', (l.freeListLogged passes).Does l' calls ∧ Released l xs calls ∧ l'.head = none ∧
      l'.tail = lastKey xs ∧ ∀ a, l'.heap a = none := by
  obtain ⟨l', hdoes, hhead, htail, hheap⟩ := freeListLogged_eq h hp
  exact ⟨callsFor xs, l', hdoes, callsFor_released h, hhead, htail.trans h.tail, hheap⟩

/-- A list with neither nodes nor ends behaves as a new one. -/
lemma continues_of_nil {l : LList} (h : l.Repr []) {ops : List ListOp} {ys : List (Addr × Client)}
    {passes : ℕ} (hops : ops.foldlM ListOp.next [] = some ys) (hp : ops.length ≤ passes) :
    ∃ l', ops.foldlM (apply passes) l = .ok l' ∧ l'.IsSequence ys passes := by
  obtain ⟨l', hl', hrepr, hlen⟩ := applyAll_repr h hops (by simpa using hp)
  exact ⟨l', hl', hrepr.isSequence hlen⟩

/-! ### What is left -/

/-- The first client that is inserted behind a freed node. -/
lemma insertClient_freed {l : LList} {t a : Addr} (htail : l.tail = some t) (hheap : ∀ k, l.heap k = none)
    (ha : a ≠ t) (client : Client) : l.insertClient client (some a) = .error .freed := by
  have htail' : (l.store a ⟨client, l.tail, none⟩).tail = some t := htail
  have hload : (l.store a ⟨client, l.tail, none⟩).load t = .error .freed := by
    simp [load, store, hheap, ha.symm]
  rw [insertClient]
  simp only [htail', hload, error_bind]

/-- After any calls, `free_list` empties the list if and only if there are no clients in it. -/
theorem empties_iff {ops : List ListOp} {xs : List (Addr × Client)}
    (hops : ops.foldlM ListOp.next [] = some xs) {passes : ℕ} (hp : ops.length ≤ passes) {l : LList}
    (hl : ops.foldlM (apply passes) init = .ok l) : l.Empties xs passes ↔ xs = [] := by
  obtain ⟨l₀, hl₀, hrepr, hlen⟩ := applyAll_repr init_repr hops (by simpa using hp)
  obtain rfl : l₀ = l := Except.ok.inj (hl₀.symm.trans hl)
  obtain ⟨calls, l', hdoes, hreleased, hhead, htail, hheap⟩ := freeListLogged_releases hrepr hlen
  constructor
  · rintro ⟨calls', l'', hdoes', hemptied⟩
    obtain rfl : l' = l'' := congrArg Prod.fst (Except.ok.inj (hdoes.symm.trans hdoes'))
    exact lastKey_eq_none.mp (htail.symm.trans hemptied.tail)
  · rintro rfl
    have hnil : l'.Repr [] :=
      ⟨hhead, htail, linked_nil _, List.nodup_nil, fun a ha => absurd (hheap a) ha⟩
    exact ⟨calls, l', hdoes, hreleased, hhead, htail, fun ops ys passes hops hp =>
      continues_of_nil hnil hops hp⟩

/-- A client that was inserted and removed again. -/
theorem empties_iff_removed :
    ∃ l, [ListOp.insert ⟨5⟩ 0, .removeFd 5].foldlM (apply 2) init = .ok l ∧ l.Empties [] 2 := by
  have hops : [ListOp.insert ⟨5⟩ 0, .removeFd 5].foldlM ListOp.next [] = some [] := by decide
  obtain ⟨l, hl, -⟩ := applyAll_repr init_repr hops (show 0 + 2 ≤ 2 from le_refl _)
  exact ⟨l, hl, (empties_iff hops (by decide) hl).mpr rfl⟩

/-- One client: its node is freed and stays the tail, and the next client is inserted behind it. -/
theorem tail_left_behind :
    ∃ l l', [ListOp.insert ⟨5⟩ 0].foldlM (apply 1) init = .ok l ∧
      (l.freeListLogged 1).Does l' [.close 5, .free 0] ∧ l'.tail = some 0 ∧ l'.heap 0 = none ∧
      l'.insertClient ⟨6⟩ (some 1) = .error .freed ∧ ¬ l.Empties [(0, ⟨5⟩)] 1 := by
  have hops : [ListOp.insert ⟨5⟩ 0].foldlM ListOp.next [] = some [(0, ⟨5⟩)] := by decide
  obtain ⟨l, hl, hrepr, hlen⟩ := applyAll_repr init_repr hops (show 0 + 1 ≤ 1 from le_refl _)
  obtain ⟨l', hdoes, -, htail, hheap⟩ := freeListLogged_eq hrepr hlen
  replace htail : l'.tail = some 0 := htail.trans hrepr.tail
  refine ⟨l, l', hl, hdoes, htail, hheap 0, insertClient_freed htail hheap (by decide) ⟨6⟩, ?_⟩
  rintro ⟨calls, l'', hdoes', hemptied⟩
  obtain rfl : l' = l'' := congrArg Prod.fst (Except.ok.inj (hdoes.symm.trans hdoes'))
  exact absurd (htail.symm.trans hemptied.tail) (by decide)

end LList

end Ccybe
