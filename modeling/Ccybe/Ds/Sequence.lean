import Ccybe.Ds.LList
import Mathlib.Data.List.Induction

/-!
# The client list as a sequence

Seen from outside, the list is the sequence of the clients that were inserted and not removed
yet, in the order in which they were inserted. Whoever follows the pointers from either end
reads this sequence, and the functions that take a descriptor work on its first client with
that descriptor.
-/

namespace Ccybe

open CSem Chain

/-- A call of a function of the list; `node` is what `malloc` returns in `insert_client`. -/
inductive ListOp where
  | insert (client : Client) (node : Addr)
  | search (fd : Fd)
  | removeFd (fd : Fd)
  | removeNode (node : Addr)

namespace LList

/-- The list after the call. -/
def apply (passes : ℕ) (l : LList) : ListOp → Eval LList
  | .insert client node => do
    let (_, l) ← l.insertClient client (some node)
    return l
  | .search fd => do
    let _ ← l.searchClient fd passes
    return l
  | .removeFd fd => do
    let (_, l) ← l.removeClientFd fd passes
    return l
  | .removeNode node => do
    let (_, l) ← l.removeClientNode (some node)
    return l

/-- The nodes that are met from `node` on, in the direction `dir`. -/
def follow (l : LList) (dir : LNode → Option Addr) : ℕ → Option Addr → Eval (List (Addr × Client))
  | _, none => .ok []
  | 0, some _ => .error .passes
  | passes + 1, some a => do
    let node ← l.load a
    let rest ← l.follow dir passes (dir node)
    pure ((a, node.client) :: rest)

end LList

/-- The sequence after the call, if the call is one that a program may make: `malloc` returns
an address that no node has, and only nodes of the list are removed. -/
def ListOp.next (xs : List (Addr × Client)) : ListOp → Option (List (Addr × Client))
  | .insert client node => if node ∈ xs.map Prod.fst then none else some (xs ++ [(node, client)])
  | .search _ => some xs
  | .removeFd fd => some (xs.eraseP fun x => x.2.fd = fd)
  | .removeNode node =>
    if node ∈ xs.map Prod.fst then some (xs.eraseP fun x => x.1 = node) else none

namespace LList

/-- The list is the sequence `xs`, for all that its functions and its pointers tell. -/
structure IsSequence (l : LList) (xs : List (Addr × Client)) (passes : ℕ) : Prop where
  forward : l.follow LNode.next passes l.head = .ok xs
  backward : l.follow LNode.prev passes l.tail = .ok xs.reverse
  head : l.head = none ↔ xs = []
  tail : l.tail = none ↔ xs = []
  search : ∀ fd, l.searchClient fd passes = .ok ((xs.find? fun x => x.2.fd = fd).map Prod.fst)
  refuses : ∀ fd, (∃ l', l.removeClientFd fd passes = .ok (1, l')) ↔ ∀ x ∈ xs, x.2.fd ≠ fd
  unchanged : ∀ fd l', l.removeClientFd fd passes = .ok (1, l') → l' = l
  removes : ∀ fd a, l.searchClient fd passes = .ok (some a) →
    l.removeClientFd fd passes = l.removeClientNode (some a)

/-! ### Following the pointers -/

lemma follow_next {l : LList} {xs : List (Addr × Client)} (h : l.Repr xs)
    {u v : List (Addr × Client)} (hsplit : xs = u ++ v) {passes : ℕ} (hp : v.length ≤ passes) :
    l.follow LNode.next passes (headKey v) = .ok v := by
  induction v generalizing u passes with
  | nil => cases passes <;> rfl
  | cons x v ih =>
    obtain ⟨a, c⟩ := x
    cases passes with
    | zero => simp at hp
    | succ passes =>
      have hnode := h.heap_eq hsplit
      have hrest := ih (u := u ++ [(a, c)]) (by simpa using hsplit) (by simpa using hp)
      simp [follow, load, hnode, hrest]

lemma follow_prev {l : LList} {xs : List (Addr × Client)} (h : l.Repr xs)
    {u v : List (Addr × Client)} (hsplit : xs = u ++ v) {passes : ℕ} (hp : u.length ≤ passes) :
    l.follow LNode.prev passes (lastKey u) = .ok u.reverse := by
  induction u using List.reverseRecOn generalizing v passes with
  | nil => cases passes <;> rfl
  | append_singleton u x ih =>
    obtain ⟨a, c⟩ := x
    cases passes with
    | zero => simp at hp
    | succ passes =>
      have hsplit' : xs = u ++ (a, c) :: v := by simpa using hsplit
      have hnode := h.heap_eq hsplit'
      have hrest := ih hsplit' (by simpa using hp)
      simp [follow, load, hnode, hrest]

/-! ### The calls -/

/-- `remove_client_fd` is `remove_client_node` on what `search_client` finds. -/
lemma removeClientFd_eq {l : LList} {fd : Fd} {passes : ℕ} {node : Option Addr}
    (h : l.searchClient fd passes = .ok node) :
    l.removeClientFd fd passes = l.removeClientNode node := by
  rw [removeClientFd, h, ok_bind]
  cases node <;> rfl

/-- The search does not need more passes than there are nodes. -/
lemma searchClient_of_le {l : LList} {xs : List (Addr × Client)} (h : l.Repr xs) (fd : Fd)
    {passes : ℕ} (hp : xs.length ≤ passes) :
    l.searchClient fd passes = .ok ((xs.find? fun x => x.2.fd = fd).map Prod.fst) := by
  rw [searchClient, h.head]
  exact searchFrom_eq h fd (u := []) rfl hp

/-- Where the first element that satisfies `p` is. -/
lemma split_find {xs : List (Addr × Client)} {p : Addr × Client → Bool} {x : Addr × Client}
    (h : xs.find? p = some x) : ∃ u v, xs = u ++ x :: v ∧ xs.eraseP p = u ++ v := by
  obtain ⟨hx, u, v, rfl, hu⟩ := List.find?_eq_some_iff_append.mp h
  refine ⟨u, v, rfl, ?_⟩
  rw [List.eraseP_append_right _ fun y hy => by simpa using hu y hy, List.eraseP_cons_of_pos hx]

lemma removeClientNode_eraseP {l : LList} {xs : List (Addr × Client)} (h : l.Repr xs)
    {p : Addr × Client → Bool} {x : Addr × Client} (hx : xs.find? p = some x) :
    ∃ l', l.removeClientNode (some x.1) = .ok (0, l') ∧ l'.Repr (xs.eraseP p) := by
  obtain ⟨u, v, rfl, herase⟩ := split_find hx
  rw [herase]
  exact removeClientNode_repr h

/-- A call does to the list what it does to the sequence. -/
lemma apply_repr {l : LList} {xs xs' : List (Addr × Client)} {passes : ℕ} (h : l.Repr xs)
    (hp : xs.length ≤ passes) {op : ListOp} (hop : op.next xs = some xs') :
    ∃ l', l.apply passes op = .ok l' ∧ l'.Repr xs' := by
  cases op with
  | insert client node =>
    simp only [ListOp.next] at hop
    split_ifs at hop with hfree
    cases hop
    have hnone : l.heap node = none := by
      rw [← h.heap_isSome] at hfree
      simpa using hfree
    obtain ⟨l', hl', hrepr⟩ := insertClient_repr h client hnone
    exact ⟨l', by simp [apply, hl'], hrepr⟩
  | search fd =>
    cases hop
    exact ⟨l, by simp [apply, searchClient_of_le h fd hp], h⟩
  | removeFd fd =>
    cases hop
    have hsearch := searchClient_of_le h fd hp
    cases hfind : xs.find? fun x => x.2.fd = fd with
    | none =>
      rw [hfind] at hsearch
      have hrefuse : l.removeClientFd fd passes = .ok (1, l) := removeClientFd_eq hsearch
      refine ⟨l, by simp [apply, hrefuse], ?_⟩
      rwa [List.eraseP_of_forall_not fun x hx => by simpa using List.find?_eq_none.mp hfind x hx]
    | some x =>
      rw [hfind] at hsearch
      obtain ⟨l', hl', hrepr⟩ := removeClientNode_eraseP h hfind
      exact ⟨l', by simp [apply, removeClientFd_eq hsearch, hl'], hrepr⟩
  | removeNode node =>
    simp only [ListOp.next] at hop
    split_ifs at hop with hmem
    cases hop
    obtain ⟨x, hx, hxa⟩ := List.mem_map.mp hmem
    have hfound : ((xs.find? fun x => x.1 = node)).isSome := by
      rw [List.find?_isSome]
      exact ⟨x, hx, by simpa using hxa⟩
    obtain ⟨y, hy⟩ := Option.isSome_iff_exists.mp hfound
    have hya : y.1 = node := by simpa using List.find?_some hy
    obtain ⟨l', hl', hrepr⟩ := removeClientNode_eraseP h hy
    rw [hya] at hl'
    exact ⟨l', by simp [apply, hl'], hrepr⟩

/-- A call makes the sequence longer by one at most. -/
lemma length_next_le {xs xs' : List (Addr × Client)} {op : ListOp} (h : op.next xs = some xs') :
    xs'.length ≤ xs.length + 1 := by
  cases op with
  | insert client node =>
    simp only [ListOp.next] at h
    split_ifs at h
    cases h
    simp
  | search fd =>
    cases h
    exact Nat.le_succ _
  | removeFd fd =>
    cases h
    exact Nat.le_succ_of_le List.length_eraseP_le
  | removeNode node =>
    simp only [ListOp.next] at h
    split_ifs at h
    cases h
    exact Nat.le_succ_of_le List.length_eraseP_le

lemma applyAll_repr {ops : List ListOp} {l : LList} {xs ys : List (Addr × Client)} {passes : ℕ}
    (h : l.Repr xs) (hops : ops.foldlM ListOp.next xs = some ys)
    (hp : xs.length + ops.length ≤ passes) :
    ∃ l', ops.foldlM (apply passes) l = .ok l' ∧ l'.Repr ys ∧ ys.length ≤ passes := by
  induction ops generalizing l xs with
  | nil =>
    cases hops
    exact ⟨l, rfl, h, by simpa using hp⟩
  | cons op ops ih =>
    rw [List.foldlM_cons] at hops
    obtain ⟨xs', hnext, hops⟩ := Option.bind_eq_some_iff.mp hops
    have hlen := length_next_le hnext
    rw [List.length_cons] at hp
    have hxs : xs.length ≤ passes := by omega
    obtain ⟨l₁, hl₁, hrepr₁⟩ := apply_repr h hxs hnext
    obtain ⟨l₂, hl₂, hrepr₂⟩ := ih hrepr₁ hops (by omega)
    refine ⟨l₂, ?_, hrepr₂⟩
    rw [List.foldlM_cons, hl₁, ok_bind, hl₂]

lemma Repr.isSequence {l : LList} {xs : List (Addr × Client)} {passes : ℕ} (h : l.Repr xs)
    (hp : xs.length ≤ passes) : l.IsSequence xs passes where
  forward := by
    rw [h.head]
    exact follow_next h (u := []) rfl hp
  backward := by
    rw [h.tail]
    exact follow_prev h (v := []) (List.append_nil xs).symm hp
  head := by
    rw [h.head]
    cases xs <;> simp
  tail := by rw [h.tail, lastKey_eq_none]
  search := fun fd => searchClient_of_le h fd hp
  refuses := fun fd => by
    have hsearch := searchClient_of_le h fd hp
    rw [removeClientFd_eq hsearch]
    cases hfind : xs.find? fun x => x.2.fd = fd with
    | none =>
      refine iff_of_true ⟨l, rfl⟩ fun x hx => ?_
      simpa using List.find?_eq_none.mp hfind x hx
    | some x =>
      obtain ⟨l', hl', -⟩ := removeClientNode_eraseP h hfind
      refine iff_of_false ?_ fun hne => ?_
      · rintro ⟨l'', hl''⟩
        cases hl'.symm.trans hl''
      · exact hne x (List.mem_of_find?_eq_some hfind) (by simpa using List.find?_some hfind)
  unchanged := fun fd l' hl' => by
    rw [removeClientFd_eq (searchClient_of_le h fd hp)] at hl'
    cases hfind : xs.find? fun x => x.2.fd = fd with
    | none =>
      rw [hfind] at hl'
      cases hl'
      rfl
    | some x =>
      rw [hfind] at hl'
      obtain ⟨l'', hl'', -⟩ := removeClientNode_eraseP h hfind
      cases hl''.symm.trans hl'
  removes := fun fd a hsearch => removeClientFd_eq hsearch

/-- The client list refines the sequence: after every sequence of calls it is the sequence of
the clients that were inserted and not removed, in the order of their insertion. -/
theorem refines_sequence {ops : List ListOp} {xs : List (Addr × Client)}
    (hops : ops.foldlM ListOp.next [] = some xs) {passes : ℕ} (hp : ops.length ≤ passes) :
    ∃ l, ops.foldlM (apply passes) init = .ok l ∧ l.IsSequence xs passes := by
  obtain ⟨l, hl, hrepr, hlen⟩ := applyAll_repr init_repr hops (by simpa using hp)
  exact ⟨l, hl, hrepr.isSequence hlen⟩

/-- Three clients, two of them with one descriptor: the first of these is removed by its
descriptor, and its address is used again. -/
theorem refines_sequence_three :
    ∃ l, [ListOp.insert ⟨5⟩ 0, .insert ⟨6⟩ 1, .insert ⟨5⟩ 2, .removeFd 5, .removeNode 1,
        .insert ⟨7⟩ 0].foldlM (apply 6) init = .ok l ∧
      l.IsSequence [(2, ⟨5⟩), (0, ⟨7⟩)] 6 :=
  refines_sequence (by decide) (by decide)

end LList

end Ccybe
