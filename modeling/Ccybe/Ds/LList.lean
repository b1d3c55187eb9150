import Ccybe.Lib.CSem
import Ccybe.Lib.Chain
import Ccybe.Lib.Logged
import Mathlib.Logic.Function.Basic

/-!
# The client list (`ds/llist.c`)

`list_t` is a doubly linked list of clients with a pointer to each end. Its nodes live on the
heap; an address is the name of an allocation, so a freed node is not found under its address
again. `ClientList` bundles a list with the clients that it represents.
-/

namespace Ccybe

open CSem Chain Logged

abbrev Addr := ℕ
abbrev Fd := ℕ

/-- `client_t`. The addresses of the peer are only printed and are left out. -/
structure Client where
  fd : Fd
  deriving DecidableEq

/-- `l_node_t`. -/
structure LNode where
  client : Client
  prev : Option Addr
  next : Option Addr
  deriving DecidableEq

/-- A call of `free_list`. -/
inductive ListCall where
  | close (fd : Fd)
  | free (node : Addr)
  deriving DecidableEq

/-- `list_t` and the heap with its nodes. -/
structure LList where
  head : Option Addr
  tail : Option Addr
  heap : Addr → Option LNode

namespace LList

/-- `init_list`. -/
def init : LList := ⟨none, none, fun _ => none⟩

/-- Read the node at `a`. -/
def load (l : LList) (a : Addr) : Eval LNode :=
  match l.heap a with
  | none => .error .freed
  | some node => .ok node

/-- Write the node at `a`. -/
def store (l : LList) (a : Addr) (node : LNode) : LList :=
  { l with heap := Function.update l.heap a (some node) }

/-- `free` of the node at `a`. -/
def free (l : LList) (a : Addr) : LList :=
  { l with heap := Function.update l.heap a none }

/-- `insert_client`; `node` is what `malloc` returns. It is written to before it is compared
with null. -/
def insertClient (l : LList) (client : Client) (node : Option Addr) : Eval (Addr × LList) := do
  match node with
  | none => .error .null
  | some a =>
    let l := l.store a ⟨client, l.tail, none⟩
    let l ← match l.tail with
      | some t => do
        let last ← l.load t
        pure (l.store t { last with next := some a })
      | none => pure l
    let l := { l with tail := some a }
    pure (a, if l.head.isNone then { l with head := some a } else l)

/-- The loop of `search_client` from `node` on, with at most `passes` passes. -/
def searchFrom (l : LList) (fd : Fd) : ℕ → Option Addr → Eval (Option Addr)
  | _, none => .ok none
  | 0, some _ => .error .passes
  | passes + 1, some a => do
    let node ← l.load a
    if node.client.fd = fd then pure (some a) else l.searchFrom fd passes node.next

/-- `search_client`. -/
def searchClient (l : LList) (fd : Fd) (passes : ℕ) : Eval (Option Addr) :=
  l.searchFrom fd passes l.head

/-- `remove_client_node`. -/
def removeClientNode (l : LList) (node : Option Addr) : Eval (ℕ × LList) := do
  match node with
  | none => pure (1, l)
  | some a =>
    let cur ← l.load a
    let l ← match cur.prev with
      | some p => do
        let before ← l.load p
        pure (l.store p { before with next := cur.next })
      | none => pure { l with head := cur.next }
    let cur ← l.load a
    let l ← match cur.next with
      | some q => do
        let behind ← l.load q
        pure (l.store q { behind with prev := cur.prev })
      | none => pure { l with tail := cur.prev }
    pure (0, l.free a)

/-- `remove_client_fd`. It has the statements of `remove_client_node` once more. -/
def removeClientFd (l : LList) (fd : Fd) (passes : ℕ) : Eval (ℕ × LList) := do
  match ← l.searchClient fd passes with
  | none => pure (1, l)
  | some a =>
    let cur ← l.load a
    let l ← match cur.prev with
      | some p => do
        let before ← l.load p
        pure (l.store p { before with next := cur.next })
      | none => pure { l with head := cur.next }
    let cur ← l.load a
    let l ← match cur.next with
      | some q => do
        let behind ← l.load q
        pure (l.store q { behind with prev := cur.prev })
      | none => pure { l with tail := cur.prev }
    pure (0, l.free a)

/-- The loop of `free_list`, with at most `passes` passes; it returns the descriptors that are
closed, in order. -/
def freeList (l : LList) : ℕ → Eval (List Fd × LList)
  | 0 => if l.head.isNone then .ok ([], l) else .error .passes
  | passes + 1 =>
    match l.head with
    | none => .ok ([], l)
    | some a => do
      let node ← l.load a
      let (closed, l) ← ({ l with head := node.next }.free a).freeList passes
      pure (node.client.fd :: closed, l)

/-- The loop of `free_list` with a log of its calls. -/
def freeListLogged (l : LList) : ℕ → Logged ListCall LList
  | 0 => if l.head.isNone then pure l else silent (.error .passes)
  | passes + 1 =>
    match l.head with
    | none => pure l
    | some a => do
      let node ← silent (l.load a)
      let l := { l with head := node.next }
      event (.close node.client.fd) (pure ())
      let l ← event (.free a) (pure (l.free a))
      l.freeListLogged passes

end LList

/-- The descriptor that a call closes. -/
def ListCall.closed : ListCall → Option Fd
  | .close fd => some fd
  | .free _ => none

/-- The node that a call frees. -/
def ListCall.freed : ListCall → Option Addr
  | .close _ => none
  | .free node => some node

/-! ### Representation -/

/-- The links of a node, as the library of chains has them. -/
def LNode.cell (node : LNode) : Cell Addr Client := ⟨node.client, node.prev, node.next⟩

namespace LList

def cells (l : LList) (a : Addr) : Option (Cell Addr Client) := (l.heap a).map LNode.cell

/-- `l` is the list of the nodes `xs`, and there are no other nodes on the heap. -/
structure Repr (l : LList) (xs : List (Addr × Client)) : Prop where
  head : l.head = headKey xs
  tail : l.tail = lastKey xs
  linked : Linked l.cells xs
  nodup : (xs.map Prod.fst).Nodup
  only : ∀ a, l.heap a ≠ none → a ∈ xs.map Prod.fst

lemma init_repr : init.Repr [] where
  head := rfl
  tail := rfl
  linked := linked_nil _
  nodup := List.nodup_nil
  only := fun _ h => absurd rfl h

@[simp] lemma cells_update (heap : Addr → Option LNode) (hd tl : Option Addr) (a b : Addr)
    (node : Option LNode) :
    (LList.mk hd tl (Function.update heap a node)).cells b
      = if b = a then node.map LNode.cell else (heap b).map LNode.cell := by
  by_cases hb : b = a
  · subst hb
    simp [cells]
  · simp [cells, hb]

/-- The node at the split of a list. -/
lemma Repr.heap_eq {l : LList} {xs u v : List (Addr × Client)} {a : Addr} {c : Client}
    (h : l.Repr xs) (hsplit : xs = u ++ (a, c) :: v) :
    l.heap a = some ⟨c, lastKey u, headKey v⟩ := by
  have hcell := h.linked u a c v hsplit
  obtain ⟨⟨c', p, n⟩, hnode, heq⟩ := Option.map_eq_some_iff.mp hcell
  cases heq
  exact hnode

lemma Repr.heap_isSome {l : LList} {xs : List (Addr × Client)} (h : l.Repr xs) {a : Addr} :
    (l.heap a).isSome ↔ a ∈ xs.map Prod.fst := by
  constructor
  · exact fun ha => h.only a (Option.isSome_iff_ne_none.mp ha)
  · intro ha
    obtain ⟨⟨a, c⟩, hx, rfl⟩ := List.mem_map.mp ha
    obtain ⟨u, v, hsplit⟩ := List.append_of_mem hx
    rw [h.heap_eq hsplit]
    rfl

/-- `insert_client` puts the client at the back. -/
lemma insertClient_repr {l : LList} {xs : List (Addr × Client)} (h : l.Repr xs) (client : Client)
    {a : Addr} (ha : l.heap a = none) :
    ∃ l', l.insertClient client (some a) = .ok (a, l') ∧ l'.Repr (xs ++ [(a, client)]) := by
  have hnew : a ∉ xs.map Prod.fst := by
    rw [← h.heap_isSome, ha]
    exact Bool.false_ne_true
  have hnodup : ((xs ++ [(a, client)]).map Prod.fst).Nodup := by
    rw [List.map_append]
    exact h.nodup.append (List.nodup_singleton a) (by simpa using hnew)
  rcases List.eq_nil_or_concat xs with rfl | ⟨ys, ⟨t, c⟩, rfl⟩
  · -- the list was empty: the node becomes its head and its tail
    have htail : l.tail = none := h.tail
    have hhead : l.head = none := h.head
    refine ⟨⟨some a, some a, Function.update l.heap a (some ⟨client, none, none⟩)⟩, ?_, ?_⟩
    · simp [insertClient, store, htail, hhead]
    · refine ⟨rfl, rfl, ?_, hnodup, ?_⟩
      · refine Linked.append (linked_nil l.cells) List.nodup_nil hnew ?_ ?_ ?_
        · simp [LNode.cell]
        · exact fun t c ht => nomatch ht
        · intro k hk _
          simp [hk, cells]
      · intro b hb
        by_cases hba : b = a
        · simp [hba]
        · exact absurd (h.only b (by simpa [hba] using hb)) List.not_mem_nil
  · rw [List.concat_eq_append] at h hnew hnodup ⊢
    have htail : l.tail = some t := h.tail.trans (lastKey_concat ys (t, c))
    have hlast : l.heap t = some ⟨c, lastKey ys, none⟩ := h.heap_eq rfl
    have hta : t ≠ a := fun hta => by simp [hta] at hnew
    obtain ⟨hd, hhead⟩ : ∃ hd, l.head = some hd := by
      rw [h.head]
      cases ys <;> exact ⟨_, rfl⟩
    refine ⟨⟨l.head, some a, Function.update (Function.update l.heap a
      (some ⟨client, some t, none⟩)) t (some ⟨c, lastKey ys, some a⟩)⟩, ?_, ?_⟩
    · simp [insertClient, store, load, htail, hhead, hta, hlast]
    · refine ⟨?_, ?_, ?_, hnodup, ?_⟩
      · simp only [h.head]
        cases ys <;> rfl
      · rw [lastKey_concat]
      · refine Linked.append h.linked h.nodup hnew ?_ ?_ ?_
        · rw [lastKey_concat, cells_update, if_neg hta.symm]
          simp [LNode.cell]
        · intro t' c' ht' hc'
          rw [lastKey_concat] at ht'
          cases ht'
          rw [cells, hlast] at hc'
          cases hc'
          simp [LNode.cell]
        · intro k hka hkt
          rw [lastKey_concat] at hkt
          have hkt' : k ≠ t := fun heq => hkt (by rw [heq])
          simp [hka, hkt', cells]
      · intro b hb
        by_cases hba : b = a
        · simp [hba]
        · by_cases hbt : b = t
          · simp [hbt]
          · have hold := h.only b (by simpa [hba, hbt] using hb)
            rw [List.map_append]
            exact List.mem_append_left _ hold

/-- `search_client` finds the first node with the descriptor. -/
lemma searchFrom_eq {l : LList} {xs : List (Addr × Client)} (h : l.Repr xs) (fd : Fd)
    {u v : List (Addr × Client)} (hsplit : xs = u ++ v) {passes : ℕ} (hp : v.length ≤ passes) :
    l.searchFrom fd passes (headKey v)
      = .ok ((v.find? fun x => x.2.fd = fd).map Prod.fst) := by
  induction v generalizing u passes with
  | nil => cases passes <;> rfl
  | cons x v ih =>
    obtain ⟨a, c⟩ := x
    cases passes with
    | zero => simp at hp
    | succ passes =>
      have hnode := h.heap_eq hsplit
      simp only [headKey_cons, searchFrom, load, hnode, ok_bind]
      by_cases hfd : c.fd = fd
      · simp [hfd]
      · have hrest := ih (u := u ++ [(a, c)]) (by simpa using hsplit) (by simpa using hp)
        simpa [hfd] using hrest

lemma searchClient_eq {l : LList} {xs : List (Addr × Client)} (h : l.Repr xs) (fd : Fd) :
    l.searchClient fd xs.length = .ok ((xs.find? fun x => x.2.fd = fd).map Prod.fst) := by
  rw [searchClient, h.head]
  exact searchFrom_eq h fd (u := []) rfl le_rfl

lemma lastKey_eq_none {xs : List (Addr × Client)} : lastKey xs = none ↔ xs = [] := by
  simp [lastKey]

/-- A list whose node at `a` was freed and whose neighbours were linked to each other. -/
lemma Repr.of_unlinked {l l' : LList} {u v : List (Addr × Client)} {a : Addr} {c : Client}
    (h : l.Repr (u ++ (a, c) :: v))
    (hhead : l'.head = if lastKey u = none then headKey v else l.head)
    (htail : l'.tail = if headKey v = none then lastKey u else l.tail)
    (hfree : l'.heap a = none)
    (hprev : ∀ p, lastKey u = some p →
      l'.heap p = (l.heap p).map fun node => { node with next := headKey v })
    (hnext : ∀ q, headKey v = some q →
      l'.heap q = (l.heap q).map fun node => { node with prev := lastKey u })
    (hrest : ∀ k, k ≠ a → lastKey u ≠ some k → headKey v ≠ some k → l'.heap k = l.heap k) :
    l'.Repr (u ++ v) := by
  have hcell : ∀ k cell, l.cells k = some cell → ∃ node, l.heap k = some node ∧ node.cell = cell :=
    fun k cell hk => Option.map_eq_some_iff.mp hk
  constructor
  · rw [hhead]
    cases u with
    | nil => simp
    | cons x u =>
      rw [if_neg (by simp [lastKey_eq_none]), h.head]
      rfl
  · rw [htail]
    cases v with
    | nil => simp
    | cons y v =>
      rw [if_neg (by simp), h.tail, lastKey_append_cons, lastKey_append_cons,
        ← List.singleton_append, lastKey_append_cons]
  · refine h.linked.remove h.nodup ?_ ?_ ?_
    · intro p cell hp hcellp
      obtain ⟨node, hnode, rfl⟩ := hcell p cell hcellp
      rw [cells, hprev p hp, hnode]
      rfl
    · intro q cell hq hcellq
      obtain ⟨node, hnode, rfl⟩ := hcell q cell hcellq
      rw [cells, hnext q hq, hnode]
      rfl
    · intro k hka hku hkv
      rw [cells, hrest k hka hku hkv, cells]
  · refine h.nodup.sublist ?_
    rw [List.map_append, List.map_append, List.map_cons]
    exact (List.Sublist.refl _).append (List.sublist_cons_self _ _)
  · intro k hk
    have hka : k ≠ a := fun hka => hk (by rw [hka, hfree])
    have hold : k ∈ (u ++ (a, c) :: v).map Prod.fst := by
      by_cases hku : lastKey u = some k
      · simp [lastKey_mem hku]
      · by_cases hkv : headKey v = some k
        · simp [headKey_mem hkv]
        · exact h.only k (by rwa [hrest k hka hku hkv] at hk)
    simpa [hka] using hold

/-- `remove_client_node` takes the node out. -/
lemma removeClientNode_repr {l : LList} {u v : List (Addr × Client)} {a : Addr} {c : Client}
    (h : l.Repr (u ++ (a, c) :: v)) :
    ∃ l', l.removeClientNode (some a) = .ok (0, l') ∧ l'.Repr (u ++ v) := by
  have hcur : l.heap a = some ⟨c, lastKey u, headKey v⟩ := h.heap_eq rfl
  have hnd := h.nodup
  rw [List.map_append, List.map_cons, List.nodup_append] at hnd
  obtain ⟨-, hndv, hdisj⟩ := hnd
  have hload : ∀ k ∈ (u ++ (a, c) :: v).map Prod.fst, ∃ node, l.heap k = some node :=
    fun k hk => Option.isSome_iff_exists.mp (h.heap_isSome.mpr hk)
  have hpa : ∀ p, lastKey u = some p → p ≠ a := fun p hp =>
    hdisj p (lastKey_mem hp) a List.mem_cons_self
  have hqa : ∀ q, headKey v = some q → q ≠ a := fun q hq hqa =>
    (List.nodup_cons.mp hndv).1 (hqa ▸ headKey_mem hq)
  have hpq : ∀ p q, lastKey u = some p → headKey v = some q → p ≠ q := fun p q hp hq =>
    hdisj p (lastKey_mem hp) q (List.mem_cons_of_mem _ (headKey_mem hq))
  have hloadp : ∀ p, lastKey u = some p → ∃ node, l.heap p = some node := fun p hp =>
    hload p (by simp [lastKey_mem hp])
  have hloadq : ∀ q, headKey v = some q → ∃ node, l.heap q = some node := fun q hq =>
    hload q (by simp [headKey_mem hq])
  cases hu : lastKey u with
  | none =>
    cases hv : headKey v with
    | none =>
      refine ⟨⟨none, none, Function.update l.heap a none⟩, ?_, h.of_unlinked ?_ ?_ ?_ ?_ ?_ ?_⟩
      · simp [removeClientNode, load, free, hcur, hu, hv]
      all_goals simp +contextual [hu, hv]
    | some q =>
      obtain ⟨node, hnode⟩ := hloadq q hv
      have hq := hqa q hv
      refine ⟨⟨some q, l.tail, Function.update (Function.update l.heap q
        (some { node with prev := none })) a none⟩, ?_, h.of_unlinked ?_ ?_ ?_ ?_ ?_ ?_⟩
      · simp [removeClientNode, load, store, free, hcur, hu, hv, hnode]
      all_goals simp +contextual [hu, hv, hq, hnode, eq_comm]
  | some p =>
    obtain ⟨node, hnode⟩ := hloadp p hu
    have hp := hpa p hu
    cases hv : headKey v with
    | none =>
      refine ⟨⟨l.head, some p, Function.update (Function.update l.heap p
        (some { node with next := none })) a none⟩, ?_, h.of_unlinked ?_ ?_ ?_ ?_ ?_ ?_⟩
      · simp [removeClientNode, load, store, free, hcur, hu, hv, hnode, hp.symm]
      all_goals simp +contextual [hu, hv, hp, hnode, eq_comm]
    | some q =>
      obtain ⟨node', hnode'⟩ := hloadq q hv
      have hq := hqa q hv
      have hne := hpq p q hu hv
      refine ⟨⟨l.head, l.tail, Function.update (Function.update (Function.update l.heap p
        (some { node with next := some q })) q (some { node' with prev := some p })) a none⟩,
        ?_, h.of_unlinked ?_ ?_ ?_ ?_ ?_ ?_⟩
      · simp [removeClientNode, load, store, free, hcur, hu, hv, hnode, hnode', hp.symm, hne.symm]
      all_goals simp +contextual [hu, hv, hp, hq, hne, hnode, hnode', eq_comm]

/-- `remove_client_node` on any address: what is left are the nodes at the other addresses. -/
lemma removeClientNode_filter {l l' : LList} {xs : List (Addr × Client)} {a : Addr} {r : ℕ}
    (h : l.Repr xs) (hremove : l.removeClientNode (some a) = .ok (r, l')) :
    l'.Repr (xs.filter fun x => x.1 ≠ a) := by
  have hfound : a ∈ xs.map Prod.fst := by
    rw [← h.heap_isSome]
    cases hheap : l.heap a with
    | none => simp [removeClientNode, load, hheap] at hremove
    | some node => rfl
  obtain ⟨⟨a, c⟩, hx, rfl⟩ := List.mem_map.mp hfound
  obtain ⟨u, v, rfl⟩ := List.append_of_mem hx
  obtain ⟨l'', hl'', hrepr⟩ := removeClientNode_repr h
  rw [hl''] at hremove
  cases hremove
  have hnd := h.nodup
  rw [List.map_append, List.map_cons, List.nodup_append] at hnd
  have hu : u.filter (fun x => x.1 ≠ a) = u := List.filter_eq_self.mpr fun x hx => by
    simpa using hnd.2.2 x.1 (List.mem_map_of_mem hx) a List.mem_cons_self
  have hv : v.filter (fun x => x.1 ≠ a) = v := List.filter_eq_self.mpr fun x hx => by
    have hmem : x.1 ∈ v.map Prod.fst := List.mem_map_of_mem hx
    have hne : x.1 ≠ a := fun heq => (List.nodup_cons.mp hnd.2.1).1 (heq ▸ hmem)
    simpa using hne
  rw [List.filter_append, List.filter_cons, hu, hv]
  simpa using hrepr

/-- The calls for the nodes `xs`. -/
def callsFor (xs : List (Addr × Client)) : List ListCall :=
  xs.flatMap fun x => [.close x.2.fd, .free x.1]

@[simp] lemma closed_callsFor (xs : List (Addr × Client)) :
    (callsFor xs).filterMap ListCall.closed = xs.map fun x => x.2.fd := by
  induction xs with
  | nil => rfl
  | cons x xs ih => exact congrArg (x.2.fd :: ·) ih

@[simp] lemma freed_callsFor (xs : List (Addr × Client)) :
    (callsFor xs).filterMap ListCall.freed = xs.map Prod.fst := by
  induction xs with
  | nil => rfl
  | cons x xs ih => exact congrArg (x.1 :: ·) ih

/-- A pass of `free_list`. -/
lemma freeListLogged_succ {l : LList} {a : Addr} {node : LNode} (hhead : l.head = some a)
    (hnode : l.heap a = some node) (passes : ℕ) :
    l.freeListLogged (passes + 1) = after [.close node.client.fd, .free a]
      (({ l with head := node.next }.free a).freeListLogged passes) := by
  have hload : l.load a = .ok node := by rw [load, hnode]
  rw [freeListLogged, hhead]
  simp only [silent_bind hload, event_bind (pure_eq_ok _), after_after]
  rfl

/-- `free_list` follows the `next` pointers only; the `prev` pointers of the rest of the list
point to freed nodes. -/
lemma freeListLogged_forward {l : LList} {xs : List (Addr × Client)} (hhead : l.head = headKey xs)
    (hnode : ∀ u a c v, xs = u ++ (a, c) :: v → ∃ p, l.heap a = some ⟨c, p, headKey v⟩)
    (hnd : (xs.map Prod.fst).Nodup) (honly : ∀ a, l.heap a ≠ none → a ∈ xs.map Prod.fst) {passes : ℕ}
    (hp : xs.length ≤ passes) :
    ∃ l', (l.freeListLogged passes).Does l' (callsFor xs) ∧ l'.head = none ∧ l'.tail = l.tail ∧
      ∀ a, l'.heap a = none := by
  induction xs generalizing l passes with
  | nil =>
    refine ⟨l, ?_, hhead, rfl, fun a => ?_⟩
    · have hnone : l.head = none := hhead
      cases passes <;> rw [freeListLogged, hnone] <;> exact does_pure l
    · by_contra ha
      exact List.not_mem_nil (honly a ha)
  | cons x xs ih =>
    obtain ⟨a, c⟩ := x
    obtain ⟨passes, rfl⟩ := Nat.exists_eq_add_one_of_ne_zero (Nat.ne_zero_of_lt hp)
    obtain ⟨p, ha⟩ := hnode [] a c xs rfl
    rw [List.map_cons, List.nodup_cons] at hnd
    have hrest : ∀ k ∈ xs.map Prod.fst, k ≠ a := fun k hk hka => hnd.1 (hka ▸ hk)
    obtain ⟨l', hfree, hhead', htail', hheap'⟩ := ih
      (l := { l with head := headKey xs, heap := Function.update l.heap a none }) rfl
      (fun u b d v hsplit => by
        obtain ⟨p, hb⟩ := hnode ((a, c) :: u) b d v (by rw [hsplit]; rfl)
        have hba : b ≠ a := hrest b (by simp [hsplit])
        exact ⟨p, by simpa [hba] using hb⟩)
      hnd.2
      (fun b hb => by
        by_cases hba : b = a
        · simp [hba] at hb
        · simpa [hba] using honly b (by simpa [hba] using hb))
      (Nat.le_of_succ_le_succ hp)
    refine ⟨l', ?_, hhead', htail', hheap'⟩
    rw [freeListLogged_succ hhead ha]
    exact hfree.after _

/-- `free_list` closes the descriptors from the front to the back, frees all nodes and leaves
the tail pointer as it was. -/
lemma freeListLogged_eq {l : LList} {xs : List (Addr × Client)} (h : l.Repr xs) {passes : ℕ}
    (hp : xs.length ≤ passes) :
    ∃ l', (l.freeListLogged passes).Does l' (callsFor xs) ∧ l'.head = none ∧ l'.tail = l.tail ∧
      ∀ a, l'.heap a = none :=
  freeListLogged_forward h.head (fun u _ _ _ hsplit => ⟨lastKey u, h.heap_eq hsplit⟩) h.nodup h.only hp

/-- The log has the descriptors that are closed. -/
lemma freeList_of_does {l l' : LList} {calls : List ListCall} {passes : ℕ}
    (h : (l.freeListLogged passes).Does l' calls) :
    l.freeList passes = .ok (calls.filterMap ListCall.closed, l') := by
  induction passes generalizing l calls with
  | zero =>
    rw [freeListLogged] at h
    rw [freeList]
    split_ifs at h ⊢
    · cases h
      rfl
    · cases h
  | succ passes ih =>
    cases hhead : l.head with
    | none =>
      rw [freeListLogged, hhead] at h
      cases h
      rw [freeList, hhead]
      rfl
    | some a =>
      cases hnode : l.heap a with
      | none =>
        rw [freeListLogged, hhead] at h
        simp only [load, hnode] at h
        cases h
      | some node =>
        rw [freeListLogged_succ hhead hnode] at h
        obtain ⟨calls, hrest, rfl⟩ := does_after_iff.mp h
        rw [freeList, hhead]
        simp only [load, hnode, ok_bind, ih hrest]
        rfl

end LList

/-! ### Lists with their clients -/

/-- A list together with the clients that it represents. `malloc` returns the address `next`,
which no node has or had. -/
structure ClientList where
  list : LList
  nodes : List (Addr × Client)
  next : Addr
  repr : list.Repr nodes
  fresh : ∀ x ∈ nodes, x.1 < next

namespace ClientList

def empty : ClientList := ⟨.init, [], 0, LList.init_repr, fun _ h => absurd h List.not_mem_nil⟩

/-- The node at `a`, if there is one. -/
def find (l : ClientList) (a : Addr) : Option LNode := l.list.heap a

lemma find_isSome {l : ClientList} {a : Addr} :
    (l.find a).isSome ↔ a ∈ l.nodes.map Prod.fst :=
  l.repr.heap_isSome

lemma find_eq {l : ClientList} {a : Addr} {node : LNode} (h : l.find a = some node) :
    (a, node.client) ∈ l.nodes := by
  obtain ⟨⟨a, c⟩, hx, rfl⟩ := List.mem_map.mp (find_isSome.mp (by rw [h]; rfl))
  obtain ⟨u, v, hsplit⟩ := List.append_of_mem hx
  have hnode := l.repr.heap_eq hsplit
  rw [show l.list.heap a = l.find a from rfl, h] at hnode
  cases hnode
  exact hx

lemma find_next (l : ClientList) : l.find l.next = none := by
  by_contra hne
  obtain ⟨x, hx, hxa⟩ :=
    List.mem_map.mp (find_isSome.mp (Option.isSome_iff_ne_none.mpr hne))
  exact absurd (l.fresh x hx) (by rw [hxa]; exact lt_irrefl _)

/-- `insert_client`, where `malloc` succeeds. -/
def insert (l : ClientList) (client : Client) : ClientList :=
  match h : l.list.insertClient client (some l.next) with
  | .ok (_, list) => ⟨list, l.nodes ++ [(l.next, client)], l.next + 1, by
      obtain ⟨l', hl', hrepr⟩ := LList.insertClient_repr l.repr client l.find_next
      rw [hl'] at h
      cases h
      exact hrepr, by
      intro x hx
      rcases List.mem_append.mp hx with hx | hx
      · exact Nat.lt_succ_of_lt (l.fresh x hx)
      · rw [List.mem_singleton.mp hx]
        exact Nat.lt_succ_self _⟩
  | .error _ => l

/-- `search_client`; as many passes as there are nodes are enough. -/
def search (l : ClientList) (fd : Fd) : Option Addr :=
  match l.list.searchClient fd l.nodes.length with
  | .ok a => a
  | .error _ => none

/-- `remove_client_node` on a node of the list. -/
def remove (l : ClientList) (a : Addr) : ClientList :=
  match h : l.list.removeClientNode (some a) with
  | .ok (_, list) => ⟨list, l.nodes.filter fun x => x.1 ≠ a, l.next,
      LList.removeClientNode_filter l.repr h,
      fun x hx => l.fresh x (List.mem_of_mem_filter hx)⟩
  | .error _ => l

/-- `free_list`: the descriptors that it closes and what it leaves behind. -/
def freeList (l : ClientList) : List Fd × LList :=
  match l.list.freeList l.nodes.length with
  | .ok r => r
  | .error _ => ([], l.list)

@[simp] lemma nodes_empty : empty.nodes = [] := rfl

@[simp] lemma nodes_insert (l : ClientList) (client : Client) :
    (l.insert client).nodes = l.nodes ++ [(l.next, client)] := by
  obtain ⟨l', hl', -⟩ := LList.insertClient_repr l.repr client l.find_next
  unfold insert
  split
  · rfl
  · rename_i h
    cases hl'.symm.trans h

/-- A node that is not in the list is not found, and nothing is removed. -/
@[simp] lemma nodes_remove (l : ClientList) (a : Addr) :
    (l.remove a).nodes = l.nodes.filter fun x => x.1 ≠ a := by
  unfold remove
  split
  · rfl
  · rename_i e h
    refine (List.filter_eq_self.mpr fun x hx => ?_).symm
    have hne : x.1 ≠ a := by
      rintro rfl
      obtain ⟨u, v, hsplit⟩ := List.append_of_mem hx
      have hrepr := l.repr
      rw [hsplit] at hrepr
      obtain ⟨l', hl', -⟩ := LList.removeClientNode_repr hrepr
      cases hl'.symm.trans h
    simpa using hne

lemma search_eq (l : ClientList) (fd : Fd) :
    l.search fd = (l.nodes.find? fun x => x.2.fd = fd).map Prod.fst := by
  rw [search, LList.searchClient_eq l.repr]

/-- What `search_client` finds is a node of the list with that descriptor. -/
lemma search_some {l : ClientList} {fd : Fd} {a : Addr} (h : l.search fd = some a) :
    ∃ c, (a, c) ∈ l.nodes ∧ c.fd = fd := by
  rw [search_eq, Option.map_eq_some_iff] at h
  obtain ⟨⟨a, c⟩, hx, rfl⟩ := h
  exact ⟨c, List.mem_of_find?_eq_some hx, by simpa using List.find?_some hx⟩

/-- `search_client` finds a node for the descriptor of each client in the list. -/
lemma search_of_mem {l : ClientList} {a : Addr} {c : Client} (h : (a, c) ∈ l.nodes) :
    ∃ b, l.search c.fd = some b := by
  rw [← Option.isSome_iff_exists, search_eq, Option.isSome_map, List.find?_isSome]
  exact ⟨(a, c), h, decide_eq_true rfl⟩

/-- The descriptors that `free_list` closes. -/
lemma freeList_fst (l : ClientList) : l.freeList.1 = l.nodes.map fun x => x.2.fd := by
  obtain ⟨l', hdoes, -⟩ := LList.freeListLogged_eq l.repr (le_refl _)
  rw [freeList, LList.freeList_of_does hdoes, LList.closed_callsFor]

end ClientList

end Ccybe
