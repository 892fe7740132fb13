import BstGenerator.Bst.Lookup

/-!
# `insert` and `remove`

What the two methods do to a state that represents a tree: they end, and the state
then represents `Trees.insert` (a leaf in the slot the search ended in) or
`Trees.erase` (the two subtrees of the removed node merged in its slot). The rest
`R` of the heap is untouched.

The two-child case of `remove` (test_bst.cpp:85–93) is `remove_two`. Between
`target_node=min` and `delete old` the removed node, its successor and the
successor's right subtree are reachable from two places; `Heap.Is` keeps track of
the cells, which are all distinct, rather than of who points to them. `min` may be
a reference to the removed node's own `right_` (the successor is its right child)
or to a `left_` deeper down: both are the slot `D ++ [⟨.right, x, l⟩]`, `D` being
the spine down to the successor.
-/

namespace BstGenerator.Bst

open Machine Memory Trees
open BinaryTree (nil node)

variable {T V : Type} [LinearOrder T] [Inhabited T] [Inhabited V] {s : State T V}
  {R : Multiset (Addr × Node T V)}

/-! ## `insert` -/

/-- A present key: `insert` returns `null_` and does nothing. -/
theorem insert_present {k : T} (v : V) {C : Context (Entry T V)} {x : Entry T V}
    {l r : BinaryTree (Entry T V)} (h : Represents s (plug C (node x l r)) R)
    (hs : search Entry.key k [] (plug C (node x l r)) = (C, node x l r)) :
    Returns (fun fuel => insert fuel k v s) (s.null, s) := by
  refine Returns.of_lt (plug C (node x l r)).numNodes ?_
  intro fuel hfuel
  have hfind : find fuel k s = .ok (slot C) := find_eq h hs hfuel
  simp [insert, hfind, h.load, h.ne_null_of_plug]

/-- An absent key: `insert` puts a new node in the empty slot the search found. -/
theorem insert_absent {k : T} (v : V) {C : Context (Entry T V)}
    (h : Represents s (plug C nil) R)
    (hs : search Entry.key k [] (plug C nil) = (C, nil)) :
    ∃ s', Returns (fun fuel => insert fuel k v s) (s.heap.next, s') ∧
      Represents s' (plug C (node ⟨s.heap.next, k, v⟩ nil nil)) R ∧
      Effect s s' (.new s.heap.next :: (slot C).cells.map .write) := by
  -- the slot holds the sentinel, and the new node is a cell beside those of the tree
  have hown := Represents.plug_iff.mp h
  let leaf : Node T V := ⟨s.null, s.null, k, v⟩
  have hnew : Owns (s.new leaf).2 C s.null
      ({(s.heap.next, leaf)} + ({(s.null, sentinel s.null)} + R)) := by
    refine ⟨hown.root, (hown.heap.new leaf).congr ?_⟩
    show {(s.heap.next, leaf)} + (ctxLayout s.null C s.null + (0 + _)) =
      ctxLayout s.null C s.null + _
    abel
  obtain ⟨s', hstore, hown', heff⟩ := hnew.store s.heap.next
  have hnull : s'.null = s.null := heff.null
  refine ⟨s', Returns.of_lt (plug C nil).numNodes fun fuel hfuel => ?_,
    Represents.plug_iff.mpr ?_, hnull, ?_⟩
  · have hfind : find fuel k s = .ok (slot C) := find_eq h hs hfuel
    have hpair : s.new leaf = (s.heap.next, (s.new leaf).2) := rfl
    simp only [insert, hfind, ok_bind, h.load, ptr_nil, ne_eq, not_true_eq_false, if_false]
    rw [hpair]
    simp only [hstore, hown'.load, ok_bind, pure_eq_ok]
  · have hleaf : layout s.null (node ⟨s.heap.next, k, v⟩ nil nil) = {(s.heap.next, leaf)} := by
      rw [layout_node, layout_nil, add_zero, add_zero]
      rfl
    rw [hnull, hleaf]
    exact hown'
  · rw [heff.log]
    simp [State.new]

/-! ## `remove` -/

/-- An absent key: `remove` returns `false` and does nothing. -/
theorem remove_absent {k : T} {C : Context (Entry T V)} (h : Represents s (plug C nil) R)
    (hs : search Entry.key k [] (plug C nil) = (C, nil)) :
    Returns (fun fuel => remove fuel k s) (false, s) := by
  refine Returns.of_lt (plug C nil).numNodes ?_
  intro fuel hfuel
  have hfind : find fuel k s = .ok (slot C) := find_eq h hs hfuel
  have hload : s.load (slot C) = .ok s.null := h.load
  rw [remove, hfind, ok_bind, hload, ok_bind, if_pos rfl, pure_eq_ok]

/-- What `remove` does with the node it has found. -/
theorem remove_found {k : T} {C : Context (Entry T V)} {x : Entry T V}
    {l r : BinaryTree (Entry T V)} (h : Represents s (plug C (node x l r)) R)
    (hs : search Entry.key k [] (plug C (node x l r)) = (C, node x l r)) {fuel : Nat}
    (hfuel : (plug C (node x l r)).numNodes < fuel) :
    remove fuel k s =
      if ptr s.null l ≠ s.null ∧ ptr s.null r ≠ s.null then do
        let min ← findMin fuel (.child .right x.addr) s
        let s ← s.store (slot C) (← s.load min)
        let s ← s.store min (← s.right (← s.load min))
        let s ← s.store (.child .left (← s.load (slot C))) (← s.left x.addr)
        let s ← s.store (.child .right (← s.load (slot C))) (← s.right x.addr)
        let s ← s.delete x.addr
        return (true, s)
      else do
        let s ← s.store (slot C) (if ptr s.null l = s.null then ptr s.null r else ptr s.null l)
        let s ← s.delete x.addr
        return (true, s) := by
  have hfind : find fuel k s = .ok (slot C) := find_eq h hs hfuel
  have hload : s.load (slot C) = .ok x.addr := h.load
  have hl : s.left x.addr = .ok (ptr s.null l) := State.left_eq h.cell
  have hr : s.right x.addr = .ok (ptr s.null r) := State.right_eq h.cell
  rw [remove, hfind, ok_bind, hload, ok_bind, if_neg h.ne_null_of_plug, ok_bind, hl, ok_bind,
    ok_bind, hr, ok_bind]
  by_cases htwo : ptr s.null l ≠ s.null ∧ ptr s.null r ≠ s.null
  · rw [if_pos htwo, if_pos htwo]
    rfl
  · -- `target_node` gets the right child where there is no left one, else the left child
    rw [if_neg htwo, if_neg htwo, ok_bind, ok_bind, hl, ok_bind]
    by_cases hleft : ptr s.null l = s.null
    · rw [if_pos hleft, if_pos hleft, ok_bind, hr, ok_bind]
    · rw [if_neg hleft, if_neg hleft, ok_bind, hl, ok_bind]

omit [LinearOrder T] in
/-- Unlinking a node: its slot gets the pointer to the subtree `u` that holds what
was below the node, and the node is deleted. -/
theorem unlink {C : Context (Entry T V)} {x : Entry T V} {l r u : BinaryTree (Entry T V)}
    (h : Represents s (plug C (node x l r)) R)
    (hu : layout s.null u = layout s.null l + layout s.null r) :
    ∃ s₁ s₂, s.store (slot C) (ptr s.null u) = .ok s₁ ∧ s₁.delete x.addr = .ok s₂ ∧
      Represents s₂ (plug C u) R ∧
      Effect s s₂ ((slot C).cells.map .write ++ [.delete x.addr]) := by
  have hown : Owns s C x.addr ({(x.addr, x.toNode (ptr s.null l) (ptr s.null r))} +
      (layout s.null u + ({(s.null, sentinel s.null)} + R))) := by
    refine (Represents.plug_iff.mp h).congr ?_
    rw [layout_node, hu, add_assoc]
  obtain ⟨s₁, hstore, hown₁, heff₁⟩ := hown.store (ptr s.null u)
  obtain ⟨s₂, hdel, hown₂, heff₂⟩ := hown₁.delete_node
  have heff := heff₁.trans heff₂
  refine ⟨s₁, s₂, hstore, hdel, Represents.plug_iff.mpr ?_, heff⟩
  rw [heff.null]
  exact hown₂

/-- A node with at most one child: the child takes its place. -/
theorem remove_one {k : T} {C : Context (Entry T V)} {x : Entry T V}
    {l r : BinaryTree (Entry T V)} (h : Represents s (plug C (node x l r)) R)
    (hs : search Entry.key k [] (plug C (node x l r)) = (C, node x l r))
    (hone : l = nil ∨ r = nil) :
    ∃ s', Returns (fun fuel => remove fuel k s) (true, s') ∧
      Represents s' (plug C (merge l r)) R ∧
      Effect s s' ((slot C).cells.map .write ++ [.delete x.addr]) ∧
      Unlinks s s' x.addr [slot C] := by
  have hlnull : ptr s.null l = s.null ↔ l = nil :=
    Represents.ptr_eq_null_iff (C := ⟨.left, x, r⟩ :: C) h
  have hrnull : ptr s.null r = s.null ↔ r = nil :=
    Represents.ptr_eq_null_iff (C := ⟨.right, x, l⟩ :: C) h
  have hmerge : layout s.null (merge l r) = layout s.null l + layout s.null r := by
    rcases hone with rfl | rfl
    · rw [merge_nil_left, layout_nil, zero_add]
    · rw [merge_nil_right, layout_nil, add_zero]
  have hchild : (if ptr s.null l = s.null then ptr s.null r else ptr s.null l) =
      ptr s.null (merge l r) := by
    by_cases hl : l = nil
    · rw [if_pos (hlnull.mpr hl), hl, merge_nil_left]
    · rw [if_neg (mt hlnull.mp hl), hone.resolve_left hl, merge_nil_right]
  obtain ⟨s₁, s₂, hstore, hdel, hrep, heff⟩ := unlink h hmerge
  refine ⟨s₂, Returns.of_lt (plug C (node x l r)).numNodes ?_, hrep, heff,
    (State.store_rewires hstore).unlinks hdel⟩
  intro fuel hfuel
  have htwo : ¬ (ptr s.null l ≠ s.null ∧ ptr s.null r ≠ s.null) := by
    rw [ne_eq, ne_eq, hlnull, hrnull]
    exact fun hne => hone.elim hne.1 hne.2
  show remove fuel k s = _
  rw [remove_found h hs hfuel, if_neg htwo, hchild, hstore, ok_bind, hdel, ok_bind, pure_eq_ok]

omit [LinearOrder T] [Inhabited T] [Inhabited V] in
/-- The slot of the successor lies in a node, so it is not `root_`. -/
theorem slot_successor (C D : Context (Entry T V)) (x : Entry T V)
    (l : BinaryTree (Entry T V)) :
    ∃ f F, D ++ [⟨.right, x, l⟩] = f :: F ∧ slot (D ++ ⟨.right, x, l⟩ :: C) = slot (f :: F) := by
  cases D with
  | nil => exact ⟨_, _, rfl, rfl⟩
  | cons f D => exact ⟨_, _, rfl, rfl⟩

omit [LinearOrder T] [Inhabited T] [Inhabited V] in
/-- The cells from a node down to its successor: the spine, the node, and its left
subtree. -/
theorem ctxLayout_successor (null : Addr) (D : Context (Entry T V)) (x : Entry T V)
    (l : BinaryTree (Entry T V)) (p : Addr) :
    ctxLayout null (D ++ [⟨.right, x, l⟩]) p =
      ctxLayout null D p + ({(x.addr, x.toNode (ptr null l) (ctxPtr D p))} + layout null l) := by
  rw [ctxLayout_append]
  simp only [ctxLayout, frameNode, add_zero]

omit [LinearOrder T] in
/-- Putting the successor in the removed node's place: the four assignments and the
`delete` of the two-child case. -/
theorem replace_by_successor {C D : Context (Entry T V)} {x m : Entry T V}
    {l u : BinaryTree (Entry T V)}
    (h : Represents s (plug C (node x l (plug D (node m nil u)))) R) {min : Slot}
    (hmin : min = slot (D ++ ⟨.right, x, l⟩ :: C)) :
    ∃ s', (do
        let s ← s.store (slot C) (← s.load min)
        let s ← s.store min (← s.right (← s.load min))
        let s ← s.store (.child .left (← s.load (slot C))) (← s.left x.addr)
        let s ← s.store (.child .right (← s.load (slot C))) (← s.right x.addr)
        let s ← s.delete x.addr
        return (true, s) : Except Fault (Bool × State T V)) = .ok (true, s') ∧
      Represents s' (plug C (node m l (plug D u))) R ∧
      Effect s s' (((slot C).cells ++ min.cells ++ [m.addr, m.addr]).map .write ++
        [.delete x.addr]) ∧
      Unlinks s s' x.addr [slot C, min, .child .left m.addr, .child .right m.addr] := by
  obtain ⟨f, F, hF, hslot⟩ := slot_successor C D x l
  obtain rfl : min = slot (f :: F) := hmin.trans hslot
  have hD (p : Addr) : ctxLayout s.null (f :: F) p =
      ctxLayout s.null D p + ({(x.addr, x.toNode (ptr s.null l) (ctxPtr D p))} +
        layout s.null l) :=
    hF ▸ ctxLayout_successor s.null D x l p
  -- the old node and the spine down to the successor, the successor, and the rest
  let rest := layout s.null u + ({(s.null, sentinel s.null)} + R)
  have hown : Owns s C x.addr (ctxLayout s.null (f :: F) m.addr +
      ({(m.addr, m.toNode s.null (ptr s.null u))} + rest)) := by
    refine (Represents.plug_iff.mp h).congr ?_
    rw [hD, layout_node, layout_plug, ptr_plug, layout_node]
    simp only [ptr_node, ptr_nil, layout_nil, zero_add, rest]
    abel
  -- `target_node=min`
  obtain ⟨s₁, e₁, o₁, f₁⟩ := hown.store m.addr
  -- `min=min->right_`
  obtain ⟨s₂, e₂, o₂, f₂⟩ := o₁.store_slot (ptr s.null u)
  have hright₁ : s₁.right m.addr = .ok (ptr s.null u) :=
    State.right_eq (o₁.read (n := m.toNode s.null (ptr s.null u)) (by simp))
  -- `target_node->left_=old->left_`
  obtain ⟨s₃, e₃, o₃, f₃⟩ :=
    (o₂.congr (add_left_comm ..)).store_node .left (ptr s.null l)
  have hleft₂ : s₂.left x.addr = .ok (ptr s.null l) :=
    State.left_eq (o₂.read (n := x.toNode (ptr s.null l) (ctxPtr D (ptr s.null u)))
      (by simp [hD]))
  -- `target_node->right_=old->right_`
  obtain ⟨s₄, e₄, o₄, f₄⟩ := o₃.store_node .right (ctxPtr D (ptr s.null u))
  have hright₃ : s₃.right x.addr = .ok (ctxPtr D (ptr s.null u)) :=
    State.right_eq (o₃.read (n := x.toNode (ptr s.null l) (ctxPtr D (ptr s.null u)))
      (by simp [hD]))
  -- `delete old`
  have hold : Owns s₄ C m.addr ({(x.addr, x.toNode (ptr s.null l) (ctxPtr D (ptr s.null u)))} +
      (layout s.null (node m l (plug D u)) + ({(s.null, sentinel s.null)} + R))) := by
    refine o₄.congr ?_
    rw [hD, layout_node, layout_plug, ptr_plug]
    simp only [Entry.toNode, Node.setChild, rest]
    ac_rfl
  obtain ⟨s₅, e₅, o₅, f₅⟩ := hold.delete_node
  have heff := f₁.trans (f₂.trans (f₃.trans (f₄.trans f₅)))
  have hrew := (((State.store_rewires e₁).trans (State.store_rewires e₂)).trans
    (State.store_rewires e₃)).trans (State.store_rewires e₄)
  refine ⟨s₅, ?_, Represents.plug_iff.mpr ?_, ⟨heff.null, ?_⟩, hrew.unlinks e₅⟩
  · rw [hown.load_slot, ok_bind, e₁, ok_bind, o₁.load_slot, ok_bind, hright₁, ok_bind, e₂,
      ok_bind, o₂.load, ok_bind, hleft₂, ok_bind, e₃, ok_bind, o₃.load, ok_bind, hright₃,
      ok_bind, e₄, ok_bind, e₅, ok_bind, pure_eq_ok]
  · rw [heff.null]
    exact o₅
  · rw [heff.log]
    simp

/-- A node with two children: its in-order successor takes its place. -/
theorem remove_two {k : T} {C D : Context (Entry T V)} {x m : Entry T V}
    {l u : BinaryTree (Entry T V)} (hD : Straight .left D) (hl : l ≠ nil)
    (h : Represents s (plug C (node x l (plug D (node m nil u)))) R)
    (hs : search Entry.key k [] (plug C (node x l (plug D (node m nil u)))) =
      (C, node x l (plug D (node m nil u)))) :
    ∃ s', Returns (fun fuel => remove fuel k s) (true, s') ∧
      Represents s' (plug C (node m l (plug D u))) R ∧
      Effect s s' (((slot C).cells ++ (slot (D ++ ⟨.right, x, l⟩ :: C)).cells ++
        [m.addr, m.addr]).map .write ++ [.delete x.addr]) ∧
      Unlinks s s' x.addr [slot C, slot (D ++ ⟨.right, x, l⟩ :: C), .child .left m.addr,
        .child .right m.addr] := by
  have hrne : plug D (node m nil u) ≠ nil := plug_ne_nil D fun he => nomatch he
  have hlne : ptr s.null l ≠ s.null := fun hptr =>
    hl ((Represents.ptr_eq_null_iff (C := ⟨.left, x, plug D (node m nil u)⟩ :: C) h).mp hptr)
  have hrne' : ptr s.null (plug D (node m nil u)) ≠ s.null := fun hptr =>
    hrne ((Represents.ptr_eq_null_iff (C := ⟨.right, x, l⟩ :: C) h).mp hptr)
  obtain ⟨s', hrun, hrep, heff, hunl⟩ := replace_by_successor h rfl
  refine ⟨s', Returns.of_lt (plug C (node x l (plug D (node m nil u)))).numNodes ?_, hrep,
    heff, hunl⟩
  intro fuel hfuel
  have hmin : findMin fuel (.child .right x.addr) s =
      .ok (slot (D ++ ⟨.right, x, l⟩ :: C)) := by
    refine findExtreme_eq (C := ⟨.right, x, l⟩ :: C) (m := m) (u := u) hD h ?_
    have hlen := length_lt_numNodes D (t := node m nil u) fun he => nomatch he
    have hnum := numNodes_plug (⟨.right, x, l⟩ :: C) (plug D (node m nil u))
    have heq : plug (⟨.right, x, l⟩ :: C) (plug D (node m nil u)) =
        plug C (node x l (plug D (node m nil u))) := rfl
    rw [heq] at hnum
    omega
  show remove fuel k s = _
  rw [remove_found h hs hfuel, if_pos ⟨hlne, hrne'⟩, hmin]
  exact hrun

/-- **A present key**: `remove` unlinks and deletes its node, and the node's
subtrees are merged in its slot. -/
theorem remove_present {k : T} {C : Context (Entry T V)} {x : Entry T V}
    {l r : BinaryTree (Entry T V)} (h : Represents s (plug C (node x l r)) R)
    (hs : search Entry.key k [] (plug C (node x l r)) = (C, node x l r)) :
    ∃ s', ∃ ws : List Addr, Returns (fun fuel => remove fuel k s) (true, s') ∧
      Represents s' (plug C (merge l r)) R ∧
      Effect s s' (ws.map .write ++ [.delete x.addr]) ∧ s.null ∉ ws := by
  by_cases hone : l = nil ∨ r = nil
  · obtain ⟨s', hrem, hrep, heff, -⟩ := remove_one h hs hone
    exact ⟨s', _, hrem, hrep, heff, h.null_not_mem_cells⟩
  · rw [not_or] at hone
    obtain ⟨D, m, u, rfl, hD⟩ := exists_extreme .left hone.2
    have hm : m.addr ≠ s.null := h.ne_null (by simp [inorder_plug, Frame.fill])
    have hmin : Represents s (plug (D ++ ⟨.right, x, l⟩ :: C) (node m nil u)) R := by
      rw [plug_append]
      exact h
    obtain ⟨s', hrem, hrep, heff, -⟩ := remove_two hD hone.1 h hs
    refine ⟨s', _, hrem, ?_, heff, ?_⟩
    · obtain ⟨y, a, b, rfl⟩ : ∃ y a b, l = node y a b := by
        cases l with
        | nil => exact absurd rfl hone.1
        | node y a b => exact ⟨y, a, b, rfl⟩
      exact (merge_plug hD) ▸ hrep
    · simp only [List.mem_append, h.null_not_mem_cells, hmin.null_not_mem_cells, List.mem_cons,
        List.not_mem_nil, hm.symm, or_self, not_false_eq_true]

/-! ## The methods on ordered trees -/

/-- **`insert`** on an ordered tree. -/
theorem insert_spec {t : BinaryTree (Entry T V)} (h : Represents s t R)
    (ho : Ordered Entry.key t) (k : T) (v : V) :
    (∃ x ∈ inorder t, x.key = k ∧
        Returns (fun fuel => insert fuel k v s) (s.null, s)) ∨
      ((∀ x ∈ inorder t, x.key ≠ k) ∧ ∃ s', ∃ ws : List Addr,
        Returns (fun fuel => insert fuel k v s) (s.heap.next, s') ∧
        Represents s' (Trees.insert Entry.key ⟨s.heap.next, k, v⟩ t) R ∧
        Effect s s' (.new s.heap.next :: ws.map .write) ∧ s.null ∉ ws) := by
  rcases search_spec ho k with ⟨C, hs, rfl, -, hnone⟩ | ⟨C, x, l, r, hs, rfl, hx⟩
  · obtain ⟨s', hins, hrep, heff⟩ := insert_absent v h hs
    refine Or.inr ⟨hnone, s', _, hins, ?_, heff, h.null_not_mem_cells⟩
    simp only [Trees.insert, hs]
    exact hrep
  · exact Or.inl ⟨x, by simp [inorder_plug], hx, insert_present v h hs⟩

/-- **`remove`** on an ordered tree. -/
theorem remove_spec {t : BinaryTree (Entry T V)} (h : Represents s t R)
    (ho : Ordered Entry.key t) (k : T) :
    ((∀ x ∈ inorder t, x.key ≠ k) ∧ Returns (fun fuel => remove fuel k s) (false, s)) ∨
      (∃ x ∈ inorder t, x.key = k ∧ ∃ s', ∃ ws : List Addr,
        Returns (fun fuel => remove fuel k s) (true, s') ∧
        Represents s' (Trees.erase Entry.key k t) R ∧
        Effect s s' (ws.map .write ++ [.delete x.addr]) ∧ s.null ∉ ws) := by
  rcases search_spec ho k with ⟨C, hs, rfl, -, hnone⟩ | ⟨C, x, l, r, hs, rfl, hx⟩
  · exact Or.inl ⟨hnone, remove_absent h hs⟩
  · obtain ⟨s', ws, hrem, hrep, heff, hws⟩ := remove_present h hs
    refine Or.inr ⟨x, by simp [inorder_plug], hx, s', ws, hrem, ?_, heff, hws⟩
    simp only [Trees.erase, hs]
    exact hrep

end BstGenerator.Bst
