import BstGenerator.Bst.Runs

/-!
# What `remove` leaves alone

`remove` moves nodes, not entries: no key or value is copied from one node to
another, so a `Node *` to any other entry stays valid and keeps naming it. The
pointers that change are those of the slot of the removed node and, when it had two
children, of the slot of its in-order successor and of the successor's own fields
(`remove_identity`). Where the successor is the removed node's right child, its slot
is a field of the removed node and goes with it; nothing in the statements below
depends on which of the two is the case.
-/

namespace BstGenerator.Bst

open Machine Memory Trees
open BinaryTree (nil node)

variable {T V : Type}

/-- The node at `b` comes right after the node at `a` in the listing of the tree. -/
def Successor (s : State T V) (a b : Addr) : Prop :=
  ∃ t pre x y post, TreeAt s s.root t ∧ inorder t = pre ++ x :: y :: post ∧
    x.addr = a ∧ y.addr = b

/-- The links of the nodes other than the one at `a` are the same outside `W`. -/
def SameLinks (s s' : State T V) (a : Addr) (W : List Slot) : Prop :=
  ∀ σ ∉ W, (∀ d, σ ≠ .child d a) → s'.load σ = s.load σ

/-- The two-child case: the node `n` at `a`, in the slot `τ`, is replaced by the node at
`m`, found in the slot `μ`. -/
structure Replaced (s s' : State T V) (τ : Slot) (a : Addr) (n : Node T V) (μ : Slot)
    (m : Addr) : Prop where
  slot : ReachedSlot s μ ∧ s.load μ = .ok m
  successor : Successor s a m
  links : SameLinks s s' a [τ, μ, .child .left m, .child .right m]
  /-- The successor is put in the removed node's place. -/
  moved : s'.load τ = .ok m
  /-- Its left subtree is the former left subtree of the removed node. -/
  left : s'.left m = .ok n.left ∧ ∃ l, TreeAt s n.left l ∧ TreeAt s' n.left l
  /-- Its right subtree is the former right subtree with the successor spliced out: the
  successor's former right subtree `u` fills the successor's former place. -/
  right : ∃ D x u p, x.addr = m ∧ TreeAt s n.right (plug D (node x nil u)) ∧
    s'.right m = .ok p ∧ TreeAt s' p (plug D u)

variable [LinearOrder T] [Inhabited T] [Inhabited V]

omit [LinearOrder T] in
/-- The successor of a node with a right child is the first entry of its right subtree. -/
theorem Represents.successor {s : State T V} {R : Multiset (Addr × Node T V)}
    {C : Context (Entry T V)} {x y : Entry T V} {l r : BinaryTree (Entry T V)}
    (h : Represents s (plug C (node x l r)) R) (hy : (inorder r).head? = some y) :
    Successor s x.addr y.addr := by
  obtain ⟨ys, hys⟩ := List.head?_eq_some_iff.mp hy
  refine ⟨_, before C ++ inorder l, x, y, ys ++ after C, h.treeAt_root, ?_, rfl, rfl⟩
  rw [inorder_plug, inorder_node, hys]
  simp

omit [LinearOrder T] in
/-- The two-child case of `remove`, on the heap. -/
theorem replaced_of_remove_two {s s' : State T V} {R : Multiset (Addr × Node T V)}
    {C D : Context (Entry T V)} {x m : Entry T V} {l u : BinaryTree (Entry T V)}
    (hD : Straight .left D) (h : Represents s (plug C (node x l (plug D (node m nil u)))) R)
    (h' : Represents s' (plug C (node m l (plug D u))) R) (hnull : s'.null = s.null)
    (hunl : Unlinks s s' x.addr [slot C, slot (D ++ ⟨.right, x, l⟩ :: C),
      .child .left m.addr, .child .right m.addr]) :
    Replaced s s' (slot C) x.addr
      (x.toNode (ptr s.null l) (ptr s.null (plug D (node m nil u))))
      (slot (D ++ ⟨.right, x, l⟩ :: C)) m.addr := by
  have hm : Represents s (plug (D ++ ⟨.right, x, l⟩ :: C) (node m nil u)) R := by
    rw [plug_append]
    exact h
  have hl : TreeAt s (ptr s.null l) l :=
    h.treeAt (C := ⟨.left, x, plug D (node m nil u)⟩ :: C) (u := l)
  have hr : TreeAt s (ptr s.null (plug D (node m nil u))) (plug D (node m nil u)) :=
    h.treeAt (C := ⟨.right, x, l⟩ :: C) (u := plug D (node m nil u))
  have hl' : TreeAt s' (ptr s'.null l) l :=
    h'.treeAt (C := ⟨.left, m, plug D u⟩ :: C) (u := l)
  have hr' : TreeAt s' (ptr s'.null (plug D u)) (plug D u) :=
    h'.treeAt (C := ⟨.right, m, l⟩ :: C) (u := plug D u)
  -- the spine down to `m` has no right turns, so `m` is listed first
  have hfirst : (inorder (plug D (node m nil u))).head? = some m := endOf_extreme hD m u
  refine ⟨⟨hm.reachedSlot, hm.load⟩, h.successor hfirst, hunl.load, h'.load,
    ⟨?_, l, hl, hnull ▸ hl'⟩, D, m, u, _, rfl, hr, State.right_eq h'.cell, hr'⟩
  rw [State.left_eq h'.cell, hnull]
  rfl

/-- **`remove` keeps node identity**: in every reachable state and for every key present,
the only node deleted is the one that held the key, every other node keeps its address,
key and value, and the links that change are those listed. -/
theorem remove_identity (ops : List (Op T V)) (s : State T V) (hrun : Run ops s) (a : Addr)
    (n : Node T V) (ha : Reach s s.root a) (hn : s.heap.cells a = some n) :
    ∃ s' τ, Returns (fun fuel => remove fuel n.key s) (true, s') ∧ s'.null = s.null ∧
      ReachedSlot s τ ∧ s.load τ = .ok a ∧
      (∃ ws : List Addr, s'.heap.log = s.heap.log ++ (ws.map .write ++ [.delete a])) ∧
      (∀ b, s'.pairAt b = if b = a then none else s.pairAt b) ∧
      (n.left = s.null ∨ n.right = s.null → SameLinks s s' a [τ]) ∧
      (n.left ≠ s.null → n.right ≠ s.null → ∃ μ m, Replaced s s' τ a n μ m) := by
  obtain ⟨t, hholds⟩ := hrun.holds
  have ho := hholds.ordered
  have h := hholds.represents
  obtain ⟨C, x, l, r, hs, rfl, rfl, rfl⟩ := h.search_reached ho ha hn
  have hleft : ptr s.null l = s.null ↔ l = nil :=
    Represents.ptr_eq_null_iff (C := ⟨.left, x, r⟩ :: C) h
  have hright : ptr s.null r = s.null ↔ r = nil :=
    Represents.ptr_eq_null_iff (C := ⟨.right, x, l⟩ :: C) h
  -- the two cases of the source
  by_cases hone : l = nil ∨ r = nil
  · obtain ⟨s', hret, -, heff, hunl⟩ := remove_one h hs hone
    refine ⟨s', slot C, hret, heff.null, h.reachedSlot, h.load, ⟨_, heff.log⟩, hunl.pair,
      fun _ => hunl.load, fun hl hr => ?_⟩
    exact (hone.elim (fun he => hl (hleft.mpr he)) fun he => hr (hright.mpr he)).elim
  · rw [not_or] at hone
    obtain ⟨D, m, u, rfl, hD⟩ := exists_extreme .left hone.2
    obtain ⟨s', hret, h', heff, hunl⟩ := remove_two hD hone.1 h hs
    refine ⟨s', slot C, hret, heff.null, h.reachedSlot, h.load, ⟨_, heff.log⟩, hunl.pair,
      fun hnull => ?_, fun _ _ => ⟨_, _, replaced_of_remove_two hD h h' heff.null hunl⟩⟩
    exact (hnull.elim (fun he => hone.1 (hleft.mp he)) fun he => hone.2 (hright.mp he)).elim

/-- Three entries, the removed one above the other two. -/
theorem remove_identity_above : ∃ (s : State Nat Nat) (a : Addr) (s' : State Nat Nat) (τ : Slot),
    Run [.insert 2 20, .insert 1 10, .insert 3 30] s ∧
      Returns (fun fuel => remove fuel 2 s) (true, s') ∧ s.load τ = .ok a ∧
      ∀ b, s'.pairAt b = if b = a then none else s.pairAt b := by
  obtain ⟨s, hrun⟩ := exists_run (T := Nat) (V := Nat)
    [.insert 2 20, .insert 1 10, .insert 3 30]
  obtain ⟨a, n, ha, hn, hkey, -⟩ := hrun.exists_node (k := 2) (v := 20) (by decide)
  obtain ⟨s', τ, hret, -, -, hτ, -, hpair, -⟩ := remove_identity _ s hrun a n ha hn
  exact ⟨s, a, s', τ, hrun, hkey ▸ hret, hτ, hpair⟩

end BstGenerator.Bst
