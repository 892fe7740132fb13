import Mathlib.Data.Set.Finite.List
import BstGenerator.Bst.Update

/-!
# Following pointers

What the heap alone says about the tree in it, with no reference to how the rest
of the heap is laid out:

- `TreeAt s p t`: following the child pointers from `p` and stopping at `null_`
  spells out the tree `t`. A pointer spells out one tree at most.
- `Reach s p a`: the node at `a` is reached from the pointer `p`. On a state that
  represents a tree, what is reached from the pointer to a subtree are the
  addresses of that subtree (`Represents.reach_iff`).
- `SentinelTree s t`: the object of `s` is the tree `t` in the representation of the
  class, ordered or not.
- `RepInvariant`: the representation invariant of the class in those terms. Every
  ordered tree satisfies it (`repInvariant`).
-/

namespace BstGenerator.Bst

open Machine Memory Trees
open BinaryTree (nil node)

variable {T V : Type}

/-- The pointer `p` spells out the tree `t`. -/
def TreeAt (s : State T V) : Addr → BinaryTree (Entry T V) → Prop
  | p, .nil => p = s.null
  | p, .node x l r => p = x.addr ∧ p ≠ s.null ∧ ∃ n, s.heap.cells p = some n ∧
      n.key = x.key ∧ n.value = x.value ∧ TreeAt s n.left l ∧ TreeAt s n.right r

/-- The bindings from left to right of the tree a pointer spells out. -/
def Listing (s : State T V) (p : Addr) (bs : List (T × V)) : Prop :=
  ∃ t, TreeAt s p t ∧ bs = (inorder t).map Entry.pair

/-- The node at the second address is reached from the pointer. -/
inductive Reach (s : State T V) (p : Addr) : Addr → Prop
  | here : p ≠ s.null → Reach s p p
  | child {a : Addr} {n : Node T V} (d : Dir) : Reach s p a → s.heap.cells a = some n →
      n.child d ≠ s.null → Reach s p (n.child d)

/-- The node at the second address lies so many links below the pointer. -/
inductive AtDepth (s : State T V) (p : Addr) : Addr → Nat → Prop
  | here : p ≠ s.null → AtDepth s p p 0
  | child {a : Addr} {n : Node T V} {i : Nat} (d : Dir) : AtDepth s p a i →
      s.heap.cells a = some n → n.child d ≠ s.null → AtDepth s p (n.child d) (i + 1)

theorem reach_iff_depth {s : State T V} {p a : Addr} : Reach s p a ↔ ∃ i, AtDepth s p a i := by
  constructor
  · intro h
    induction h with
    | here hne => exact ⟨0, .here hne⟩
    | child d _ hn hne ih =>
      obtain ⟨i, hi⟩ := ih
      exact ⟨i + 1, .child d hi hn hne⟩
  · rintro ⟨i, h⟩
    induction h with
    | here hne => exact .here hne
    | child d _ hn hne ih => exact .child d ih hn hne

/-- The slots passed on the way: `root_` and the fields of the nodes reached. -/
inductive ReachedSlot (s : State T V) : Slot → Prop
  | root : ReachedSlot s .root
  | child {a : Addr} (d : Dir) : Reach s s.root a → ReachedSlot s (.child d a)

/-- No node of the object has the key. -/
def Lacks (s : State T V) (k : T) : Prop :=
  ∀ a n, Reach s s.root a → s.heap.cells a = some n → n.key ≠ k

/-- The representation invariant of `BST`. -/
structure RepInvariant [LinearOrder T] [Inhabited T] [Inhabited V] (s : State T V) : Prop where
  /-- Finitely many nodes are reached. -/
  finite : {a | Reach s s.root a}.Finite
  /-- A node is reached through exactly one slot: nothing is shared. -/
  one_slot : ∀ p, Reach s s.root p → ∃! σ, ReachedSlot s σ ∧ s.load σ = .ok p
  /-- No node is reached from below itself. -/
  acyclic : ∀ a n d, Reach s s.root a → s.heap.cells a = some n → ¬ Reach s (n.child d) a
  /-- Reached nodes are allocated and have not been deleted. -/
  allocated : ∀ a, Reach s s.root a → (s.heap.cells a).isSome ∧ .delete a ∉ s.heap.log
  smaller : ∀ a n b m, Reach s s.root a → s.heap.cells a = some n → Reach s n.left b →
    s.heap.cells b = some m → m.key < n.key
  greater : ∀ a n b m, Reach s s.root a → s.heap.cells a = some n → Reach s n.right b →
    s.heap.cells b = some m → n.key < m.key
  /-- Every slot reached holds `null_` or a node, never `nullptr`. -/
  slots : ∀ σ, ReachedSlot s σ → ∃ p, s.load σ = .ok p ∧ p ≠ nullptr ∧
    (p = s.null ∨ Reach s s.root p)
  /-- The sentinel is its own left and right child. -/
  sentinel : s.heap.cells s.null = some (sentinel s.null)

/-- A finite binary tree in the representation of the class: `root_` spells it out,
its nodes are distinct, and missing children are the sentinel. -/
structure SentinelTree [Inhabited T] [Inhabited V] (s : State T V)
    (t : BinaryTree (Entry T V)) : Prop where
  root : TreeAt s s.root t
  distinct : (addrs t).Nodup
  sentinel : s.heap.cells s.null = some (sentinel s.null)

/-- Nodes of a tree spelled out from a pointer are not the sentinel. -/
theorem TreeAt.ne_null {s : State T V} {t : BinaryTree (Entry T V)} {p : Addr} (ht : TreeAt s p t)
    {x : Entry T V} (hx : x ∈ inorder t) : x.addr ≠ s.null := by
  induction t generalizing p with
  | nil => cases hx
  | node y l r ihl ihr =>
    obtain ⟨rfl, hne, n, -, -, -, hl, hr⟩ := ht
    rcases List.mem_append.mp hx with hx | hx
    · exact ihl hl hx
    · rcases List.mem_cons.mp hx with rfl | hx
      · exact hne
      · exact ihr hr hx

/-- A pointer spells out at most one tree. -/
theorem TreeAt.unique {s : State T V} {p : Addr} {t u : BinaryTree (Entry T V)}
    (ht : TreeAt s p t) (hu : TreeAt s p u) : t = u := by
  induction t generalizing p u with
  | nil =>
    cases u with
    | nil => rfl
    | node y c d => exact absurd ht hu.2.1
  | node x a b iha ihb =>
    obtain ⟨hx, hne, n, hn, hkey, hval, ha, hb⟩ := ht
    cases u with
    | nil => exact absurd hu hne
    | node y c d =>
      obtain ⟨hy, -, m, hm, hkey', hval', hc, hd⟩ := hu
      obtain rfl : n = m := Option.some.inj (hn.symm.trans hm)
      obtain ⟨ax, kx, vx⟩ := x
      obtain ⟨ay, ky, vy⟩ := y
      cases hx
      cases hy
      cases hkey
      cases hkey'
      cases hval
      cases hval'
      rw [iha ha hc, ihb hb hd]

namespace Represents

variable [Inhabited T] [Inhabited V] {s : State T V} {t : BinaryTree (Entry T V)}
  {R : Multiset (Addr × Node T V)}

/-- The cell of an entry is live. -/
theorem cell_of_mem (h : Represents s t R) {x : Entry T V} (hx : x ∈ inorder t) :
    ∃ l r, s.heap.cells x.addr = some (x.toNode l r) := by
  obtain ⟨C, l, r, rfl⟩ := exists_plug_of_mem hx
  exact ⟨_, _, h.cell⟩

/-- Two entries at one address are the same. -/
theorem eq_of_addr_eq (h : Represents s t R) {x y : Entry T V} (hx : x ∈ inorder t)
    (hy : y ∈ inorder t) (heq : x.addr = y.addr) : x = y :=
  List.inj_on_of_nodup_map (List.nodup_cons.mp h.nodup).2 hx hy heq

/-- The pointer to a subtree spells it out. -/
theorem treeAt {C : Context (Entry T V)} {u : BinaryTree (Entry T V)}
    (h : Represents s (plug C u) R) : TreeAt s (ptr s.null u) u := by
  induction u generalizing C with
  | nil => rfl
  | node x l r ihl ihr =>
    exact ⟨rfl, h.ne_null_of_plug, _, h.cell, rfl, rfl, ihl (C := ⟨.left, x, r⟩ :: C) h,
      ihr (C := ⟨.right, x, l⟩ :: C) h⟩

theorem treeAt_root (h : Represents s t R) : TreeAt s s.root t := by
  rw [h.root]
  exact treeAt (C := []) h

theorem sentinelTree (h : Represents s t R) : SentinelTree s t where
  root := h.treeAt_root
  distinct := (List.nodup_cons.mp h.nodup).2
  sentinel := h.sentinel_cell

/-- The node that holds a slot points to the subtree in it. -/
theorem frame_cell {f : Frame (Entry T V)} {C : Context (Entry T V)}
    (h : Represents s (plug (f :: C) t) R) :
    ∃ n, s.heap.cells f.label.addr = some n ∧ n.child f.dir = ptr s.null t := by
  refine ⟨frameNode s.null f (ptr s.null t), ?_, frameNode_child ..⟩
  exact ((plug_iff.mp h).heap.cells_iff _ _).mpr (by simp [ctxLayout])

/-- A subtree lies below every subtree around it by the frames in between. -/
theorem depth_ptr {C D : Context (Entry T V)} {u : BinaryTree (Entry T V)} (hu : u ≠ nil)
    (h : Represents s (plug C (plug D u)) R) :
    AtDepth s (ptr s.null (plug D u)) (ptr s.null u) D.length := by
  induction D generalizing u with
  | nil => exact .here (mt h.ptr_eq_null_iff.mp hu)
  | cons f D ih =>
    have hup : AtDepth s (ptr s.null (plug D (f.fill u))) f.label.addr D.length :=
      ptr_fill s.null f u ▸ ih (f.fill_ne_nil u) h
    have hslot : Represents s (plug (f :: (D ++ C)) u) R := by
      rw [plug_cons, plug_append]
      exact h
    obtain ⟨n, hn, hchild⟩ := hslot.frame_cell
    have hne : n.child f.dir ≠ s.null := hchild ▸ mt hslot.ptr_eq_null_iff.mp hu
    exact hchild ▸ .child f.dir hup hn hne

theorem reach_ptr {C D : Context (Entry T V)} {u : BinaryTree (Entry T V)} (hu : u ≠ nil)
    (h : Represents s (plug C (plug D u)) R) :
    Reach s (ptr s.null (plug D u)) (ptr s.null u) :=
  reach_iff_depth.mpr ⟨D.length, depth_ptr hu h⟩

/-- What lies below a subtree is the root of a subtree of it, at the depth of its slot. -/
theorem exists_of_depth {C : Context (Entry T V)} {u : BinaryTree (Entry T V)}
    (h : Represents s (plug C u) R) {a : Addr} {i : Nat} (ha : AtDepth s (ptr s.null u) a i) :
    ∃ (D : Context (Entry T V)) (x : Entry T V) (l r : BinaryTree (Entry T V)),
      u = plug D (node x l r) ∧ a = x.addr ∧ i = D.length := by
  induction ha with
  | here hne =>
    cases u with
    | nil => exact absurd rfl hne
    | node x l r => exact ⟨[], x, l, r, rfl, rfl, rfl⟩
  | @child a n i d _ hn hne ih =>
    -- `a` is the root of a subtree, so the child reached from it is the root of one of its two
    obtain ⟨D, x, l, r, rfl, rfl, rfl⟩ := ih
    rw [← plug_append] at h
    obtain rfl : n = x.toNode (ptr s.null l) (ptr s.null r) :=
      Option.some.inj (hn.symm.trans h.cell)
    cases d with
    | left =>
      cases l with
      | nil => exact absurd rfl hne
      | node y a b => exact ⟨⟨.left, x, r⟩ :: D, y, a, b, rfl, rfl, rfl⟩
    | right =>
      cases r with
      | nil => exact absurd rfl hne
      | node y a b => exact ⟨⟨.right, x, l⟩ :: D, y, a, b, rfl, rfl, rfl⟩

theorem exists_of_reach {C : Context (Entry T V)} {u : BinaryTree (Entry T V)}
    (h : Represents s (plug C u) R) {a : Addr} (ha : Reach s (ptr s.null u) a) :
    ∃ (D : Context (Entry T V)) (x : Entry T V) (l r : BinaryTree (Entry T V)),
      u = plug D (node x l r) ∧ a = x.addr := by
  obtain ⟨i, hi⟩ := reach_iff_depth.mp ha
  obtain ⟨D, x, l, r, hu, hx, -⟩ := h.exists_of_depth hi
  exact ⟨D, x, l, r, hu, hx⟩

/-- **The nodes reached from a subtree** are the nodes of the subtree. -/
theorem reach_iff {C : Context (Entry T V)} {u : BinaryTree (Entry T V)}
    (h : Represents s (plug C u) R) {a : Addr} :
    Reach s (ptr s.null u) a ↔ a ∈ addrs u := by
  constructor
  · intro ha
    obtain ⟨D, x, l, r, rfl, rfl⟩ := h.exists_of_reach ha
    exact List.mem_map_of_mem (mem_inorder_plug (by simp))
  · intro ha
    obtain ⟨x, hx, rfl⟩ := List.mem_map.mp ha
    obtain ⟨D, l, r, rfl⟩ := exists_plug_of_mem hx
    exact reach_ptr (fun he => nomatch he) h

theorem reach_root_iff (h : Represents s t R) {a : Addr} :
    Reach s s.root a ↔ a ∈ addrs t := by
  rw [h.root]
  exact reach_iff (C := []) h

/-- The slots passed are the slots of the tree. -/
theorem exists_of_reachedSlot (h : Represents s t R) {σ : Slot} (hσ : ReachedSlot s σ) :
    ∃ (C : Context (Entry T V)) (u : BinaryTree (Entry T V)), t = plug C u ∧ σ = slot C := by
  cases hσ with
  | root => exact ⟨[], t, rfl, rfl⟩
  | child d ha =>
    rw [h.root] at ha
    obtain ⟨D, x, l, r, rfl, rfl⟩ := exists_of_reach (C := []) h ha
    cases d with
    | left => exact ⟨⟨.left, x, r⟩ :: D, l, rfl, rfl⟩
    | right => exact ⟨⟨.right, x, l⟩ :: D, r, rfl, rfl⟩

/-- Every slot of the tree is passed. -/
theorem reachedSlot {C : Context (Entry T V)} {u : BinaryTree (Entry T V)}
    (h : Represents s (plug C u) R) : ReachedSlot s (slot C) := by
  cases C with
  | nil => exact .root
  | cons f C =>
    exact .child f.dir (h.reach_root_iff.mpr (List.mem_map_of_mem (label_mem_plug f C u)))

/-- The pointer to a subtree is the sentinel or the address of a node. -/
theorem ptr_cases {C : Context (Entry T V)} {u : BinaryTree (Entry T V)}
    (h : Represents s (plug C u) R) :
    ptr s.null u = s.null ∨ Reach s s.root (ptr s.null u) := by
  by_cases hu : u = nil
  · exact Or.inl (hu ▸ rfl)
  · exact Or.inr (h.root ▸ reach_ptr (C := []) (D := C) hu h)

/-- The cell at the address of a node. -/
theorem eq_of_cell {C : Context (Entry T V)} {x : Entry T V} {l r : BinaryTree (Entry T V)}
    {n : Node T V} (h : Represents s (plug C (node x l r)) R)
    (hn : s.heap.cells x.addr = some n) : n = x.toNode (ptr s.null l) (ptr s.null r) :=
  Option.some.inj (hn.symm.trans h.cell)

/-- The key stored at a node reached from a subtree is the key of an entry of it. -/
theorem key_of_reach {C : Context (Entry T V)} {u : BinaryTree (Entry T V)} {b : Addr}
    {m : Node T V} (h : Represents s (plug C u) R) (hb : Reach s (ptr s.null u) b)
    (hm : s.heap.cells b = some m) : ∃ y ∈ inorder u, y.key = m.key := by
  obtain ⟨D, y, l, r, rfl, rfl⟩ := h.exists_of_reach hb
  rw [← plug_append] at h
  exact ⟨y, mem_inorder_plug (by simp), by rw [h.eq_of_cell hm]; rfl⟩

theorem lacks_iff (h : Represents s t R) {k : T} :
    Lacks s k ↔ ∀ x ∈ inorder t, x.key ≠ k := by
  constructor
  · intro hk x hx
    obtain ⟨l, r, hcell⟩ := h.cell_of_mem hx
    exact hk x.addr _ (h.reach_root_iff.mpr (List.mem_map_of_mem hx)) hcell
  · intro hk a n ha hn
    obtain ⟨x, hx, rfl⟩ := List.mem_map.mp (h.reach_root_iff.mp ha)
    obtain ⟨l, r, hcell⟩ := h.cell_of_mem hx
    obtain rfl : n = x.toNode l r := Option.some.inj (hn.symm.trans hcell)
    exact hk x hx

/-- The search for the key of a node that is reached finds this node. -/
theorem search_reached [LinearOrder T] (h : Represents s t R) (ho : Ordered Entry.key t)
    {a : Addr} {n : Node T V} (ha : Reach s s.root a) (hn : s.heap.cells a = some n) :
    ∃ C x l r, search Entry.key n.key [] t = (C, node x l r) ∧ t = plug C (node x l r) ∧
      x.addr = a ∧ n = x.toNode (ptr s.null l) (ptr s.null r) := by
  obtain ⟨y, hy, rfl⟩ := List.mem_map.mp (h.reach_root_iff.mp ha)
  have hkey : y.key = n.key := by
    obtain ⟨l, r, hcell⟩ := h.cell_of_mem hy
    rw [Option.some.inj (hn.symm.trans hcell)]
    rfl
  rcases search_spec ho n.key with ⟨C, -, -, -, hnone⟩ | ⟨C, x, l, r, hs, rfl, hx⟩
  · exact absurd hkey (hnone y hy)
  · obtain rfl : x = y :=
      ho.eq_of_key_eq (mem_inorder_plug (by simp)) hy (hx.trans hkey.symm)
    exact ⟨C, x, l, r, hs, rfl, rfl, h.eq_of_cell hn⟩

/-- The sentinel and the nodes lie at proper addresses. -/
theorem ptr_ne_nullptr {C : Context (Entry T V)} {u : BinaryTree (Entry T V)}
    (h : Represents s (plug C u) R) : ptr s.null u ≠ nullptr := by
  have hcell : ∃ n, s.heap.cells (ptr s.null u) = some n := by
    cases u with
    | nil => exact ⟨_, h.sentinel_cell⟩
    | node x l r => exact ⟨_, h.cell⟩
  obtain ⟨n, hn⟩ := hcell
  exact Heap.ne_nullptr_of_live hn

/-- A node is reached through one slot: two slots that hold one pointer hold one node,
and a node has one place in the tree. -/
theorem one_slot (h : Represents s t R) {p : Addr} (hp : Reach s s.root p) :
    ∃! σ, ReachedSlot s σ ∧ s.load σ = .ok p := by
  rw [h.root] at hp
  obtain ⟨C, x, l, r, rfl, rfl⟩ := exists_of_reach (C := []) h hp
  refine ⟨slot C, ⟨reachedSlot h, h.load⟩, ?_⟩
  rintro τ ⟨hτ, hload⟩
  obtain ⟨D, w, heq, rfl⟩ := h.exists_of_reachedSlot hτ
  have hptr : ptr s.null w = x.addr :=
    Except.ok.inj ((heq ▸ h).load.symm.trans hload)
  -- what the other slot holds is a node, and the one at the address of `x`
  cases w with
  | nil => exact absurd hptr.symm h.ne_null_of_plug
  | node y l' r' =>
    have hy : y ∈ inorder (plug C (node x l r)) := heq ▸ mem_inorder_plug (by simp)
    obtain rfl : y = x := h.eq_of_addr_eq hy (mem_inorder_plug (by simp)) hptr
    have hnd := (List.nodup_cons.mp h.nodup).2.of_map
    rw [plug_unique hnd rfl heq.symm]

/-- A node is not in its own subtrees, since the addresses are distinct. -/
theorem acyclic (h : Represents s t R) {a : Addr} {n : Node T V} {d : Dir}
    (ha : Reach s s.root a) (hn : s.heap.cells a = some n) : ¬ Reach s (n.child d) a := by
  intro hback
  rw [h.root] at ha
  obtain ⟨C, x, l, r, rfl, rfl⟩ := exists_of_reach (C := []) h ha
  obtain rfl := h.eq_of_cell hn
  -- the addresses of the whole tree are distinct, and those below `x` are a part of them
  have hnd : (x.addr :: (addrs l ++ addrs r)).Nodup := by
    have hsub := (List.nodup_cons.mp h.nodup).2
    rw [addrs, inorder_plug, List.map_append, List.map_append] at hsub
    have hmid := hsub.of_append_left.of_append_right
    rw [inorder_node, List.map_append, List.map_cons] at hmid
    exact List.perm_middle.nodup_iff.mp hmid
  refine (List.nodup_cons.mp hnd).1 (List.mem_append.mpr ?_)
  cases d with
  | left => exact Or.inl ((reach_iff (C := ⟨.left, x, r⟩ :: C) h).mp hback)
  | right => exact Or.inr ((reach_iff (C := ⟨.right, x, l⟩ :: C) h).mp hback)

end Represents

/-- **Every ordered tree in the heap satisfies the representation invariant.** -/
theorem repInvariant [LinearOrder T] [Inhabited T] [Inhabited V] {s : State T V}
    {t : BinaryTree (Entry T V)} {R : Multiset (Addr × Node T V)} (h : Represents s t R)
    (ho : Ordered Entry.key t) : RepInvariant s where
  finite := by
    have heq : {a | Reach s s.root a} = {a | a ∈ addrs t} :=
      Set.ext fun a => h.reach_root_iff
    rw [heq]
    exact List.finite_toSet _
  one_slot := fun _ hp => h.one_slot hp
  acyclic := fun _ _ _ ha hn => h.acyclic ha hn
  allocated := by
    intro a ha
    obtain ⟨x, hx, rfl⟩ := List.mem_map.mp (h.reach_root_iff.mp ha)
    obtain ⟨l, r, hcell⟩ := h.cell_of_mem hx
    exact ⟨Option.isSome_iff_exists.mpr ⟨_, hcell⟩, Heap.not_mem_delete_of_live hcell⟩
  smaller := by
    intro a n b m ha hn hb hm
    rw [h.root] at ha
    obtain ⟨C, x, l, r, rfl, rfl⟩ := Represents.exists_of_reach (C := []) h ha
    obtain rfl := h.eq_of_cell hn
    obtain ⟨y, hy, hkey⟩ := Represents.key_of_reach (C := ⟨.left, x, r⟩ :: C) h hb hm
    exact hkey ▸ ho.of_plug.2.2.1 y hy
  greater := by
    intro a n b m ha hn hb hm
    rw [h.root] at ha
    obtain ⟨C, x, l, r, rfl, rfl⟩ := Represents.exists_of_reach (C := []) h ha
    obtain rfl := h.eq_of_cell hn
    obtain ⟨y, hy, hkey⟩ := Represents.key_of_reach (C := ⟨.right, x, l⟩ :: C) h hb hm
    exact hkey ▸ ho.of_plug.2.2.2 y hy
  slots := by
    intro σ hσ
    obtain ⟨C, u, rfl, rfl⟩ := h.exists_of_reachedSlot hσ
    exact ⟨_, h.load, h.ptr_ne_nullptr, h.ptr_cases⟩
  sentinel := h.sentinel_cell

end BstGenerator.Bst
