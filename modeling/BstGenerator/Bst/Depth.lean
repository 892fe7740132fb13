import BstGenerator.Trees.Depth
import BstGenerator.Bst.Identity

/-!
# Depth, height and ancestry under `insert` and `remove`

How far a search has to walk is the depth of the node it is for. An insertion adds a leaf
and leaves every depth as it is (`Inserted`); a removal moves nodes up only, and of two
nodes one above the other only the successor put in the removed node's place gets out from
below the other (`Removed`).

- `Represents.atDepth_iff`, `Represents.properAncestor_iff`: depth and ancestry in the heap
  are those of the tree it represents.
- `depth_of_calls`: **what the two calls do** to every reachable state.
-/

namespace BstGenerator.Bst

open Machine Memory Trees
open BinaryTree (nil node)

variable {T V : Type}

/-- The node at `a` is a proper ancestor of the node at `b`. -/
def ProperAncestor (s : State T V) (a b : Addr) : Prop :=
  Reach s s.root a ∧ ∃ n d, s.heap.cells a = some n ∧ Reach s (n.child d) b

/-- The height of the tree that `root_` spells out, an empty one having height 0. -/
def Height (s : State T V) (h : Nat) : Prop :=
  ∃ t : BinaryTree (Entry T V), TreeAt s s.root t ∧ t.height = h

/-- What an `insert` that returned `p` does to the shape of the tree. -/
structure Inserted (s s' : State T V) (p : Addr) : Prop where
  depth : ∀ a i, AtDepth s s.root a i → AtDepth s' s'.root a i
  leaf : p ≠ s.null → ¬ Reach s s.root p ∧ Reach s' s'.root p ∧
    s'.left p = .ok s'.null ∧ s'.right p = .ok s'.null
  height : ∀ h h', Height s h → Height s' h' → h' ≤ h + 1

/-- What a `remove` of the key `k` does to the shape of the tree. -/
structure Removed (s s' : State T V) (k : T) : Prop where
  depth : ∀ a i j, AtDepth s s.root a i → AtDepth s' s'.root a j → j ≤ i
  height : ∀ h h', Height s h → Height s' h' → h' ≤ h
  /-- Surviving nodes stay one above the other, unless the lower one is the in-order
  successor of a removed node with two children. -/
  ancestor : ∀ a b, ProperAncestor s a b → Reach s' s'.root a → Reach s' s'.root b →
    ProperAncestor s' a b ∨ ∃ x n, Reach s s.root x ∧ s.heap.cells x = some n ∧ n.key = k ∧
      n.left ≠ s.null ∧ n.right ≠ s.null ∧ Successor s x b

theorem Height.unique {s : State T V} {h h' : Nat} (hh : Height s h) (hh' : Height s h') :
    h = h' := by
  obtain ⟨t, ht, rfl⟩ := hh
  obtain ⟨t', ht', rfl⟩ := hh'
  rw [ht.unique ht']

variable [Inhabited T] [Inhabited V]

namespace Represents

variable {s : State T V} {t : BinaryTree (Entry T V)} {R : Multiset (Addr × Node T V)}

theorem atDepth_iff (h : Represents s t R) {a : Addr} {i : Nat} :
    AtDepth s s.root a i ↔ ∃ x, DepthAt t x i ∧ x.addr = a := by
  rw [h.root]
  constructor
  · intro ha
    obtain ⟨D, x, l, r, rfl, rfl, rfl⟩ := exists_of_depth (C := []) h ha
    exact ⟨x, depthAt_iff.mpr ⟨D, l, r, rfl, rfl⟩, rfl⟩
  · rintro ⟨x, hx, rfl⟩
    obtain ⟨D, l, r, rfl, rfl⟩ := depthAt_iff.mp hx
    exact depth_ptr (C := []) (u := node x l r) (fun he => nomatch he) h

/-- A node has one depth, since it has one place in the tree. -/
theorem atDepth_unique (h : Represents s t R) {a : Addr} {i j : Nat}
    (hi : AtDepth s s.root a i) (hj : AtDepth s s.root a j) : i = j := by
  rw [h.root] at hi hj
  obtain ⟨C, x, l, r, hC, rfl, rfl⟩ := exists_of_depth (C := []) h hi
  obtain ⟨D, y, l', r', hD, hxy, rfl⟩ := exists_of_depth (C := []) h hj
  obtain rfl : x = y := h.eq_of_addr_eq (hC ▸ mem_inorder_plug (by simp))
    (hD ▸ mem_inorder_plug (by simp)) hxy
  rw [plug_unique (List.nodup_cons.mp h.nodup).2.of_map hC.symm hD.symm]

theorem properAncestor_iff (h : Represents s t R) {a b : Addr} :
    ProperAncestor s a b ↔ ∃ x y, Above t x y ∧ x.addr = a ∧ y.addr = b := by
  constructor
  · rintro ⟨ha, n, d, hn, hb⟩
    rw [h.root] at ha
    obtain ⟨C, x, l, r, rfl, rfl⟩ := exists_of_reach (C := []) h ha
    obtain rfl := h.eq_of_cell hn
    cases d with
    | left =>
      obtain ⟨y, hy, rfl⟩ :=
        List.mem_map.mp ((reach_iff (C := ⟨.left, x, r⟩ :: C) (u := l) h).mp hb)
      exact ⟨x, y, above_iff.mpr ⟨C, l, r, rfl, Or.inl hy⟩, rfl, rfl⟩
    | right =>
      obtain ⟨y, hy, rfl⟩ :=
        List.mem_map.mp ((reach_iff (C := ⟨.right, x, l⟩ :: C) (u := r) h).mp hb)
      exact ⟨x, y, above_iff.mpr ⟨C, l, r, rfl, Or.inr hy⟩, rfl, rfl⟩
  · rintro ⟨x, y, hxy, rfl, rfl⟩
    obtain ⟨C, l, r, rfl, hy⟩ := above_iff.mp hxy
    have hx : Reach s s.root x.addr :=
      h.reach_root_iff.mpr (List.mem_map_of_mem (mem_inorder_plug (by simp)))
    rcases hy with hy | hy
    · exact ⟨hx, _, .left, h.cell,
        (reach_iff (C := ⟨.left, x, r⟩ :: C) (u := l) h).mpr (List.mem_map_of_mem hy)⟩
    · exact ⟨hx, _, .right, h.cell,
        (reach_iff (C := ⟨.right, x, l⟩ :: C) (u := r) h).mpr (List.mem_map_of_mem hy)⟩

theorem height (h : Represents s t R) : Height s t.height := ⟨t, h.treeAt_root, rfl⟩

end Represents

section Shapes

variable {s s' : State T V} {R : Multiset (Addr × Node T V)}

/-! ## `insert` -/

omit [Inhabited T] [Inhabited V] in
theorem Inserted.refl (s : State T V) : Inserted s s s.null where
  depth := fun _ _ h => h
  leaf := fun hne => absurd rfl hne
  height := fun _ _ hh hh' => hh.unique hh' ▸ Nat.le_succ _

/-- A new leaf in an empty slot. -/
theorem inserted_leaf {C : Context (Entry T V)} {x : Entry T V}
    (h : Represents s (plug C nil) R) (h' : Represents s' (plug C (node x nil nil)) R)
    (hnew : s.heap.cells x.addr = none) : Inserted s s' x.addr where
  depth := by
    intro a i ha
    obtain ⟨y, hy, rfl⟩ := h.atDepth_iff.mp ha
    exact h'.atDepth_iff.mpr ⟨y, (addsAt_leaf x C y i).mpr (Or.inl hy), rfl⟩
  leaf := by
    intro _
    refine ⟨fun hx => ?_, ?_, State.left_eq h'.cell, State.right_eq h'.cell⟩
    · obtain ⟨y, hy, heq⟩ := List.mem_map.mp (h.reach_root_iff.mp hx)
      obtain ⟨l, r, hcell⟩ := h.cell_of_mem hy
      rw [heq, hnew] at hcell
      cases hcell
    · exact h'.reach_root_iff.mpr (List.mem_map_of_mem (mem_inorder_plug (by simp)))
  height := by
    intro b b' hb hb'
    rw [hb.unique h.height, hb'.unique h'.height]
    exact (addsAt_leaf x C).height_le (length_le_height C nil)

/-! ## `remove` -/

omit [Inhabited T] [Inhabited V] in
theorem Removed.refl (hdepth : ∀ a i j, AtDepth s s.root a i → AtDepth s s.root a j → i = j)
    (k : T) : Removed s s k where
  depth := fun a i j hi hj => Nat.le_of_eq (hdepth a j i hj hi)
  height := fun _ _ hh hh' => Nat.le_of_eq (hh'.unique hh)
  ancestor := fun _ _ h _ _ => Or.inl h

/-- A node replaced by its merged subtrees is in the tree no more. -/
theorem not_mem_merge {C : Context (Entry T V)} {x : Entry T V} {l r : BinaryTree (Entry T V)}
    (h : Represents s (plug C (node x l r)) R) : x.addr ∉ addrs (plug C (merge l r)) := by
  have hnd : (addrs (plug C (node x l r))).Nodup := (List.nodup_cons.mp h.nodup).2
  exact (List.nodup_cons.mp (((perm_merge C x l r).map Entry.addr).nodup_iff.mp hnd)).1

/-- The first entry on the right of a node that has something on the left, too, is the
successor that takes its place. -/
theorem successor_of_two {C : Context (Entry T V)} {x z : Entry T V}
    {l r : BinaryTree (Entry T V)} (h : Represents s (plug C (node x l r)) R) (hl : l ≠ nil)
    (hz : (inorder r).head? = some z) :
    ∃ a n, Reach s s.root a ∧ s.heap.cells a = some n ∧ n.key = x.key ∧
      n.left ≠ s.null ∧ n.right ≠ s.null ∧ Successor s a z.addr := by
  have hr : r ≠ nil := by
    rintro rfl
    cases hz
  refine ⟨x.addr, _, ?_, h.cell, rfl, ?_, ?_, h.successor hz⟩
  · exact h.reach_root_iff.mpr (List.mem_map_of_mem (mem_inorder_plug (by simp)))
  · exact mt (Represents.ptr_eq_null_iff (C := ⟨.left, x, r⟩ :: C) h).mp hl
  · exact mt (Represents.ptr_eq_null_iff (C := ⟨.right, x, l⟩ :: C) h).mp hr

/-- A node replaced by its merged subtrees. -/
theorem removed_merge {C : Context (Entry T V)} {x : Entry T V}
    {l r : BinaryTree (Entry T V)} (h : Represents s (plug C (node x l r)) R)
    (h' : Represents s' (plug C (merge l r)) R) : Removed s s' x.key where
  depth := by
    intro a i j hi hj
    obtain ⟨y, hy, rfl⟩ := h'.atDepth_iff.mp hj
    obtain ⟨k, hjk, hk⟩ := (lifts_merge x l r).plug C y j hy
    rw [h.atDepth_unique hi (h.atDepth_iff.mpr ⟨y, hk, rfl⟩)]
    exact hjk
  height := by
    intro b b' hb hb'
    rw [hb.unique h.height, hb'.unique h'.height]
    exact ((lifts_merge x l r).plug C).height_le
  ancestor := by
    intro a b hab ha hb
    obtain ⟨y, z, hyz, rfl, rfl⟩ := h.properAncestor_iff.mp hab
    have hgone := not_mem_merge h
    have hy : y ≠ x := by
      rintro rfl
      exact hgone (h'.reach_root_iff.mp ha)
    have hz : z ≠ x := by
      rintro rfl
      exact hgone (h'.reach_root_iff.mp hb)
    by_cases hmin : l ≠ nil ∧ (inorder r).head? = some z
    · exact Or.inr (successor_of_two h hmin.1 hmin.2)
    · -- in the slot of `x` as in the whole tree, `y` stays above `z`
      have hslot : Above (node x l r) y z → Above (merge l r) y z := fun hu =>
        above_merge hu hy fun hl hhead => hmin ⟨hl, hhead⟩
      have hedit : Above (plug C (merge l r)) y z :=
        Above.edit hslot (fun hmem => mem_merge_of_ne hmem hz) C hyz
      exact Or.inl (h'.properAncestor_iff.mpr ⟨y, z, hedit, rfl, rfl⟩)

end Shapes

/-! ## Both calls -/

/-- **Depths, heights and ancestors**: in every reachable state each node has one depth and
the tree one height; an `insert` changes no depth, puts its node at a leaf and adds at most
one to the height; a `remove` moves no surviving node down, does not add to the height, and
keeps surviving nodes one above the other but for the successor it moves up. -/
theorem depth_of_calls [LinearOrder T] (ops : List (Op T V)) :
    (∃ s, Run ops s) ∧ ∀ s, Run ops s →
      (∀ a, Reach s s.root a → ∃! i, AtDepth s s.root a i) ∧ (∃! h, Height s h) ∧
      (∀ k v, ∃ p s', Returns (fun fuel => insert fuel k v s) (p, s') ∧
        Run (ops ++ [.insert k v]) s' ∧ Inserted s s' p) ∧
      ∀ k, ∃ b s', Returns (fun fuel => remove fuel k s) (b, s') ∧
        Run (ops ++ [.remove k]) s' ∧ Removed s s' k := by
  refine ⟨exists_run ops, ?_⟩
  intro s hrun
  obtain ⟨t, hholds⟩ := hrun.holds
  have h := hholds.represents
  refine ⟨?_, ⟨_, h.height, fun _ hh => hh.unique h.height⟩, ?_, ?_⟩
  · intro a ha
    obtain ⟨i, hi⟩ := reach_iff_depth.mp ha
    exact ⟨i, hi, fun j hj => h.atDepth_unique hj hi⟩
  · intro k v
    have hcall {p : Addr} {s' : State T V}
        (hret : Returns (fun fuel => insert fuel k v s) (p, s')) :
        Run (ops ++ [.insert k v]) s' := hrun.call (hret.bind ⟨0, fun _ _ => rfl⟩)
    rcases search_spec hholds.ordered k with ⟨C, hs, rfl, -, -⟩ | ⟨C, x, l, r, hs, rfl, -⟩
    · obtain ⟨s', hret, h', -⟩ := insert_absent v h hs
      exact ⟨_, s', hret, hcall hret, inserted_leaf h h' s.heap.cells_next⟩
    · have hret := insert_present v h hs
      exact ⟨s.null, s, hret, hcall hret, Inserted.refl s⟩
  · intro k
    have hcall {b : Bool} {s' : State T V} (hret : Returns (fun fuel => remove fuel k s) (b, s')) :
        Run (ops ++ [.remove k]) s' := hrun.call (hret.bind ⟨0, fun _ _ => rfl⟩)
    rcases search_spec hholds.ordered k with ⟨C, hs, rfl, -, -⟩ | ⟨C, x, l, r, hs, rfl, rfl⟩
    · have hret := remove_absent h hs
      exact ⟨false, s, hret, hcall hret,
        Removed.refl (fun a i j hi hj => h.atDepth_unique hi hj) k⟩
    · obtain ⟨s', -, hret, h', -⟩ := remove_present h hs
      exact ⟨true, s', hret, hcall hret, removed_merge h h'⟩

end BstGenerator.Bst
