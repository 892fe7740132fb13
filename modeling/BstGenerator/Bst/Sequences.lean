import BstGenerator.Trees.Rebuild
import BstGenerator.Bst.PrintOrder

/-!
# Sequences of calls

What a map does not say of the class: which tree a sequence of insertions builds, and
what is left when insertions are taken back.

- `rebuild`: inserting into a new object what `xian()` or, the other way round, `hou()`
  visits **builds the same tree again**, whatever calls the first one came from.
- `undo`: removing keys that were not there, the last one inserted first, **gives back
  every node as it was**.

Both are inductions over the pairs inserted. What carries them is in `inserts_spec` the
tree of the pairs inserted so far, the addresses left out, and in `inserts_undone` the
tree before, addresses and all.
-/

namespace BstGenerator.Bst

open Machine Memory Trees
open BinaryTree (nil node)

variable {T V : Type} [LinearOrder T]

/-! ## Many calls -/

/-- Execute the calls one after another and collect what they return. -/
def execAll (fuel : Nat) : List (Op T V) → State T V → Except Fault (List Ret × State T V)
  | [], s => .ok ([], s)
  | op :: ops, s => do
    let (r, s) ← exec fuel s op
    let (rs, s) ← execAll fuel ops s
    return (r :: rs, s)

/-- The insertions of the pairs `ps`. -/
def inserts (ps : List (T × V)) : List (Op T V) := ps.map fun p => .insert p.1 p.2

/-- The removals of the keys of `ps`. -/
def removes (ps : List (T × V)) : List (Op T V) := ps.map fun p => .remove p.1

section ExecAll

variable {s s' s'' : State T V} {op : Op T V} {ops ops' : List (Op T V)} {r : Ret}
  {rs rs' : List Ret}

theorem execAll_nil : Returns (fun fuel => execAll fuel [] s) ([], s) :=
  ⟨0, fun _ _ => rfl⟩

theorem execAll_cons (h : Returns (fun fuel => exec fuel s op) (r, s'))
    (h' : Returns (fun fuel => execAll fuel ops s') (rs, s'')) :
    Returns (fun fuel => execAll fuel (op :: ops) s) (r :: rs, s'') :=
  h.bind (h'.bind ⟨0, fun _ _ => rfl⟩)

theorem execAll_append_eq (fuel : Nat) (ops ops' : List (Op T V)) (s : State T V) :
    execAll fuel (ops ++ ops') s = (do
      let (rs, s) ← execAll fuel ops s
      let (rs', s) ← execAll fuel ops' s
      return (rs ++ rs', s)) := by
  induction ops generalizing s with
  | nil =>
    show execAll fuel ops' s = (execAll fuel ops' s >>= _)
    cases execAll fuel ops' s <;> rfl
  | cons op ops ih =>
    simp only [List.cons_append, execAll]
    cases exec fuel s op with
    | error e => rfl
    | ok p =>
      obtain ⟨r, s⟩ := p
      simp only [ok_bind, ih]
      cases execAll fuel ops s with
      | error e => rfl
      | ok p =>
        obtain ⟨rs, s⟩ := p
        simp only [ok_bind, pure_eq_ok]
        cases execAll fuel ops' s <;> rfl

theorem execAll_append (h : Returns (fun fuel => execAll fuel ops s) (rs, s'))
    (h' : Returns (fun fuel => execAll fuel ops' s') (rs', s'')) :
    Returns (fun fuel => execAll fuel (ops ++ ops') s) (rs ++ rs', s'') := by
  obtain ⟨N, hN⟩ := h
  obtain ⟨M, hM⟩ := h'
  refine ⟨max N M, ?_⟩
  intro fuel hfuel
  have hfirst : execAll fuel ops s = .ok (rs, s') :=
    hN fuel (Nat.le_trans (Nat.le_max_left N M) hfuel)
  have hsecond : execAll fuel ops' s' = .ok (rs', s'') :=
    hM fuel (Nat.le_trans (Nat.le_max_right N M) hfuel)
  show execAll fuel (ops ++ ops') s = _
  simp only [execAll_append_eq, hfirst, ok_bind, hsecond, pure_eq_ok]

end ExecAll

variable [Inhabited T] [Inhabited V]

section Specs

variable {s : State T V} {t : BinaryTree (Entry T V)} {R : Multiset (Addr × Node T V)}

/-- `insert` of an absent key, as a call. -/
theorem exec_insert_absent (h : Represents s t R) (ho : Ordered Entry.key t) {k : T} (v : V)
    (hk : ∀ x ∈ inorder t, x.key ≠ k) :
    ∃ s', Returns (fun fuel => exec fuel s (.insert k v)) (.node s.heap.next, s') ∧
      Represents s' (Trees.insert Entry.key ⟨s.heap.next, k, v⟩ t) R ∧ s'.null = s.null ∧
      s.heap.next ≠ s.null := by
  rcases insert_spec h ho k v with ⟨x, hx, hkey, -⟩ | ⟨-, s', ws, hret, hrep, heff, -⟩
  · exact absurd hkey (hk x hx)
  · have hmem : (⟨s.heap.next, k, v⟩ : Entry T V) ∈
        inorder (Trees.insert Entry.key ⟨s.heap.next, k, v⟩ t) :=
      (mem_inorder_insert ho).mpr (Or.inr ⟨rfl, hk⟩)
    exact ⟨s', hret.bind ⟨0, fun _ _ => rfl⟩, hrep, heff.null, heff.null ▸ hrep.ne_null hmem⟩

/-- `remove` of a present key, as a call. -/
theorem exec_remove_present (h : Represents s t R) (ho : Ordered Entry.key t)
    {x : Entry T V} (hx : x ∈ inorder t) :
    ∃ s', Returns (fun fuel => exec fuel s (.remove x.key)) (.removed true, s') ∧
      Represents s' (Trees.erase Entry.key x.key t) R ∧ s'.null = s.null := by
  rcases remove_spec h ho x.key with ⟨hnone, -⟩ | ⟨y, -, -, s', ws, hret, hrep, heff, -⟩
  · exact absurd rfl (hnone x hx)
  · exact ⟨s', hret.bind ⟨0, fun _ _ => rfl⟩, hrep, heff.null⟩

/-! ## Insertions in a row -/

omit [Inhabited T] [Inhabited V] in
/-- Where an insertion puts a pair does not depend on the address of its node. -/
theorem map_pair_insert (x : Entry T V) (t : BinaryTree (Entry T V)) :
    (Trees.insert Entry.key x t).map Entry.pair =
      Trees.insert Prod.fst x.pair (t.map Entry.pair) :=
  @map_insert _ _ _ _ Entry.pair Prod.fst x t

/-- The first of several insertions, which leaves the keys of the others absent. -/
theorem insert_first {k : T} {v : V} {ps : List (T × V)} (h : Represents s t R)
    (ho : Ordered Entry.key t) (hk : k ∉ ps.map Prod.fst)
    (hnew : ∀ p ∈ (k, v) :: ps, ∀ x ∈ inorder t, x.key ≠ p.1) :
    ∃ s', Returns (fun fuel => exec fuel s (.insert k v)) (.node s.heap.next, s') ∧
      Represents s' (Trees.insert Entry.key ⟨s.heap.next, k, v⟩ t) R ∧ s'.null = s.null ∧
      s.heap.next ≠ s.null ∧
      ∀ p ∈ ps, ∀ x ∈ inorder (Trees.insert Entry.key ⟨s.heap.next, k, v⟩ t), x.key ≠ p.1 := by
  have habs : ∀ x ∈ inorder t, x.key ≠ k := hnew (k, v) (List.mem_cons_self ..)
  obtain ⟨s', hins, h', hnull, hne⟩ := exec_insert_absent h ho v habs
  refine ⟨s', hins, h', hnull, hne, ?_⟩
  intro p hp x hx
  rcases (mem_inorder_insert ho).mp hx with hx | ⟨rfl, -⟩
  · exact hnew p (List.mem_cons_of_mem _ hp) x hx
  · exact fun heq => hk (List.mem_map.mpr ⟨p, hp, heq.symm⟩)

/-- **Inserting pairs with distinct absent keys** succeeds for every pair and builds the
tree that the pairs alone determine. -/
theorem inserts_spec {ps : List (T × V)} (h : Represents s t R) (ho : Ordered Entry.key t)
    (hnd : (ps.map Prod.fst).Nodup) (hnew : ∀ p ∈ ps, ∀ x ∈ inorder t, x.key ≠ p.1) :
    ∃ rs s' t', Returns (fun fuel => execAll fuel (inserts ps) s) (rs, s') ∧
      Represents s' t' R ∧ s'.null = s.null ∧
      t'.map Entry.pair = insertAll Prod.fst ps (t.map Entry.pair) ∧
      rs.length = ps.length ∧ ∀ r ∈ rs, ∃ p, r = .node p ∧ p ≠ s.null := by
  induction ps generalizing s t with
  | nil => exact ⟨[], s, t, execAll_nil, h, rfl, rfl, rfl, fun r hr => absurd hr List.not_mem_nil⟩
  | cons p ps ih =>
    obtain ⟨k, v⟩ := p
    obtain ⟨hk, hnd⟩ := List.nodup_cons.mp hnd
    obtain ⟨s₁, hins, h₁, hnull₁, hne, hnew₁⟩ := insert_first h ho hk hnew
    obtain ⟨rs, s₂, t₂, hrest, h₂, hnull₂, htree, hlen, hrs⟩ :=
      ih h₁ (ordered_insert ho) hnd hnew₁
    refine ⟨.node s.heap.next :: rs, s₂, t₂, execAll_cons hins hrest, h₂, hnull₂.trans hnull₁,
      ?_, congrArg Nat.succ hlen, ?_⟩
    · rw [htree, map_pair_insert]
      rfl
    · intro r hr
      rcases List.mem_cons.mp hr with rfl | hr
      · exact ⟨_, rfl, hne⟩
      · exact hnull₁ ▸ hrs r hr

/-! ## Insertions taken back -/

/-- **Removing the keys just inserted**, the last one first, leaves the tree as it was. -/
theorem inserts_undone {ps : List (T × V)} (h : Represents s t R) (ho : Ordered Entry.key t)
    (hnd : (ps.map Prod.fst).Nodup) (hnew : ∀ p ∈ ps, ∀ x ∈ inorder t, x.key ≠ p.1) :
    ∃ rs s', Returns (fun fuel => execAll fuel (inserts ps ++ (removes ps).reverse) s) (rs, s') ∧
      Represents s' t R ∧ s'.null = s.null := by
  induction ps generalizing s t with
  | nil => exact ⟨[], s, execAll_nil, h, rfl⟩
  | cons p ps ih =>
    obtain ⟨k, v⟩ := p
    obtain ⟨hk, hnd⟩ := List.nodup_cons.mp hnd
    have habs : ∀ x ∈ inorder t, x.key ≠ k := hnew (k, v) (List.mem_cons_self ..)
    obtain ⟨s₁, hins, h₁, hnull₁, -, hnew₁⟩ := insert_first h ho hk hnew
    -- the other keys come and go above the new node, which is then a leaf again
    obtain ⟨rs, s₂, hrest, h₂, hnull₂⟩ := ih h₁ (ordered_insert ho) hnd hnew₁
    have hmem : (⟨s.heap.next, k, v⟩ : Entry T V) ∈
        inorder (Trees.insert Entry.key ⟨s.heap.next, k, v⟩ t) :=
      (mem_inorder_insert ho).mpr (Or.inr ⟨rfl, habs⟩)
    obtain ⟨s₃, hrem, h₃, hnull₃⟩ := exec_remove_present h₂ (ordered_insert ho) hmem
    rw [erase_insert ho habs] at h₃
    have hback : inserts ((k, v) :: ps) ++ (removes ((k, v) :: ps)).reverse =
        .insert k v :: ((inserts ps ++ (removes ps).reverse) ++ [.remove k]) := by
      simp [inserts, removes]
    rw [hback]
    exact ⟨_, s₃, execAll_cons hins (execAll_append hrest (execAll_cons hrem execAll_nil)), h₃,
      hnull₃.trans (hnull₂.trans hnull₁)⟩

end Specs

/-! ## Rebuilding a tree -/

/-- The objects hold trees of one shape, with the same key and value at every position. -/
def SameShape (s s' : State T V) : Prop :=
  ∃ t t', TreeAt s s.root t ∧ TreeAt s' s'.root t' ∧ t'.map Entry.pair = t.map Entry.pair

/-- Inserting the pairs into an object newly constructed in the heap succeeds for each of
them, and the object then holds the tree of `s`. -/
def Rebuilds (heap : Heap (Node T V)) (ps : List (T × V)) (s : State T V) : Prop :=
  ∃ s₀ rs s₁, construct heap = .ok s₀ ∧
    Returns (fun fuel => execAll fuel (inserts ps) s₀) (rs, s₁) ∧ rs.length = ps.length ∧
    (∀ r ∈ rs, ∃ p, r = .node p ∧ p ≠ s₁.null) ∧ SameShape s s₁

section Rebuild

variable {s : State T V} {m : T → Option V} {t : BinaryTree (Entry T V)}
  {R : Multiset (Addr × Node T V)}

/-- A listing of the tree's entries rebuilds the tree if its pairs do. -/
theorem Holds.rebuilds (hs : Holds s m t R) {xs : List (Entry T V)}
    (hperm : xs.Perm (inorder t))
    (htree : insertAll Prod.fst (xs.map Entry.pair) nil = t.map Entry.pair)
    (heap : Heap (Node T V)) : Rebuilds heap (xs.map Entry.pair) s := by
  obtain ⟨M, hM⟩ := Heap.Is.exists_is heap
  obtain ⟨s₀, hconstruct, hholds, -, -⟩ := construct_spec hM
  have hkeys : ((xs.map Entry.pair).map Prod.fst).Nodup := by
    have hord := (ordered_iff Entry.key).mp hs.ordered
    rw [List.map_map]
    refine (hperm.map _).nodup_iff.mpr ?_
    exact List.pairwise_map.mpr (hord.imp ne_of_lt)
  obtain ⟨rs, s₁, t₁, hret, hrep, hnull, htree₁, hlen, hrs⟩ :=
    inserts_spec hholds.represents hholds.ordered hkeys fun p _ x hx => nomatch hx
  refine ⟨s₀, rs, s₁, hconstruct, hret, hlen, hnull ▸ hrs, t, t₁, hs.represents.treeAt_root,
    hrep.treeAt_root, ?_⟩
  exact htree₁.trans htree

end Rebuild

/-- **Every reachable tree can be rebuilt** from what `xian()` visits, in that order, and
from what `hou()` visits in reverse order, by insertions that all succeed. -/
theorem rebuild (ops : List (Op T V)) :
    (∃ s, Run ops s) ∧ ∀ s, Run ops s → ∃ o o' : Out T V,
      Returns (fun fuel => xian fuel s ⟨[], [], [], []⟩) o ∧
      Returns (fun fuel => hou fuel s ⟨[], [], [], []⟩) o' ∧
      ∀ heap, Rebuilds heap o.cout s ∧ Rebuilds heap o'.cout.reverse s := by
  refine ⟨exists_run ops, ?_⟩
  intro s hrun
  obtain ⟨t, hholds⟩ := hrun.holds
  have ht : TreeAt s s.root t := hholds.represents.treeAt_root
  have ho : Ordered Prod.fst (t.map Entry.pair) := ordered_map.mpr hholds.ordered
  refine ⟨_, _, xian_spec ht _, hou_spec ht _, fun heap => ⟨?_, ?_⟩⟩
  · refine hholds.rebuilds (preorder_perm t) ?_ heap
    rw [← preorder_map, insertAll_preorder ho]
  · show Rebuilds heap ((postorder t).map Entry.pair).reverse s
    rw [← List.map_reverse]
    refine hholds.rebuilds ((List.reverse_perm _).trans (postorder_perm t)) ?_ heap
    rw [List.map_reverse, ← postorder_map, insertAll_reverse_postorder ho]

/-! ## Taking insertions back -/

/-- The object and the nodes are the same: `root_`, `null_` and every node at its address
with its key, value and links. -/
structure Same (s s' : State T V) : Prop where
  members : s'.toMembers = s.toMembers
  cells : s'.heap.cells = s.heap.cells

omit [LinearOrder T] in
/-- Two states that represent one tree in one way are the same. -/
theorem Represents.same {s s' : State T V} {t : BinaryTree (Entry T V)}
    {R : Multiset (Addr × Node T V)} (h : Represents s t R) (h' : Represents s' t R)
    (hnull : s'.null = s.null) : Same s s' where
  members := by
    have hroot : s'.root = s.root := by rw [h'.root, h.root, hnull]
    show (⟨s'.root, s'.null⟩ : Members) = ⟨s.root, s.null⟩
    rw [hroot, hnull]
  cells := by
    have hheap := h'.heap
    rw [hnull] at hheap
    funext a
    refine Option.ext fun n => ?_
    rw [hheap.cells_iff, h.heap.cells_iff]

/-- **Insertions are undone** by removing their keys again, the last one first: in every
reachable state, for one absent key and for any number of distinct ones. -/
theorem undo (ops : List (Op T V)) :
    (∃ s, Run ops s) ∧ ∀ s, Run ops s →
      (∀ k v, Lacks s k → ∃ rs s',
        Returns (fun fuel => execAll fuel [.insert k v, .remove k] s) (rs, s') ∧ Same s s') ∧
      ∀ ps : List (T × V), (ps.map Prod.fst).Nodup → (∀ p ∈ ps, Lacks s p.1) → ∃ rs s',
        Returns (fun fuel => execAll fuel (inserts ps ++ (removes ps).reverse) s) (rs, s') ∧
          Same s s' := by
  refine ⟨exists_run ops, ?_⟩
  intro s hrun
  obtain ⟨t, hholds⟩ := hrun.holds
  have hrep := hholds.represents
  have hundo (ps : List (T × V)) (hnd : (ps.map Prod.fst).Nodup)
      (hps : ∀ p ∈ ps, Lacks s p.1) : ∃ rs s',
      Returns (fun fuel => execAll fuel (inserts ps ++ (removes ps).reverse) s) (rs, s') ∧
        Same s s' := by
    obtain ⟨rs, s', hret, hrep', hnull⟩ :=
      inserts_undone hrep hholds.ordered hnd fun p hp => hrep.lacks_iff.mp (hps p hp)
    exact ⟨rs, s', hret, hrep.same hrep' hnull⟩
  refine ⟨fun k v hk => ?_, hundo⟩
  exact hundo [(k, v)] (List.nodup_singleton k) fun p hp => List.mem_singleton.mp hp ▸ hk

end BstGenerator.Bst
