import BstGenerator.Bst.PostOrder

/-!
# In-order and pre-order: the loops are the recursions

`zhong()` and `xian()` pop a node for good when they push its right child, so that what
is on the stack below a subtree are nodes whose left subtrees are done or under way, and
`null_` stands on top of the stack for a subtree that is done. With a subtree on top of any
stack `K`, each loop comes round to `null_` on top of the same `K`, one round for each node
later (`zhongLoop_subtree`, `xianLoop_subtree`); at the bottom, with `K` empty, this is
where it ends.

- `zhong_eq_diZhong`: **`zhong()` prints what `zhong(Node *)` prints**, which in reachable
  states are the entries of the map in ascending order.
- `xian_eq_diXian`: **`xian()` prints what `xian(Node *)` prints**.
-/

namespace BstGenerator.Bst

open Machine Memory Trees
open BinaryTree (nil node)

variable {T V : Type} {s : State T V}

/-! ## What is printed -/

/-- The output after the entries `xs` have been printed. -/
def Out.lines (o : Out T V) (xs : List (Entry T V)) : Out T V :=
  { o with
    cout := o.cout ++ xs.map Entry.pair
    visited := o.visited ++ xs.map Entry.addr }

@[simp] theorem Out.lines_nil (o : Out T V) : o.lines [] = o := by
  simp [Out.lines]

theorem Out.lines_append (o : Out T V) (xs ys : List (Entry T V)) :
    o.lines (xs ++ ys) = (o.lines xs).lines ys := by
  simp [Out.lines]

theorem Out.lines_cons (o : Out T V) (x : Entry T V) (xs : List (Entry T V)) :
    o.lines (x :: xs) = (o.lines [x]).lines xs :=
  o.lines_append [x] xs

/-- What is printed of a node is its entry. -/
theorem print_eq {x : Entry T V} {n : Node T V} (hn : s.heap.cells x.addr = some n)
    (hkey : n.key = x.key) (hval : n.value = x.value) (o : Out T V) :
    print s x.addr o = .ok (o.lines [x]) := by
  simp [print, State.node, hn, hkey, hval, Out.lines, Entry.pair]

/-! ## The descents -/

/-- The stack after the descent from a subtree on top of `K`. -/
def spine (null : Addr) : BinaryTree (Entry T V) → List Addr → List Addr
  | .nil, K => null :: K
  | .node x l _, K => spine null l (x.addr :: K)

/-- The entries on the way down. -/
def spineLabels : BinaryTree (Entry T V) → List (Entry T V)
  | .nil => []
  | .node x l _ => x :: spineLabels l

/-- The descent of `zhong()` goes down the left spine and prints nothing. -/
theorem descend_eq {t : BinaryTree (Entry T V)} {p : Addr} (ht : TreeAt s p t) {inner : Nat}
    (hinner : t.numNodes < inner) (K : List Addr) :
    descend s inner (p :: K) p = .ok (spine s.null t K) := by
  induction t generalizing p inner K with
  | nil =>
    obtain ⟨inner, rfl⟩ : ∃ n, inner = n + 1 := ⟨inner - 1, by omega⟩
    obtain rfl : p = s.null := ht
    rw [descend, if_neg (not_not.mpr rfl), spine]
  | node x l r ihl _ =>
    obtain ⟨inner, rfl⟩ : ∃ n, inner = n + 1 := ⟨inner - 1, by omega⟩
    obtain ⟨rfl, hne, n, hn, -, -, hl, -⟩ := ht
    simp only [BinaryTree.numNodes] at hinner
    have hl' : l.numNodes < inner := by omega
    rw [descend, if_pos hne, State.left_eq hn, ok_bind]
    exact ihl hl hl' _

/-- That of `xian()` goes down the same spine and prints it. -/
theorem xianDescend_eq {t : BinaryTree (Entry T V)} {p : Addr} (ht : TreeAt s p t)
    {inner : Nat} (hinner : t.numNodes < inner) (K : List Addr) (o : Out T V) :
    xianDescend s inner (p :: K) p o = .ok (spine s.null t K, o.lines (spineLabels t)) := by
  induction t generalizing p inner K o with
  | nil =>
    obtain ⟨inner, rfl⟩ : ∃ n, inner = n + 1 := ⟨inner - 1, by omega⟩
    obtain rfl : p = s.null := ht
    rw [xianDescend, if_neg (not_not.mpr rfl), spine, spineLabels, Out.lines_nil]
  | node x l r ihl _ =>
    obtain ⟨inner, rfl⟩ : ∃ n, inner = n + 1 := ⟨inner - 1, by omega⟩
    obtain ⟨rfl, hne, n, hn, hkey, hval, hl, -⟩ := ht
    simp only [BinaryTree.numNodes] at hinner
    rw [xianDescend, if_pos hne, print_eq hn hkey hval, ok_bind, State.left_eq hn, ok_bind,
      spineLabels, Out.lines_cons o x (spineLabels l)]
    exact ihl hl (by omega) _ _

section Rounds

variable {inner : Nat} {x : Entry T V} {n : Node T V} {K : List Addr}
  {l r : BinaryTree (Entry T V)} {p : Addr}

/-! ## `zhong()` -/

/-- A round that begins on a node is one that begins on its left child. -/
theorem zhongLoop_node (ht : TreeAt s x.addr (node x l r)) (hl : TreeAt s p l)
    (hinner : (node x l r).numNodes < inner) (fuel : Nat) (o : Out T V) :
    zhongLoop s inner (fuel + 1) (x.addr :: K) o =
      zhongLoop s inner (fuel + 1) (p :: x.addr :: K) o := by
  have hl' : l.numNodes < inner := by
    simp only [BinaryTree.numNodes] at hinner
    omega
  simp only [zhongLoop, top, ok_bind, descend_eq ht hinner, descend_eq hl hl', spine]

/-- A node whose left subtree is done is printed, and its right child takes its place. -/
theorem zhongLoop_visit (hinner : 0 < inner) (hn : s.heap.cells x.addr = some n)
    (hkey : n.key = x.key) (hval : n.value = x.value) (fuel : Nat) (o : Out T V) :
    zhongLoop s inner (fuel + 1) (s.null :: x.addr :: K) o =
      zhongLoop s inner fuel (n.right :: K) (o.lines [x]) := by
  have hdescend : descend s inner (s.null :: x.addr :: K) s.null =
      .ok (s.null :: x.addr :: K) :=
    descend_eq (t := nil) rfl hinner _
  simp [zhongLoop, top, pop, hdescend, print_eq hn hkey hval, State.right_eq hn]

/-- With nothing below the finished tree the loop ends. -/
theorem zhongLoop_end (hinner : 0 < inner) (fuel : Nat) (o : Out T V) :
    zhongLoop s inner (fuel + 1) [s.null] o = .ok o := by
  have hdescend : descend s inner [s.null] s.null = .ok [s.null] :=
    descend_eq (t := nil) rfl hinner _
  simp [zhongLoop, top, pop, hdescend]

/-! ## `xian()` -/

/-- A round that begins on a node prints it, and is then one that begins on its left
child. -/
theorem xianLoop_node (ht : TreeAt s x.addr (node x l r)) (hl : TreeAt s p l)
    (hinner : (node x l r).numNodes < inner) (fuel : Nat) (o : Out T V) :
    xianLoop s inner (fuel + 1) (x.addr :: K) o =
      xianLoop s inner (fuel + 1) (p :: x.addr :: K) (o.lines [x]) := by
  have hl' : l.numNodes < inner := by
    simp only [BinaryTree.numNodes] at hinner
    omega
  simp only [xianLoop, top, ok_bind, xianDescend_eq ht hinner, xianDescend_eq hl hl', spine,
    spineLabels, o.lines_cons x (spineLabels l)]

/-- The right child of a node whose left subtree is done takes its place. -/
theorem xianLoop_right (hinner : 0 < inner) (hn : s.heap.cells x.addr = some n) (fuel : Nat)
    (o : Out T V) :
    xianLoop s inner (fuel + 1) (s.null :: x.addr :: K) o =
      xianLoop s inner fuel (n.right :: K) o := by
  have hdescend : xianDescend s inner (s.null :: x.addr :: K) s.null o =
      .ok (s.null :: x.addr :: K, o.lines []) :=
    xianDescend_eq (t := nil) rfl hinner _ _
  simp [xianLoop, top, pop, hdescend, State.right_eq hn]

/-- With nothing below the finished tree the loop ends. -/
theorem xianLoop_end (hinner : 0 < inner) (fuel : Nat) (o : Out T V) :
    xianLoop s inner (fuel + 1) [s.null] o = .ok o := by
  have hdescend : xianDescend s inner [s.null] s.null o = .ok ([s.null], o.lines []) :=
    xianDescend_eq (t := nil) rfl hinner _ _
  simp [xianLoop, top, pop, hdescend]

end Rounds

/-! ## The loops -/

/-- **From a subtree on top of any stack** `zhong()` comes round to `null_` on top of the
same stack, the subtree printed from left to right. -/
theorem zhongLoop_subtree {t : BinaryTree (Entry T V)} {p : Addr} (ht : TreeAt s p t)
    {inner : Nat} (hinner : t.numNodes < inner) (fuel : Nat) (K : List Addr) (o : Out T V) :
    zhongLoop s inner (t.numNodes + (fuel + 1)) (p :: K) o =
      zhongLoop s inner (fuel + 1) (s.null :: K) (o.lines (inorder t)) := by
  induction t generalizing p fuel K o with
  | nil =>
    obtain rfl : p = s.null := ht
    rw [BinaryTree.numNodes, Nat.zero_add, inorder_nil, Out.lines_nil]
  | node x l r ihl ihr =>
    have htree := ht
    obtain ⟨rfl, -, n, hn, hkey, hval, hl, hr⟩ := ht
    have hsize : (node x l r).numNodes = l.numNodes + r.numNodes + 1 := rfl
    have hfuel : (node x l r).numNodes + (fuel + 1) =
        l.numNodes + (r.numNodes + (fuel + 1) + 1) := by omega
    rw [hfuel]
    calc zhongLoop s inner _ (x.addr :: K) o
        = zhongLoop s inner (l.numNodes + (r.numNodes + (fuel + 1) + 1))
            (n.left :: x.addr :: K) o :=
          zhongLoop_node htree hl hinner _ o
      _ = zhongLoop s inner (r.numNodes + (fuel + 1) + 1) (s.null :: x.addr :: K)
            (o.lines (inorder l)) :=
          ihl hl (by omega) _ _ o
      _ = zhongLoop s inner (r.numNodes + (fuel + 1)) (n.right :: K)
            ((o.lines (inorder l)).lines [x]) :=
          zhongLoop_visit (by omega) hn hkey hval _ _
      _ = zhongLoop s inner (fuel + 1) (s.null :: K)
            (((o.lines (inorder l)).lines [x]).lines (inorder r)) :=
          ihr hr (by omega) _ _ _
      _ = _ := by rw [inorder_node, Out.lines_append, Out.lines_cons _ x (inorder r)]

/-- **From a subtree on top of any stack** `xian()` comes round to `null_` on top of the
same stack, the subtree printed with each node before what is below it. -/
theorem xianLoop_subtree {t : BinaryTree (Entry T V)} {p : Addr} (ht : TreeAt s p t)
    {inner : Nat} (hinner : t.numNodes < inner) (fuel : Nat) (K : List Addr) (o : Out T V) :
    xianLoop s inner (t.numNodes + (fuel + 1)) (p :: K) o =
      xianLoop s inner (fuel + 1) (s.null :: K) (o.lines (preorder t)) := by
  induction t generalizing p fuel K o with
  | nil =>
    obtain rfl : p = s.null := ht
    rw [BinaryTree.numNodes, Nat.zero_add, preorder_nil, Out.lines_nil]
  | node x l r ihl ihr =>
    have htree := ht
    obtain ⟨rfl, -, n, hn, hkey, hval, hl, hr⟩ := ht
    have hsize : (node x l r).numNodes = l.numNodes + r.numNodes + 1 := rfl
    have hfuel : (node x l r).numNodes + (fuel + 1) =
        l.numNodes + (r.numNodes + (fuel + 1) + 1) := by omega
    rw [hfuel]
    calc xianLoop s inner _ (x.addr :: K) o
        = xianLoop s inner (l.numNodes + (r.numNodes + (fuel + 1) + 1))
            (n.left :: x.addr :: K) (o.lines [x]) :=
          xianLoop_node htree hl hinner _ o
      _ = xianLoop s inner (r.numNodes + (fuel + 1) + 1) (s.null :: x.addr :: K)
            ((o.lines [x]).lines (preorder l)) :=
          ihl hl (by omega) _ _ _
      _ = xianLoop s inner (r.numNodes + (fuel + 1)) (n.right :: K)
            ((o.lines [x]).lines (preorder l)) :=
          xianLoop_right (by omega) hn _ _
      _ = xianLoop s inner (fuel + 1) (s.null :: K)
            (((o.lines [x]).lines (preorder l)).lines (preorder r)) :=
          ihr hr (by omega) _ _ _
      _ = _ := by rw [preorder_node, Out.lines_cons o x (_ ++ _), Out.lines_append]

/-- From the root `zhong()` prints the tree in order. -/
theorem zhong_spec {t : BinaryTree (Entry T V)} (ht : TreeAt s s.root t) (o : Out T V) :
    Returns (fun fuel => zhong fuel s o) (o.lines (inorder t)) := by
  refine Returns.of_add t.numNodes ?_
  intro rest
  have hinner : t.numNodes < t.numNodes + (rest + 1) := by omega
  exact (zhongLoop_subtree ht hinner rest [] o).trans (zhongLoop_end (by omega) _ _)

/-- From the root `xian()` prints each node before its subtrees. -/
theorem xian_spec {t : BinaryTree (Entry T V)} (ht : TreeAt s s.root t) (o : Out T V) :
    Returns (fun fuel => xian fuel s o) (o.lines (preorder t)) := by
  refine Returns.of_add t.numNodes ?_
  intro rest
  have hinner : t.numNodes < t.numNodes + (rest + 1) := by omega
  exact (xianLoop_subtree ht hinner rest [] o).trans (xianLoop_end (by omega) _ _)

/-! ## The recursions -/

/-- The recursion of `di_zhong()` prints a node between its subtrees. -/
theorem zhongRec_eq {t : BinaryTree (Entry T V)} {p : Addr} (ht : TreeAt s p t) {fuel : Nat}
    (hfuel : t.numNodes < fuel) (o : Out T V) :
    zhongRec s fuel p o = .ok (o.lines (inorder t)) := by
  induction t generalizing p fuel o with
  | nil =>
    obtain ⟨fuel, rfl⟩ : ∃ m, fuel = m + 1 := ⟨fuel - 1, by omega⟩
    obtain rfl : p = s.null := ht
    rw [zhongRec, if_neg (not_not.mpr rfl), inorder_nil, Out.lines_nil]
  | node x l r ihl ihr =>
    obtain ⟨fuel, rfl⟩ : ∃ m, fuel = m + 1 := ⟨fuel - 1, by omega⟩
    obtain ⟨rfl, hne, n, hn, hkey, hval, hl, hr⟩ := ht
    simp only [BinaryTree.numNodes] at hfuel
    rw [zhongRec, if_pos hne, State.left_eq hn, ok_bind, ihl hl (by omega), ok_bind,
      print_eq hn hkey hval, ok_bind, State.right_eq hn, ok_bind, ihr hr (by omega),
      inorder_node, Out.lines_append, Out.lines_cons _ x (inorder r)]

/-- That of `di_xian()` prints it before them. -/
theorem xianRec_eq {t : BinaryTree (Entry T V)} {p : Addr} (ht : TreeAt s p t) {fuel : Nat}
    (hfuel : t.numNodes < fuel) (o : Out T V) :
    xianRec s fuel p o = .ok (o.lines (preorder t)) := by
  induction t generalizing p fuel o with
  | nil =>
    obtain ⟨fuel, rfl⟩ : ∃ m, fuel = m + 1 := ⟨fuel - 1, by omega⟩
    obtain rfl : p = s.null := ht
    rw [xianRec, if_neg (not_not.mpr rfl), preorder_nil, Out.lines_nil]
  | node x l r ihl ihr =>
    obtain ⟨fuel, rfl⟩ : ∃ m, fuel = m + 1 := ⟨fuel - 1, by omega⟩
    obtain ⟨rfl, hne, n, hn, hkey, hval, hl, hr⟩ := ht
    simp only [BinaryTree.numNodes] at hfuel
    rw [xianRec, if_pos hne, print_eq hn hkey hval, ok_bind, State.left_eq hn, ok_bind,
      ihl hl (by omega), ok_bind, State.right_eq hn, ok_bind, ihr hr (by omega), preorder_node,
      Out.lines_cons o x (_ ++ _), Out.lines_append]

theorem diZhong_spec {t : BinaryTree (Entry T V)} (ht : TreeAt s s.root t) (o : Out T V) :
    Returns (fun fuel => diZhong fuel s o) (o.lines (inorder t)) :=
  Returns.of_lt t.numNodes fun _ hfuel => zhongRec_eq ht hfuel o

theorem diXian_spec {t : BinaryTree (Entry T V)} (ht : TreeAt s s.root t) (o : Out T V) :
    Returns (fun fuel => diXian fuel s o) (o.lines (preorder t)) :=
  Returns.of_lt t.numNodes fun _ hfuel => xianRec_eq ht hfuel o

/-! ## The loops are the recursions -/

/-- What a traversal prints of a tree: each node once, the sentinel never. -/
structure Visits (s : State T V) (t : BinaryTree (Entry T V)) (xs : List (Entry T V)) :
    Prop where
  entries : xs.Perm (inorder t)
  distinct : (xs.map Entry.addr).Nodup
  sentinel : s.null ∉ xs.map Entry.addr

variable [Inhabited T] [Inhabited V]

/-- Any order of the tree's nodes is a visit of each of them. -/
theorem SentinelTree.visits {t : BinaryTree (Entry T V)} (h : SentinelTree s t)
    {xs : List (Entry T V)} (hperm : xs.Perm (inorder t)) : Visits s t xs where
  entries := hperm
  distinct := (hperm.map _).nodup_iff.mpr h.distinct
  sentinel := h.null_not_mem hperm

/-- **`zhong()` is `di_zhong()`**: on every tree both end and print the same pairs, those
of the nodes of the tree, each node being visited once and the sentinel never. In every
reachable state the pairs are the bindings of the map in strictly ascending key order, and
the nodes visited those reached from `root_`. -/
theorem zhong_eq_diZhong [LinearOrder T] :
    (∀ (s : State T V) (t : BinaryTree (Entry T V)), SentinelTree s t → ∀ o : Out T V,
      ∃ xs, Visits s t xs ∧ Returns (fun fuel => zhong fuel s o) (o.lines xs) ∧
        Returns (fun fuel => diZhong fuel s o) (o.lines xs)) ∧
    ∀ ops : List (Op T V), (∃ s, Run ops s) ∧ ∀ s, Run ops s → ∀ o : Out T V,
      ∃ xs, Returns (fun fuel => zhong fuel s o) (o.lines xs) ∧
        (xs.map Entry.pair).Pairwise (fun b c => b.1 < c.1) ∧ (xs.map Entry.addr).Nodup ∧
        (∀ a, a ∈ xs.map Entry.addr ↔ Reach s s.root a) ∧
        ∀ k v, (k, v) ∈ xs.map Entry.pair ↔ mapOf ops k = some v := by
  refine ⟨?_, fun ops => ⟨exists_run ops, ?_⟩⟩
  · intro s t h o
    exact ⟨inorder t, h.visits (List.Perm.refl _), zhong_spec h.root o, diZhong_spec h.root o⟩
  · intro s hrun o
    obtain ⟨t, hholds⟩ := hrun.holds
    have hrep := hholds.represents
    refine ⟨inorder t, zhong_spec hrep.treeAt_root o, ?_, hrep.sentinelTree.distinct,
      fun a => hrep.reach_root_iff.symm, hholds.binds.mem_pairs⟩
    exact List.pairwise_map.mpr ((ordered_iff Entry.key).mp hholds.ordered)

/-- **`xian()` is `di_xian()`**: on every tree both end and print the same pairs, those of
the nodes of the tree, each node being visited once and the sentinel never. -/
theorem xian_eq_diXian {t : BinaryTree (Entry T V)} (h : SentinelTree s t) (o : Out T V) :
    ∃ xs, Visits s t xs ∧ Returns (fun fuel => xian fuel s o) (o.lines xs) ∧
      Returns (fun fuel => diXian fuel s o) (o.lines xs) :=
  ⟨preorder t, h.visits (preorder_perm t), xian_spec h.root o, diXian_spec h.root o⟩

/-- The tree of the test, with the last three of its keys. -/
theorem xian_eq_diXian_run : ∃ s : State Nat Nat,
    Run [.insert 8 8, .insert 574 574, .insert 89 89] s ∧ ∃ xs,
      Returns (fun fuel => xian fuel s ⟨[], [], [], []⟩) (Out.lines ⟨[], [], [], []⟩ xs) ∧
      Returns (fun fuel => diXian fuel s ⟨[], [], [], []⟩) (Out.lines ⟨[], [], [], []⟩ xs) := by
  obtain ⟨s, hrun⟩ := exists_run (T := Nat) (V := Nat)
    [.insert 8 8, .insert 574 574, .insert 89 89]
  obtain ⟨t, hholds⟩ := hrun.holds
  obtain ⟨xs, -, hxian, hdi⟩ :=
    xian_eq_diXian hholds.represents.sentinelTree ⟨[], [], [], []⟩
  exact ⟨s, hrun, xs, hxian, hdi⟩

/-- What both loops print for four of the keys of the test. -/
example : (do
    let s ← construct (T := Nat) (V := Nat) Heap.empty
    let (_, s) ← insert 9 6 6 s
    let (_, s) ← insert 9 2 2 s
    let (_, s) ← insert 9 55 55 s
    let (_, s) ← insert 9 13 13 s
    let o ← zhong 20 s ⟨[], [], [], []⟩
    let o' ← xian 20 s ⟨[], [], [], []⟩
    return (o.cout, o'.cout)) =
      .ok ([(2, 2), (6, 6), (13, 13), (55, 55)], [(6, 6), (2, 2), (55, 55), (13, 13)]) := by
  decide

end BstGenerator.Bst
