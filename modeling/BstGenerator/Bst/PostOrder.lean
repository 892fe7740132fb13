import BstGenerator.Bst.Runs
import BstGenerator.Bst.Traversal

/-!
# Post-order: the loop is the recursion

The stack of `hou()` holds real nodes, missing children, markers and finished nodes,
and all but the first are the same pointer. What keeps them apart is position: with a
subtree on top of any stack `K`, the loop comes round to a sentinel that is *not* a
marker on top of the same `K`, having visited the subtree in post-order on the way
(`houMarkedLoop_subtree`). The sentinel below that one, if any, is then a marker.

- `houMarkedLoop_erase`: where the loop with roles ends, the loop does the same.
- `hou_spec`, `houMarked_spec`, `diHou_spec`: each visits the tree in post-order.
- `hou_eq_diHou`: hence what the two traversals append is the same.
-/

namespace BstGenerator.Bst

open Machine Memory Trees
open BinaryTree (nil node)

variable {T V : Type} {s : State T V}

/-! ## Roles can be erased -/

section Erasure

variable {α β : Type} (f : α → β) {st st' : List α} {c : α}

/-- An item's role is a note of ours: without the roles the stack's operations give the same
addresses. -/
theorem top_map (h : top st = .ok c) : top (st.map f) = .ok (f c) := by
  cases st with
  | nil => cases h
  | cons d st =>
    cases h
    rfl

theorem pop_map (h : pop st = .ok st') : pop (st.map f) = .ok (st'.map f) := by
  cases st with
  | nil => cases h
  | cons d st =>
    cases h
    rfl

theorem setTop_map (h : setTop c st = .ok st') :
    setTop (f c) (st.map f) = .ok (st'.map f) := by
  cases st with
  | nil => cases h
  | cons d st =>
    cases h
    rfl

end Erasure

/-- The descent ends with the same stack, but for the roles. -/
theorem descendMarked_erase {inner : Nat} {st st' : List Item} {c : Item}
    (h : descendMarked s inner st c = .ok st') :
    descend s inner (st.map Item.addr) c.addr = .ok (st'.map Item.addr) := by
  induction inner generalizing st c with
  | zero => cases h
  | succ inner ih =>
    simp only [descendMarked, descend] at h ⊢
    by_cases hc : c.addr = s.null
    · rw [if_neg (not_not.mpr hc)] at h ⊢
      cases h
      rfl
    · rw [if_pos hc] at h ⊢
      simp only [bind_eq_ok] at h
      obtain ⟨-, -, l, hl, d, hd, hrest⟩ := h
      rw [hl, ok_bind]
      exact bind_eq_ok.mpr ⟨_, top_map Item.addr hd, ih hrest⟩

/-- **Where the loop with roles ends, the loop of `hou()` ends with the same.** -/
theorem houMarkedLoop_erase {inner fuel : Nat} {st : List Item} {o o' : Out T V}
    (h : houMarkedLoop s inner fuel st o = .ok o') :
    houLoop s inner fuel (st.map Item.addr) o = .ok o' := by
  induction fuel generalizing st o with
  | zero => cases h
  | succ fuel ih =>
    -- the checks of roles are the steps without a counterpart in `houLoop`
    simp only [houMarkedLoop, bind_eq_ok] at h
    obtain ⟨c, hc, st₁, hst₁, -, -, -, -, st₂, hst₂, h⟩ := h
    simp only [houLoop, top_map Item.addr hc, descendMarked_erase hst₁, pop_map Item.addr hst₂,
      ok_bind, List.isEmpty_map]
    split at h
    · rw [if_pos ‹_›]
      exact h
    · rw [if_neg ‹_›]
      simp only [bind_eq_ok] at h ⊢
      obtain ⟨d, hd, h⟩ := h
      refine ⟨d.addr, top_map Item.addr hd, ?_⟩
      split at h
      · rw [if_pos ‹_›]
        simp only [bind_eq_ok] at h ⊢
        obtain ⟨-, -, st₃, hst₃, x, hx, -, -, st₄, hst₄, o₁, ho₁, n, hn, h⟩ := h
        exact ⟨_, pop_map Item.addr hst₃, _, top_map Item.addr hx, _,
          setTop_map Item.addr hst₄, o₁, ho₁, n, hn, ih h⟩
      · rw [if_neg ‹_›]
        simp only [bind_eq_ok] at h ⊢
        obtain ⟨-, -, r, hr, h⟩ := h
        exact ⟨r, hr, ih h⟩

/-! ## What a traversal adds -/

/-- The output after `hou()` has visited the entries `xs`. -/
def Out.hou (o : Out T V) (xs : List (Entry T V)) : Out T V :=
  { o with
    cout := o.cout ++ xs.map Entry.pair
    v := o.v ++ xs.map Entry.pair
    visited := o.visited ++ xs.map Entry.addr }

/-- The output after `hou(Node *)` has visited the entries `xs`. -/
def Out.diHou (o : Out T V) (xs : List (Entry T V)) : Out T V :=
  { o with
    cout := o.cout ++ xs.map Entry.pair
    diV := o.diV ++ xs.map Entry.pair
    visited := o.visited ++ xs.map Entry.addr }

@[simp] theorem Out.hou_nil (o : Out T V) : o.hou [] = o := by
  simp [Out.hou]

theorem Out.hou_append (o : Out T V) (xs ys : List (Entry T V)) :
    o.hou (xs ++ ys) = (o.hou xs).hou ys := by
  simp [Out.hou]

@[simp] theorem Out.diHou_nil (o : Out T V) : o.diHou [] = o := by
  simp [Out.diHou]

theorem Out.diHou_append (o : Out T V) (xs ys : List (Entry T V)) :
    o.diHou (xs ++ ys) = (o.diHou xs).diHou ys := by
  simp [Out.diHou]

/-! ## The loop -/

/-- The stack after the descent from a subtree on top of `K`: the nodes down its left
spine and the missing child at its end. -/
def leftSpine (null : Addr) : BinaryTree (Entry T V) → List Item → List Item
  | .nil, K => ⟨null, .child⟩ :: K
  | .node x l _, K => leftSpine null l (⟨x.addr, .child⟩ :: K)

/-- The descent goes down the left spine of a subtree, and ends on the sentinel. -/
theorem descendMarked_eq {t : BinaryTree (Entry T V)} {p : Addr} (ht : TreeAt s p t)
    {inner : Nat} (hinner : t.numNodes < inner) (K : List Item) :
    descendMarked s inner (⟨p, .child⟩ :: K) ⟨p, .child⟩ = .ok (leftSpine s.null t K) := by
  induction t generalizing p inner K with
  | nil =>
    obtain ⟨inner, rfl⟩ : ∃ n, inner = n + 1 := ⟨inner - 1, by omega⟩
    obtain rfl : p = s.null := ht
    rw [descendMarked, if_neg (not_not.mpr rfl)]
    rfl
  | node x l r ihl _ =>
    obtain ⟨inner, rfl⟩ : ∃ n, inner = n + 1 := ⟨inner - 1, by omega⟩
    obtain ⟨rfl, hne, n, hn, -, -, hl, -⟩ := ht
    simp only [BinaryTree.numNodes] at hinner
    rw [descendMarked, if_pos hne]
    show (s.left x.addr >>= _) = _
    rw [State.left_eq hn]
    exact ihl hl (by omega) _

section Rounds

variable {inner : Nat} {x : Entry T V} {n : Node T V} {K : List Item} {ρ : Role}

/-- A round that begins on a node is one that begins on its left child. -/
theorem houMarkedLoop_node {l r : BinaryTree (Entry T V)} {p : Addr}
    (ht : TreeAt s x.addr (node x l r)) (hl : TreeAt s p l)
    (hinner : (node x l r).numNodes < inner) (fuel : Nat) (o : Out T V) :
    houMarkedLoop s inner (fuel + 1) (⟨x.addr, .child⟩ :: K) o =
      houMarkedLoop s inner (fuel + 1) (⟨p, .child⟩ :: ⟨x.addr, .child⟩ :: K) o := by
  have hl' : l.numNodes < inner := by
    simp only [BinaryTree.numNodes] at hinner
    omega
  have hx := descendMarked_eq ht hinner K
  have hp := descendMarked_eq hl hl' (⟨x.addr, .child⟩ :: K)
  simp only [houMarkedLoop, top, ok_bind, hx, hp, leftSpine]

/-- On a sentinel there is nothing to descend. -/
theorem descendMarked_null (hinner : 0 < inner) (st : List Item) :
    descendMarked s inner st ⟨s.null, ρ⟩ = .ok st := by
  obtain ⟨inner, rfl⟩ : ∃ m, inner = m + 1 := ⟨inner - 1, by omega⟩
  rw [descendMarked, if_neg (not_not.mpr rfl)]

theorem Item.takenFor_of_mem (it : Item) {roles : List Role} (h : it.role ∈ roles) :
    it.takenFor roles = .ok () := if_pos h

/-- Below a finished subtree lies a node: its right child is next, above a marker. -/
theorem houMarkedLoop_right (hinner : 0 < inner) (hρ : ρ ∈ [Role.child, .finished])
    (hn : s.heap.cells x.addr = some n) (hx : x.addr ≠ s.null) (fuel : Nat) (o : Out T V) :
    houMarkedLoop s inner (fuel + 1) (⟨s.null, ρ⟩ :: ⟨x.addr, .child⟩ :: K) o =
      houMarkedLoop s inner fuel
        (⟨n.right, .child⟩ :: ⟨s.null, .marker⟩ :: ⟨x.addr, .child⟩ :: K) o := by
  have htop := Item.takenFor_of_mem ⟨s.null, ρ⟩ hρ
  have hnode : (⟨x.addr, .child⟩ : Item).takenFor [.child] = .ok () :=
    Item.takenFor_of_mem _ (List.mem_singleton_self _)
  simp [houMarkedLoop, top, pop, descendMarked_null hinner, htop, hx, hnode, State.right_eq hn]

/-- Below a finished subtree lies a marker: the node under it is visited. -/
theorem houMarkedLoop_visit (hinner : 0 < inner) (hρ : ρ ∈ [Role.child, .finished])
    (hn : s.heap.cells x.addr = some n) (hkey : n.key = x.key) (hval : n.value = x.value)
    (fuel : Nat) (o : Out T V) :
    houMarkedLoop s inner (fuel + 1)
        (⟨s.null, ρ⟩ :: ⟨s.null, .marker⟩ :: ⟨x.addr, .child⟩ :: K) o =
      houMarkedLoop s inner fuel (⟨s.null, .finished⟩ :: K) (o.hou [x]) := by
  have htop := Item.takenFor_of_mem ⟨s.null, ρ⟩ hρ
  have hmarker : (⟨s.null, .marker⟩ : Item).takenFor [.marker] = .ok () :=
    Item.takenFor_of_mem _ (List.mem_singleton_self _)
  have hnode : (⟨x.addr, .child⟩ : Item).takenFor [.child] = .ok () :=
    Item.takenFor_of_mem _ (List.mem_singleton_self _)
  have hread : s.node x.addr = .ok n := by
    simp only [State.node, hn]
  simp [houMarkedLoop, top, pop, setTop, descendMarked_null hinner, htop, hmarker, hnode, print,
    hread, hkey, hval, Out.hou, Entry.pair]

/-- With nothing below the finished tree the loop ends. -/
theorem houMarkedLoop_end (hinner : 0 < inner) (hρ : ρ ∈ [Role.child, .finished])
    (fuel : Nat) (o : Out T V) :
    houMarkedLoop s inner (fuel + 1) [⟨s.null, ρ⟩] o = .ok o := by
  have htop := Item.takenFor_of_mem ⟨s.null, ρ⟩ hρ
  simp [houMarkedLoop, top, pop, descendMarked_null hinner, htop]

end Rounds

/-- **From a subtree on top of any stack** the loop comes round to a sentinel on top of
the same stack that is no marker, two rounds for each node later, and has visited the
subtree in post-order. -/
theorem houMarkedLoop_subtree {t : BinaryTree (Entry T V)} {p : Addr} (ht : TreeAt s p t)
    {inner : Nat} (hinner : t.numNodes < inner) :
    ∃ ρ ∈ [Role.child, .finished], ∀ fuel K o,
      houMarkedLoop s inner (2 * t.numNodes + (fuel + 1)) (⟨p, .child⟩ :: K) o =
        houMarkedLoop s inner (fuel + 1) (⟨s.null, ρ⟩ :: K) (o.hou (postorder t)) := by
  induction t generalizing p with
  | nil =>
    obtain rfl : p = s.null := ht
    refine ⟨.child, by simp, ?_⟩
    intro fuel K o
    rw [BinaryTree.numNodes, Nat.mul_zero, Nat.zero_add, postorder_nil, Out.hou_nil]
  | node x l r ihl ihr =>
    have htree := ht
    obtain ⟨rfl, hne, n, hn, hkey, hval, hl, hr⟩ := ht
    have hsize : (node x l r).numNodes = l.numNodes + r.numNodes + 1 := rfl
    obtain ⟨ρl, hρl, hleft⟩ := ihl hl (by omega)
    obtain ⟨ρr, hρr, hright⟩ := ihr hr (by omega)
    refine ⟨.finished, by simp, ?_⟩
    intro fuel K o
    have hpos : 0 < inner := by omega
    have hfuel : 2 * (node x l r).numNodes + (fuel + 1) =
        2 * l.numNodes + (2 * r.numNodes + (fuel + 1 + 1) + 1) := by omega
    rw [hfuel]
    -- a finished subtree leaves a sentinel on the stack: first the left one does, above the
    -- node, and then the right one, above the marker
    calc houMarkedLoop s inner _ (⟨x.addr, .child⟩ :: K) o
        = houMarkedLoop s inner (2 * l.numNodes + (2 * r.numNodes + (fuel + 1 + 1) + 1))
            (⟨n.left, .child⟩ :: ⟨x.addr, .child⟩ :: K) o :=
          houMarkedLoop_node htree hl hinner _ o
      _ = houMarkedLoop s inner (2 * r.numNodes + (fuel + 1 + 1) + 1)
            (⟨s.null, ρl⟩ :: ⟨x.addr, .child⟩ :: K) (o.hou (postorder l)) :=
          hleft _ _ o
      _ = houMarkedLoop s inner (2 * r.numNodes + (fuel + 1 + 1))
            (⟨n.right, .child⟩ :: ⟨s.null, .marker⟩ :: ⟨x.addr, .child⟩ :: K)
            (o.hou (postorder l)) :=
          houMarkedLoop_right hpos hρl hn hne _ _
      _ = houMarkedLoop s inner (fuel + 1 + 1)
            (⟨s.null, ρr⟩ :: ⟨s.null, .marker⟩ :: ⟨x.addr, .child⟩ :: K)
            ((o.hou (postorder l)).hou (postorder r)) :=
          hright _ _ _
      _ = houMarkedLoop s inner (fuel + 1) (⟨s.null, .finished⟩ :: K)
            (((o.hou (postorder l)).hou (postorder r)).hou [x]) :=
          houMarkedLoop_visit hpos hρr hn hkey hval _ _
      _ = _ := by rw [postorder_node, Out.hou_append, Out.hou_append]

/-- From the root, with nothing below it, the loop with roles visits the whole tree. -/
theorem houMarked_spec {t : BinaryTree (Entry T V)} (ht : TreeAt s s.root t) (o : Out T V) :
    Returns (fun fuel => houMarked fuel s o) (o.hou (postorder t)) := by
  refine Returns.of_add (2 * t.numNodes) ?_
  intro rest
  have hinner : t.numNodes < 2 * t.numNodes + (rest + 1) := by omega
  obtain ⟨ρ, hρ, hsub⟩ := houMarkedLoop_subtree ht hinner
  exact (hsub rest [] o).trans (houMarkedLoop_end (by omega) hρ _ _)

/-- So the loop of the source does, whose stack has no roles. -/
theorem hou_spec {t : BinaryTree (Entry T V)} (ht : TreeAt s s.root t) (o : Out T V) :
    Returns (fun fuel => hou fuel s o) (o.hou (postorder t)) := by
  obtain ⟨N, hN⟩ := houMarked_spec ht o
  exact ⟨N, fun fuel hfuel => houMarkedLoop_erase (hN fuel hfuel)⟩

/-! ## The recursion -/

/-- The recursion visits both subtrees and then the node. It goes no deeper than there are
nodes, and one call more for the sentinel. -/
theorem houRec_eq {t : BinaryTree (Entry T V)} {p : Addr} (ht : TreeAt s p t) {fuel : Nat}
    (hfuel : t.numNodes < fuel) (o : Out T V) :
    houRec s fuel p o = .ok (o.diHou (postorder t)) := by
  induction t generalizing p fuel o with
  | nil =>
    obtain ⟨fuel, rfl⟩ : ∃ m, fuel = m + 1 := ⟨fuel - 1, by omega⟩
    obtain rfl : p = s.null := ht
    rw [houRec, if_neg (not_not.mpr rfl), postorder_nil, Out.diHou_nil]
  | node x l r ihl ihr =>
    obtain ⟨fuel, rfl⟩ : ∃ m, fuel = m + 1 := ⟨fuel - 1, by omega⟩
    obtain ⟨rfl, hne, n, hn, hkey, hval, hl, hr⟩ := ht
    simp only [BinaryTree.numNodes] at hfuel
    have hnode : s.node x.addr = .ok n := by
      simp only [State.node, hn]
    rw [houRec, if_pos hne, State.left_eq hn, ok_bind, ihl hl (by omega), ok_bind,
      State.right_eq hn, ok_bind, ihr hr (by omega), ok_bind, postorder_node,
      Out.diHou_append, Out.diHou_append]
    simp [print, hnode, hkey, hval, Out.diHou, Entry.pair]

/-- So `di_hou()` ends, and visits the tree in the same order. -/
theorem diHou_spec {t : BinaryTree (Entry T V)} (ht : TreeAt s s.root t) (o : Out T V) :
    Returns (fun fuel => diHou fuel s o) (o.diHou (postorder t)) :=
  Returns.of_lt t.numNodes fun _ hfuel => houRec_eq ht hfuel o

/-! ## Both traversals -/

variable [Inhabited T] [Inhabited V]

/-- A listing of the nodes of the tree does not list the sentinel. -/
theorem SentinelTree.null_not_mem {t : BinaryTree (Entry T V)} (h : SentinelTree s t)
    {xs : List (Entry T V)} (hperm : xs.Perm (inorder t)) : s.null ∉ xs.map Entry.addr := by
  intro hmem
  obtain ⟨x, hx, heq⟩ := List.mem_map.mp hmem
  exact h.root.ne_null (hperm.mem_iff.mp hx) heq

/-- **`hou()` is `di_hou()`**: on every tree both end, the loop with roles as well, so
that no marker is mistaken for a missing child, and they append the same pairs, those
of the nodes of the tree, each node being visited once and the sentinel never. -/
theorem hou_eq_diHou {t : BinaryTree (Entry T V)} (h : SentinelTree s t) (o : Out T V) :
    ∃ xs : List (Entry T V), xs.Perm (inorder t) ∧ (xs.map Entry.addr).Nodup ∧
      s.null ∉ xs.map Entry.addr ∧
      Returns (fun fuel => hou fuel s o) (o.hou xs) ∧
      Returns (fun fuel => houMarked fuel s o) (o.hou xs) ∧
      Returns (fun fuel => diHou fuel s o) (o.diHou xs) := by
  have hperm := postorder_perm t
  exact ⟨postorder t, hperm, (hperm.map _).nodup_iff.mpr h.distinct, h.null_not_mem hperm,
    hou_spec h.root o, houMarked_spec h.root o, diHou_spec h.root o⟩

/-- The tree of the test, with its first three keys. -/
theorem hou_eq_diHou_run : ∃ s : State Nat Nat,
    Run [.insert 1 1, .insert 2 2, .insert 6 6] s ∧ ∃ xs,
      Returns (fun fuel => hou fuel s ⟨[], [], [], []⟩) (Out.hou ⟨[], [], [], []⟩ xs) ∧
      Returns (fun fuel => diHou fuel s ⟨[], [], [], []⟩) (Out.diHou ⟨[], [], [], []⟩ xs) := by
  obtain ⟨s, hrun⟩ := exists_run (T := Nat) (V := Nat) [.insert 1 1, .insert 2 2, .insert 6 6]
  obtain ⟨t, hholds⟩ := hrun.holds
  obtain ⟨xs, -, -, -, hhou, -, hdi⟩ :=
    hou_eq_diHou hholds.represents.sentinelTree ⟨[], [], [], []⟩
  exact ⟨s, hrun, xs, hhou, hdi⟩

/-- The two vectors for four of the keys of the test. -/
example : (do
    let s ← construct (T := Nat) (V := Nat) Heap.empty
    let (_, s) ← insert 9 6 6 s
    let (_, s) ← insert 9 2 2 s
    let (_, s) ← insert 9 55 55 s
    let (_, s) ← insert 9 13 13 s
    let o ← hou 20 s ⟨[], [], [], []⟩
    let o ← diHou 20 s o
    return (o.v, o.diV)) =
      .ok ([(2, 2), (13, 13), (55, 55), (6, 6)], [(2, 2), (13, 13), (55, 55), (6, 6)]) := by
  decide

end BstGenerator.Bst
