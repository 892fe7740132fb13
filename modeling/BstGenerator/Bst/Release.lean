import BstGenerator.Bst.Runs

/-!
# The destructor

`release` (test_bst.cpp:105–124) takes the tree apart breadth first. Its queue is
a *forest*: the roots of subtrees that are pairwise disjoint, not empty, and cover
every node that is left, which is what `Heap.Is` says of the sum of their layouts.
Taking the first tree of the forest apart leaves its nonempty subtrees at the back.

- `releaseLoop_spec`: the loop deletes exactly the nodes of the forest.
- `release_spec`: `release` deletes the nodes of the tree and then the sentinel, and
  leaves the rest `R` of the heap alone.
- `destroyed_once`: the ledger of a whole run, from the constructor to the destructor.
-/

namespace BstGenerator.Bst

open Machine Memory Trees
open BinaryTree (nil node)

variable {T V : Type}

/-! ## Forests -/

/-- A subtree as a forest: no tree if it is missing. -/
def present : BinaryTree (Entry T V) → List (BinaryTree (Entry T V))
  | .nil => []
  | .node x l r => [.node x l r]

/-- The cells a forest occupies. -/
def forestLayout (null : Addr) (ts : List (BinaryTree (Entry T V))) :
    Multiset (Addr × Node T V) :=
  (ts.map (layout null)).sum

/-- The number of nodes of a forest. -/
def forestSize (ts : List (BinaryTree (Entry T V))) : Nat := (ts.map BinaryTree.numNodes).sum

theorem forestLayout_cons (null : Addr) (t : BinaryTree (Entry T V))
    (ts : List (BinaryTree (Entry T V))) :
    forestLayout null (t :: ts) = layout null t + forestLayout null ts := by
  simp [forestLayout]

theorem forestLayout_append (null : Addr) (ts us : List (BinaryTree (Entry T V))) :
    forestLayout null (ts ++ us) = forestLayout null ts + forestLayout null us := by
  simp [forestLayout]

theorem forestLayout_present (null : Addr) (t : BinaryTree (Entry T V)) :
    forestLayout null (present t) = layout null t := by
  cases t <;> simp [present, forestLayout]

theorem forestSize_append (ts us : List (BinaryTree (Entry T V))) :
    forestSize (ts ++ us) = forestSize ts + forestSize us := by
  simp [forestSize]

theorem forestSize_present (t : BinaryTree (Entry T V)) :
    forestSize (present t) = t.numNodes := by
  cases t <;> simp [present, forestSize]

theorem flatMap_present (t : BinaryTree (Entry T V)) : (present t).flatMap addrs = addrs t := by
  cases t with
  | nil => rfl
  | node x l r => exact List.append_nil _

theorem ne_nil_of_mem_present {t u : BinaryTree (Entry T V)} (hu : u ∈ present t) :
    u ≠ nil := by
  cases t with
  | nil => cases hu
  | node x l r =>
    rw [List.mem_singleton.mp hu]
    exact fun he => nomatch he

section Next

variable {x : Entry T V} {l r : BinaryTree (Entry T V)} {ts : List (BinaryTree (Entry T V))}

/-- Taking the first tree apart leaves a forest of trees. -/
theorem next_ne_nil (hne : ∀ t ∈ node x l r :: ts, t ≠ nil) :
    ∀ u ∈ ts ++ present l ++ present r, u ≠ nil := by
  intro u hu
  rcases List.mem_append.mp hu with hu | hu
  · rcases List.mem_append.mp hu with hu | hu
    · exact hne u (List.mem_cons_of_mem _ hu)
    · exact ne_nil_of_mem_present hu
  · exact ne_nil_of_mem_present hu

/-- It leaves one node fewer. -/
theorem forestSize_next :
    forestSize (node x l r :: ts) = forestSize (ts ++ present l ++ present r) + 1 := by
  rw [forestSize_append, forestSize_append, forestSize_present, forestSize_present]
  simp only [forestSize, List.map_cons, List.sum_cons, BinaryTree.numNodes]
  omega

/-- It leaves the other addresses. -/
theorem flatMap_next :
    (x.addr :: (ts ++ present l ++ present r).flatMap addrs).Perm
      ((node x l r :: ts).flatMap addrs) := by
  have hroot : (x.addr :: (addrs l ++ addrs r)).Perm (addrs (node x l r)) := by
    simp only [addrs, inorder_node, List.map_append, List.map_cons]
    exact List.perm_middle.symm
  rw [List.flatMap_append, List.flatMap_append, flatMap_present, flatMap_present,
    List.append_assoc]
  exact (List.perm_append_comm.cons _).trans (hroot.append_right _)

end Next

variable [Inhabited T] [Inhabited V]

/-- Pushing the pointer to a subtree unless it is `null_`. -/
theorem push_present {h : Heap (Node T V)} (null : Addr) {t : BinaryTree (Entry T V)}
    {R : Multiset (Addr × Node T V)}
    (hIs : h.Is (layout null t + ({(null, sentinel null)} + R))) (q : List Addr) :
    (if ptr null t ≠ null then q ++ [ptr null t] else q) = q ++ (present t).map (ptr null) := by
  cases t with
  | nil => simp [present]
  | node x l r =>
    have hne : x.addr ≠ null := by
      rintro rfl
      refine (hIs.congr (by rw [layout_node, add_assoc])).not_mem_frame ?_
      simp
    exact if_pos hne

/-- One round of the loop: the front node is deleted and its subtrees join the
forest. -/
theorem releaseLoop_cons {s : State T V} {R : Multiset (Addr × Node T V)} {x : Entry T V}
    {l r : BinaryTree (Entry T V)} {ts : List (BinaryTree (Entry T V))}
    (hIs : s.heap.Is (forestLayout s.null (node x l r :: ts) +
      ({(s.null, sentinel s.null)} + R))) :
    ∃ h', (∀ fuel, releaseLoop (fuel + 1) ((node x l r :: ts).map (ptr s.null)) s =
        releaseLoop fuel ((ts ++ present l ++ present r).map (ptr s.null))
          { s with heap := h' }) ∧
      h'.Is (forestLayout s.null (ts ++ present l ++ present r) +
        ({(s.null, sentinel s.null)} + R)) ∧
      h'.log = s.heap.log ++ [.delete x.addr] := by
  have hcell : s.heap.Is ({(x.addr, x.toNode (ptr s.null l) (ptr s.null r))} +
      (forestLayout s.null ts + layout s.null l + layout s.null r +
        ({(s.null, sentinel s.null)} + R))) := by
    refine hIs.congr ?_
    rw [forestLayout_cons, layout_node]
    ac_rfl
  have hl := push_present s.null (t := l)
    (R := {(x.addr, x.toNode (ptr s.null l) (ptr s.null r))} +
      (forestLayout s.null ts + layout s.null r + R)) (hcell.congr (by ac_rfl))
  have hr := push_present s.null (t := r)
    (R := {(x.addr, x.toNode (ptr s.null l) (ptr s.null r))} +
      (forestLayout s.null ts + layout s.null l + R)) (hcell.congr (by ac_rfl))
  obtain ⟨h', hdel, hIs', hlog'⟩ := State.delete_cell hcell
  refine ⟨h', fun fuel => ?_, hIs'.congr ?_, hlog'⟩
  · have hleft : s.left x.addr = .ok (ptr s.null l) := State.left_eq hcell.read
    have hright : s.right x.addr = .ok (ptr s.null r) := State.right_eq hcell.read
    simp only [List.map_cons, List.map_append, ptr_node, releaseLoop, hleft, hright, ok_bind,
      hl, hr, hdel]
  · rw [forestLayout_append, forestLayout_append, forestLayout_present, forestLayout_present]

/-- **The loop of `release`** on a forest deletes its nodes, each once, and ends. -/
theorem releaseLoop_spec {s : State T V} {R : Multiset (Addr × Node T V)}
    {ts : List (BinaryTree (Entry T V))} (hne : ∀ t ∈ ts, t ≠ nil)
    (hIs : s.heap.Is (forestLayout s.null ts + ({(s.null, sentinel s.null)} + R))) :
    ∃ h', ∃ order : List Addr,
      (∀ fuel, forestSize ts ≤ fuel →
        releaseLoop fuel (ts.map (ptr s.null)) s = .ok { s with heap := h' }) ∧
      h'.Is ({(s.null, sentinel s.null)} + R) ∧ h'.log = s.heap.log ++ order.map .delete ∧
      order.Perm (ts.flatMap addrs) := by
  -- induction on the nodes in the forest: a round takes one off, although the queue may grow
  induction hn : forestSize ts generalizing ts s with
  | zero =>
    cases ts with
    | nil =>
      refine ⟨s.heap, [], fun fuel _ => ?_, hIs.congr (zero_add _), (List.append_nil _).symm,
        List.Perm.refl _⟩
      cases fuel <;> rfl
    | cons t ts =>
      cases t with
      | nil => exact absurd rfl (hne _ (List.mem_cons_self ..))
      | node x l r => simp [forestSize] at hn
  | succ n ih =>
    cases ts with
    | nil => simp [forestSize] at hn
    | cons t ts =>
      cases t with
      | nil => exact absurd rfl (hne _ (List.mem_cons_self ..))
      | node x l r =>
        have hsize : forestSize (ts ++ present l ++ present r) = n :=
          Nat.succ.inj (forestSize_next.symm.trans hn)
        obtain ⟨h₁, hstep, hIs₁, hlog₁⟩ := releaseLoop_cons hIs
        obtain ⟨h₂, order, hloop, hIs₂, hlog₂, hperm⟩ :=
          ih (s := { s with heap := h₁ }) (next_ne_nil hne) hIs₁ hsize
        refine ⟨h₂, x.addr :: order, ?_, hIs₂, ?_, (hperm.cons _).trans flatMap_next⟩
        · intro fuel hfuel
          obtain ⟨fuel, rfl⟩ : ∃ m, fuel = m + 1 := ⟨fuel - 1, by omega⟩
          rw [hstep fuel]
          exact hloop fuel (by omega)
        · rw [hlog₂]
          show h₁.log ++ _ = _
          rw [hlog₁, List.append_assoc]
          rfl

/-- **The destructor** deletes the nodes of the tree and then the sentinel. -/
theorem release_spec {s : State T V} {t : BinaryTree (Entry T V)}
    {R : Multiset (Addr × Node T V)} (h : Represents s t R) :
    ∃ s', ∃ order : List Addr, Returns (fun fuel => release fuel s) s' ∧ s'.heap.Is R ∧
      s'.root = nullptr ∧ s'.null = nullptr ∧
      s'.heap.log = s.heap.log ++ (order ++ [s.null]).map .delete ∧
      order.Perm (addrs t) := by
  obtain ⟨h₁, order, hloop, hIs₁, hlog₁, hperm⟩ :=
    releaseLoop_spec (s := s) (fun _ hu => ne_nil_of_mem_present hu)
      (h.heap.congr (by rw [forestLayout_present]))
  obtain ⟨h₂, hdel, hIs₂, hlog₂⟩ := State.delete_cell (s := { s with heap := h₁ }) hIs₁
  refine ⟨{ s with heap := h₂, root := nullptr, null := nullptr }, order,
    ⟨forestSize (present t), fun fuel hfuel => ?_⟩, hIs₂, rfl, rfl, ?_, ?_⟩
  · have hqueue : (if s.root ≠ s.null then [s.root] else []) =
        (present t).map (ptr s.null) := by
      rw [h.root]
      exact push_present s.null h.heap []
    simp only [release, hqueue, hloop fuel hfuel, ok_bind, hdel, pure_eq_ok]
  · show h₂.log = _
    rw [hlog₂]
    show h₁.log ++ _ = _
    rw [hlog₁, List.map_append, List.append_assoc]
    rfl
  · rw [flatMap_present] at hperm
    exact hperm

/-! ## The ledger of a run -/

variable [LinearOrder T]

/-- The node at `a` was deleted by the call of `remove` that took its key out. -/
def TakenOut (ops : List (Op T V)) (a : Addr) : Prop :=
  ∃ (pre : List (Op T V)) (k : T) (post : List (Op T V)) (s s' : State T V) (v : V),
    ops = pre ++ .remove k :: post ∧ Run pre s ∧
    Returns (fun fuel => exec fuel s (.remove k)) (.removed true, s') ∧
    Stores s a k v ∧ s'.heap.cells a = none

/-- A node deleted during a run was deleted by the `remove` of its key. -/
theorem Run.takenOut {ops : List (Op T V)} {s : State T V} (h : Run ops s) {a : Addr}
    (ha : .delete a ∈ s.heap.log) : TakenOut ops a := by
  induction h with
  | construct hc =>
    obtain ⟨s', hc', -, -, hlog⟩ := construct_spec (T := T) (V := V) Heap.Is.empty
    obtain rfl : s' = _ := Except.ok.inj (hc'.symm.trans hc)
    simp [hlog] at ha
  | @call ops op s s' r hrun hcall ih =>
    obtain ⟨t, hholds⟩ := hrun.holds
    obtain ⟨r', s'', t', evs, hret, hholds', hans, heff, hrec⟩ := call_spec hholds op
    obtain ⟨rfl, rfl⟩ := Prod.mk.inj (hcall.unique hret)
    rcases List.mem_append.mp (heff.log ▸ ha) with hold | hnew
    · -- deleted by an earlier call
      obtain ⟨pre, k, post, s₁, s₂, v, rfl, hrest⟩ := ih hold
      exact ⟨pre, k, post ++ [op], s₁, s₂, v, by simp, hrest⟩
    · -- deleted by this call, which then is a `remove` that returned `true`
      obtain ⟨x, hx, rfl, rfl⟩ := hrec.taken a hnew
      have hm : mapOf ops x.key = some x.value := hholds.binds.of_mem hx
      have hdead : s'.heap.cells x.addr = none := ((s'.heap.mem_delete _).mp ha).2.2
      cases r with
      | removed b =>
        obtain rfl : b = true := hans.1.mpr (by simp [hm])
        exact ⟨ops, x.key, [], s, s', x.value, rfl, hrun, hcall, hholds.stores hx, hdead⟩
      | node p => exact hans.elim
      | slot σ => exact hans.elim

/-- **Every node is deleted exactly once**: before the destructor runs, the nodes
allocated are those of the tree and the sentinel; the destructor deletes each of them
once, so that over the whole run every node created is deleted once, by the `remove`
that took its key out or by the destructor. -/
theorem destroyed_once (ops : List (Op T V)) :
    (∃ s, Run ops s) ∧ ∀ s, Run ops s →
      (∀ a, (s.heap.cells a).isSome ↔ Reach s s.root a ∨ a = s.null) ∧
      ¬ Reach s s.root s.null ∧
      ∃ s', ∃ order : List Addr, Returns (fun fuel => release fuel s) s' ∧
        s'.heap.log = s.heap.log ++ (order ++ [s.null]).map .delete ∧ order.Nodup ∧
        (∀ a, a ∈ order ↔ Reach s s.root a) ∧ (∀ a, s'.heap.cells a = none) ∧
        ∀ a, .new a ∈ s'.heap.log → s'.heap.log.count (.delete a) = 1 ∧
          (TakenOut ops a ∨ a ∈ order ++ [s.null]) := by
  refine ⟨exists_run ops, ?_⟩
  intro s hrun
  obtain ⟨t, hholds⟩ := hrun.holds
  have hrep := hholds.represents
  obtain ⟨hnull, hnd⟩ := List.nodup_cons.mp hrep.nodup
  obtain ⟨s', order, hret, hIs, -, -, hlog, hperm⟩ := release_spec hrep
  have hdead : ∀ a, s'.heap.cells a = none := fun a => by
    rw [Option.eq_none_iff_forall_ne_some]
    exact fun n hn => Multiset.notMem_zero _ ((hIs.cells_iff a n).mp hn)
  refine ⟨?_, fun hr => hnull (hrep.reach_root_iff.mp hr), s', order, hret, hlog,
    hperm.nodup_iff.mpr hnd, ?_, hdead, ?_⟩
  · intro a
    rw [← hrep.heap.mem_addrs_iff, hrep.reach_root_iff, add_zero, Multiset.map_add,
      Multiset.mem_add, map_fst_layout, Multiset.mem_coe, Multiset.map_singleton,
      Multiset.mem_singleton]
  · intro a
    rw [hrep.reach_root_iff]
    exact hperm.mem_iff
  · intro a ha
    have hcount := Heap.delete_count_of_dead ha (hdead a)
    refine ⟨hcount, ?_⟩
    have hmem : .delete a ∈ s'.heap.log := List.count_pos_iff.mp (hcount ▸ Nat.one_pos)
    rw [hlog] at hmem
    rcases List.mem_append.mp hmem with hold | hnew
    · exact Or.inl (hrun.takenOut hold)
    · obtain ⟨b, hb, heq⟩ := List.mem_map.mp hnew
      cases heq
      exact Or.inr hb

end BstGenerator.Bst
