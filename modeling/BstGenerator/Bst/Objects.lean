import BstGenerator.Bst.Release

/-!
# Programs with several objects

`BST` declares a destructor and no copy or move operation, so copying or moving an
object copies the members `root_` and `null_`, and both objects then own the same
nodes. Objects are kept in a heap of their own (`World.objs`): an object is created
once, lives at one place and is destroyed once.

- `Separate w L`: the objects `L` are those that live, and the heap is exactly the
  sum of what each of them holds. It is the invariant of programs that copy nothing.
- `step_spec`: such a step keeps the objects separate, and those it does not act on
  as they are.
- `independent_of_no_copy`: hence in those programs the objects do not disturb each
  other, no deleted node is used, and every node is deleted exactly once.
-/

namespace BstGenerator.Bst

open Machine Memory Trees
open BinaryTree (nil node)

/-! ## The model -/

/-- What a program does with objects. A move is a copy, and so is not listed. -/
inductive Cmd (T V : Type)
  /-- `BST<T,V> a{};` -/
  | construct
  /-- `BST<T,V> a{j};` -/
  | copyConstruct (j : Addr)
  /-- `i=j;` -/
  | copyAssign (i j : Addr)
  /-- `i.insert(…)`, `i.remove(…)`, `i.find(…)`. -/
  | call (i : Addr) (op : Op T V)
  /-- `i.~BST();` -/
  | destroy (i : Addr)
  deriving DecidableEq, Repr

/-- The nodes and the objects. -/
structure World (T V : Type) where
  heap : Heap (Node T V)
  objs : Heap Members

variable {T V : Type}

/-- No node and no object. -/
def World.empty : World T V := ⟨Heap.empty, Heap.empty⟩

/-- The members of an object that lives. -/
def World.members (w : World T V) (i : Addr) : Except Fault Members :=
  match w.objs.cells i with
  | some M => .ok M
  | none => .error (.noObject i)

/-- The objects a command acts on. Constructing one acts on none that lived before. -/
def Cmd.target : Cmd T V → List Addr
  | .construct => []
  | .copyConstruct _ => []
  | .copyAssign i _ => [i]
  | .call i _ => [i]
  | .destroy i => [i]

/-- The command copies no object but onto itself. -/
def Cmd.CopiesNothing : Cmd T V → Prop
  | .copyConstruct _ => False
  | .copyAssign i j => i = j
  | _ => True

variable [LinearOrder T] [Inhabited T] [Inhabited V]

/-- Execute a command. -/
def step (fuel : Nat) : Cmd T V → World T V → Except Fault (World T V)
  | .construct, w => do
    let s ← construct w.heap
    return ⟨s.heap, w.objs.new s.toMembers⟩
  | .copyConstruct j, w => do
    let M ← w.members j
    return ⟨w.heap, w.objs.new M⟩
  | .copyAssign i j, w => do
    let _ ← w.members i
    let M ← w.members j
    return ⟨w.heap, w.objs.write i M⟩
  | .call i op, w => do
    let M ← w.members i
    let (_, s) ← exec fuel ⟨M, w.heap⟩ op
    return ⟨s.heap, w.objs.write i s.toMembers⟩
  | .destroy i, w => do
    let M ← w.members i
    let s ← release fuel ⟨M, w.heap⟩
    return ⟨s.heap, w.objs.delete i⟩

/-- The program ends in the world `w`. -/
def Ends (cmds : List (Cmd T V)) (w : World T V) : Prop :=
  Returns (fun fuel => run (step fuel) cmds World.empty) w

/-- The object `i` lives and lists the bindings `bs`. -/
def ObjListing (w : World T V) (i : Addr) (bs : List (T × V)) : Prop :=
  ∃ M, w.objs.cells i = some M ∧ Listing ⟨M, w.heap⟩ M.root bs

/-- What is expected of a program with several objects. -/
structure Independent (cmds : List (Cmd T V)) : Prop where
  /-- No deleted node is read, written or deleted: the program ends, unless it names an
  object that does not live. -/
  no_fault : (∃ w, Ends cmds w) ∨
    ∃ i, Fails (fun fuel => run (step fuel) cmds World.empty) (.noObject i)
  /-- A step leaves the map of every object it does not act on alone. -/
  others : ∀ pre c post w w', cmds = pre ++ c :: post → Ends pre w → Ends (pre ++ [c]) w' →
    ∀ i bs, i ∉ c.target → ObjListing w i bs → ObjListing w' i bs
  /-- When all objects are destroyed, every node created was deleted exactly once. -/
  once : ∀ w, Ends cmds w → (∀ i, w.objs.cells i = none) →
    ∀ a, .new a ∈ w.heap.log → w.heap.log.count (.delete a) = 1

/-! ## Separate objects -/

/-- An object with the tree it holds. -/
structure Obj (T V : Type) where
  id : Addr
  members : Members
  tree : BinaryTree (Entry T V)

/-- The cells an object holds: its nodes and its sentinel. -/
def Obj.cells (o : Obj T V) : Multiset (Addr × Node T V) :=
  layout o.members.null o.tree + {(o.members.null, sentinel o.members.null)}

/-- The live objects are `L`, and the heap is the sum of what they hold. -/
structure Separate (w : World T V) (L : Multiset (Obj T V)) : Prop where
  objs : w.objs.Is (L.map fun o => (o.id, o.members))
  heap : w.heap.Is (L.map Obj.cells).sum
  root : ∀ o ∈ L, o.members.root = ptr o.members.null o.tree
  ordered : ∀ o ∈ L, Ordered Entry.key o.tree

namespace Separate

variable {w : World T V} {o : Obj T V} {L : Multiset (Obj T V)}

theorem empty : Separate (World.empty : World T V) 0 where
  objs := Heap.Is.empty
  heap := Heap.Is.empty
  root := fun _ ho => absurd ho (Multiset.notMem_zero _)
  ordered := fun _ ho => absurd ho (Multiset.notMem_zero _)

/-- The object of a live identity. -/
theorem focus (h : Separate w L) {i : Addr} {M : Members} (hi : w.objs.cells i = some M) :
    ∃ o L', L = o ::ₘ L' ∧ o.id = i ∧ o.members = M := by
  obtain ⟨o, ho, heq⟩ := Multiset.mem_map.mp ((h.objs.cells_iff i M).mp hi)
  obtain ⟨L', rfl⟩ := Multiset.exists_cons_of_mem ho
  cases heq
  exact ⟨o, L', rfl, rfl, rfl⟩

theorem objs_cons (h : Separate w (o ::ₘ L)) :
    w.objs.Is ({(o.id, o.members)} + L.map fun o => (o.id, o.members)) :=
  h.objs.congr (by rw [Multiset.map_cons, Multiset.singleton_add])

/-- Each object holds its tree, the others' cells being the rest of the heap. -/
theorem holds (h : Separate w (o ::ₘ L)) :
    ∃ m, Holds ⟨o.members, w.heap⟩ m o.tree (L.map Obj.cells).sum := by
  have ho := Multiset.mem_cons_self o L
  obtain ⟨m, hm⟩ := exists_binds (h.ordered o ho)
  refine ⟨m, ⟨h.root o ho, h.heap.congr ?_⟩, h.ordered o ho, hm⟩
  rw [Multiset.map_cons, Multiset.sum_cons, Obj.cells, add_assoc]

/-- A live object's listing is that of its tree. -/
theorem listing (h : Separate w (o ::ₘ L)) (bs : List (T × V)) :
    ObjListing w o.id bs ↔ bs = (inorder o.tree).map Entry.pair := by
  obtain ⟨m, hholds⟩ := h.holds
  have hcell : w.objs.cells o.id = some o.members := h.objs_cons.read
  constructor
  · rintro ⟨M, hM, t, ht, rfl⟩
    obtain rfl : o.members = M := Option.some.inj (hcell.symm.trans hM)
    rw [ht.unique hholds.represents.treeAt_root]
  · rintro rfl
    exact ⟨_, hcell, _, hholds.represents.treeAt_root, rfl⟩

/-- What the heap and the table of objects must be for `o` and the others to be
separate. -/
theorem cons {heap : Heap (Node T V)} {objs : Heap Members} {m : T → Option V}
    (hholds : Holds ⟨o.members, heap⟩ m o.tree (L.map Obj.cells).sum)
    (hobjs : objs.Is ({(o.id, o.members)} + L.map fun o => (o.id, o.members)))
    (hroot : ∀ o ∈ L, o.members.root = ptr o.members.null o.tree)
    (hord : ∀ o ∈ L, Ordered Entry.key o.tree) : Separate ⟨heap, objs⟩ (o ::ₘ L) where
  objs := hobjs.congr (by rw [Multiset.map_cons, Multiset.singleton_add])
  heap := hholds.represents.heap.congr (by
    rw [Multiset.map_cons, Multiset.sum_cons, Obj.cells, add_assoc])
  root := fun p hp => by
    rcases Multiset.mem_cons.mp hp with rfl | hp
    · exact hholds.represents.root
    · exact hroot p hp
  ordered := fun p hp => by
    rcases Multiset.mem_cons.mp hp with rfl | hp
    · exact hholds.ordered
    · exact hord p hp

section Changes

variable {heap : Heap (Node T V)} {M : Members} {t : BinaryTree (Entry T V)} {m : T → Option V}

/-- An object is added. -/
theorem add (h : Separate w L) (hholds : Holds ⟨M, heap⟩ m t (L.map Obj.cells).sum) :
    Separate ⟨heap, w.objs.new M⟩ (⟨w.objs.next, M, t⟩ ::ₘ L) :=
  Separate.cons (o := ⟨w.objs.next, M, t⟩) hholds (h.objs.new M) h.root h.ordered

/-- An object is changed, the others' cells being the rest of the heap as before. -/
theorem replace (h : Separate w (o ::ₘ L))
    (hholds : Holds ⟨M, heap⟩ m t (L.map Obj.cells).sum) :
    Separate ⟨heap, w.objs.write o.id M⟩ (⟨o.id, M, t⟩ ::ₘ L) :=
  Separate.cons (o := ⟨o.id, M, t⟩) hholds (h.objs_cons.write M)
    (fun p hp => h.root p (Multiset.mem_cons_of_mem hp))
    fun p hp => h.ordered p (Multiset.mem_cons_of_mem hp)

/-- An object goes, with the cells it held. -/
theorem remove (h : Separate w (o ::ₘ L)) (hIs : heap.Is (L.map Obj.cells).sum) :
    Separate ⟨heap, w.objs.delete o.id⟩ L where
  objs := h.objs_cons.delete
  heap := hIs
  root := fun p hp => h.root p (Multiset.mem_cons_of_mem hp)
  ordered := fun p hp => h.ordered p (Multiset.mem_cons_of_mem hp)

end Changes

end Separate

omit [LinearOrder T] [Inhabited T] [Inhabited V] in
theorem World.members_eq {w : World T V} {i : Addr} {M : Members}
    (hi : w.objs.cells i = some M) : w.members i = .ok M := by
  simp only [World.members, hi]

/-- Acting on an object that does not live is a fault. -/
theorem step_no_object {w : World T V} {c : Cmd T V} {i : Addr} (hc : i ∈ c.target)
    (hi : w.objs.cells i = none) : Fails (fun fuel => step fuel c w) (.noObject i) := by
  have hmembers : w.members i = .error (.noObject i) := by
    simp only [World.members, hi]
  refine ⟨0, ?_⟩
  intro fuel _
  show step fuel c w = _
  cases c with
  | construct => cases hc
  | copyConstruct j => cases hc
  | copyAssign k j =>
    obtain rfl := List.mem_singleton.mp hc
    rw [step, hmembers]
    rfl
  | call k op =>
    obtain rfl := List.mem_singleton.mp hc
    rw [step, hmembers]
    rfl
  | destroy k =>
    obtain rfl := List.mem_singleton.mp hc
    rw [step, hmembers]
    rfl

omit [LinearOrder T] [Inhabited T] [Inhabited V] in
/-- An object that is not `o` is one of the others. -/
theorem mem_of_ne {o p : Obj T V} {L : Multiset (Obj T V)} (hp : p ∈ o ::ₘ L)
    (hne : p.id ∉ [o.id]) : p ∈ L := by
  rcases Multiset.mem_cons.mp hp with rfl | hp
  · exact absurd (List.mem_singleton_self _) hne
  · exact hp

/-- **A step of a program that copies nothing** keeps the objects separate and those it
does not act on as they are. -/
theorem step_spec {w : World T V} {L : Multiset (Obj T V)} (h : Separate w L)
    {c : Cmd T V} (hc : c.CopiesNothing) :
    (∃ w' L', Returns (fun fuel => step fuel c w) w' ∧ Separate w' L' ∧
        ∀ o ∈ L, o.id ∉ c.target → o ∈ L') ∨
      ∃ i, Fails (fun fuel => step fuel c w) (.noObject i) := by
  cases c with
  | construct =>
    obtain ⟨s, hs, hholds, -, -⟩ := construct_spec h.heap
    refine Or.inl ⟨_, _, ⟨0, ?_⟩, h.add hholds, fun o ho _ => Multiset.mem_cons_of_mem ho⟩
    intro fuel _
    show step fuel .construct w = _
    simp only [step, hs, ok_bind, pure_eq_ok]
  | copyConstruct j => exact hc.elim
  | copyAssign i j =>
    obtain rfl : i = j := hc
    cases hi : w.objs.cells i with
    | none => exact Or.inr ⟨i, step_no_object (List.mem_singleton_self i) hi⟩
    | some M =>
      obtain ⟨o, L', rfl, rfl, rfl⟩ := h.focus hi
      obtain ⟨m, hholds⟩ := h.holds
      refine Or.inl ⟨_, _, ⟨0, ?_⟩, h.replace hholds, fun p hp _ => hp⟩
      intro fuel _
      show step fuel (.copyAssign o.id o.id) w = _
      simp only [step, World.members_eq hi, ok_bind, pure_eq_ok]
  | call i op =>
    cases hi : w.objs.cells i with
    | none => exact Or.inr ⟨i, step_no_object (List.mem_singleton_self i) hi⟩
    | some M =>
      obtain ⟨o, L', rfl, rfl, rfl⟩ := h.focus hi
      obtain ⟨m, hholds⟩ := h.holds
      obtain ⟨r, s, t, -, ⟨N, hN⟩, hholds', -⟩ := call_spec hholds op
      refine Or.inl ⟨_, _, ⟨N, ?_⟩, h.replace (M := s.toMembers) hholds',
        fun p hp hne => Multiset.mem_cons_of_mem (mem_of_ne hp hne)⟩
      intro fuel hfuel
      have hexec : exec fuel ⟨o.members, w.heap⟩ op = .ok (r, s) := hN fuel hfuel
      show step fuel (.call o.id op) w = _
      simp only [step, World.members_eq hi, ok_bind, hexec, pure_eq_ok]
  | destroy i =>
    cases hi : w.objs.cells i with
    | none => exact Or.inr ⟨i, step_no_object (List.mem_singleton_self i) hi⟩
    | some M =>
      obtain ⟨o, L', rfl, rfl, rfl⟩ := h.focus hi
      obtain ⟨m, hholds⟩ := h.holds
      obtain ⟨s, -, ⟨N, hN⟩, hIs, -⟩ := release_spec hholds.represents
      refine Or.inl ⟨_, _, ⟨N, ?_⟩, h.remove hIs, fun p hp hne => mem_of_ne hp hne⟩
      intro fuel hfuel
      have hrel : release fuel ⟨o.members, w.heap⟩ = .ok s := hN fuel hfuel
      show step fuel (.destroy o.id) w = _
      simp only [step, World.members_eq hi, ok_bind, hrel, pure_eq_ok]

/-! ## Whole programs -/

/-- Programs that copy nothing end, the objects separate, or name an object that does
not live. -/
theorem run_separate {cmds : List (Cmd T V)} (h : ∀ c ∈ cmds, c.CopiesNothing) :
    (∃ w, Ends cmds w ∧ ∃ L, Separate w L) ∨
      ∃ i, Fails (fun fuel => run (step fuel) cmds (World.empty : World T V)) (.noObject i) := by
  have hstep (c : Cmd T V) (w : World T V) (hc : c.CopiesNothing)
      (hw : ∃ L, Separate w L) :
      (∃ w', Returns (fun fuel => step fuel c w) w' ∧ ∃ L, Separate w' L) ∨
        ∃ e, (∃ i, e = Fault.noObject i) ∧ Fails (fun fuel => step fuel c w) e := by
    obtain ⟨L, hL⟩ := hw
    rcases step_spec hL hc with ⟨w', L', hret, hL', -⟩ | ⟨i, hfail⟩
    · exact Or.inl ⟨w', hret, L', hL'⟩
    · exact Or.inr ⟨_, ⟨i, rfl⟩, hfail⟩
  rcases run_outcome hstep h ⟨0, Separate.empty⟩ with hend | ⟨-, ⟨i, rfl⟩, hfail⟩
  · exact Or.inl hend
  · exact Or.inr ⟨i, hfail⟩

theorem Ends.separate {cmds : List (Cmd T V)} {w : World T V} (hw : Ends cmds w)
    (h : ∀ c ∈ cmds, c.CopiesNothing) : ∃ L, Separate w L := by
  rcases run_separate h with ⟨w', hw', hL⟩ | ⟨i, hfail⟩
  · rwa [hw.unique hw']
  · exact absurd hw hfail.not_returns

/-- **In a program that copies no object but onto itself** objects do not disturb each
other, no deleted node is used, and every node is deleted exactly once. -/
theorem independent_of_no_copy (cmds : List (Cmd T V)) (h : ∀ c ∈ cmds, c.CopiesNothing) :
    Independent cmds where
  no_fault := by
    rcases run_separate h with ⟨w, hw, -⟩ | hfail
    · exact Or.inl ⟨w, hw⟩
    · exact Or.inr hfail
  others := by
    rintro pre c post w w' rfl hw hw' i bs hi ⟨M, hM, hlist⟩
    have hpre : ∀ d ∈ pre, d.CopiesNothing := fun d hd => h d (List.mem_append_left _ hd)
    have hc : c.CopiesNothing := h c (by simp)
    obtain ⟨L, hL⟩ := hw.separate hpre
    obtain ⟨o, L₀, rfl, rfl, rfl⟩ := hL.focus hM
    have hstep : Returns (fun fuel => step fuel c w) w' := Returns.of_run_snoc hw hw'
    rcases step_spec hL hc with ⟨w'', L', hret, hL', hkeep⟩ | ⟨j, hfail⟩
    · obtain rfl : w' = w'' := hstep.unique hret
      -- the step has kept `o` with its tree, so what `o` lists is the same
      obtain ⟨L₁, rfl⟩ := Multiset.exists_cons_of_mem (hkeep o (Multiset.mem_cons_self o L₀) hi)
      exact (hL'.listing bs).mpr ((hL.listing bs).mp ⟨_, hM, hlist⟩)
    · exact absurd hstep hfail.not_returns
  once := by
    intro w hw hdead a ha
    obtain ⟨L, hL⟩ := hw.separate h
    -- without objects nothing in the heap is held, and what is not held is not live
    have hnone : L = 0 := by
      refine Multiset.eq_zero_of_forall_notMem ?_
      intro o ho
      have hlive := (hL.objs.cells_iff _ _).mpr
        (Multiset.mem_map_of_mem (fun o : Obj T V => (o.id, o.members)) ho)
      rw [hdead] at hlive
      cases hlive
    subst hnone
    refine Heap.delete_count_of_dead ha (Option.eq_none_iff_forall_ne_some.mpr ?_)
    intro n hn
    exact Multiset.notMem_zero _ ((hL.heap.cells_iff a n).mp hn)

end BstGenerator.Bst
