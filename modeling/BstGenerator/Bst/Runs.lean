import BstGenerator.Bst.Reach

/-!
# Runs of one object

An object is constructed and then called any number of times; `Run ops s` says
that `s` is the state after the calls `ops`. What the object is for is a finite map
in which the first binding of a key stays until the key is removed (`Op.apply`).

- `Holds s m t R`: the refinement relation. The object of `s` holds an ordered tree
  `t` with the bindings of the map `m`, `R` being the rest of the heap.
- `call_spec`: **the simulation step**. A call on an object that holds a map ends,
  answers what the map answers (`Answer`), and leaves the object holding the map
  after the call, the rest `R` untouched.
- `Run.holds`: hence every state a run reaches holds the map of its calls.
-/

namespace BstGenerator.Bst

open Machine Memory Trees
open BinaryTree (nil node)

/-! ## Calls -/

/-- The public calls on an object. -/
inductive Op (T V : Type)
  | insert (k : T) (v : V)
  | remove (k : T)
  | find (k : T)
  deriving DecidableEq, Repr

/-- What a call returns: the `Node *` of `insert`, the `bool` of `remove`, or the
`Node * &` of `find`. -/
inductive Ret
  | node (p : Addr)
  | removed (b : Bool)
  | slot (σ : Slot)
  deriving DecidableEq, Repr

variable {T V : Type}

/-- The node at `p` holds the key `k` and the value `v`. -/
def Stores (s : State T V) (p : Addr) (k : T) (v : V) : Prop :=
  ∃ n, s.heap.cells p = some n ∧ n.key = k ∧ n.value = v

/-- What a call on an object that holds the map `m` returns, and when it changes
nothing. -/
def Answer (m : T → Option V) (s : State T V) : Op T V → Ret → State T V → Prop
  | .insert k v, .node p, s' =>
    (p = s.null ↔ (m k).isSome) ∧ ((m k).isSome → s' = s) ∧ (m k = none → Stores s' p k v)
  | .remove k, .removed b, s' => (b = true ↔ (m k).isSome) ∧ (m k = none → s' = s)
  | .find k, .slot σ, s' =>
    s' = s ∧ ∃ p, s.load σ = .ok p ∧ (p = s.null ↔ m k = none) ∧
      ∀ v, m k = some v → Stores s p k v
  | _, _, _ => False

/-- What a call on an object that holds `t` may record: it leaves the sentinel alone,
and the only node deleted is that of the key `remove` takes out. -/
structure Recorded (s : State T V) (t : BinaryTree (Entry T V)) (op : Op T V)
    (evs : List Event) : Prop where
  sentinel : .write s.null ∉ evs
  taken : ∀ a, .delete a ∈ evs → ∃ x ∈ inorder t, x.addr = a ∧ op = .remove x.key

/-- The tree has exactly the bindings of the map. -/
def Binds (t : BinaryTree (Entry T V)) (m : T → Option V) : Prop :=
  ∀ k v, m k = some v ↔ ∃ x ∈ inorder t, x.key = k ∧ x.value = v

/-- An entry's key is bound. -/
theorem Binds.of_mem {t : BinaryTree (Entry T V)} {m : T → Option V} (h : Binds t m)
    {x : Entry T V} (hx : x ∈ inorder t) : m x.key = some x.value :=
  (h _ _).mpr ⟨x, hx, rfl, rfl⟩

/-- A key no entry has is not bound. -/
theorem Binds.of_not_mem {t : BinaryTree (Entry T V)} {m : T → Option V} (h : Binds t m)
    {k : T} (hk : ∀ x ∈ inorder t, x.key ≠ k) : m k = none := by
  cases hm : m k with
  | none => rfl
  | some v =>
    obtain ⟨x, hx, hkey, -⟩ := (h k v).mp hm
    exact absurd hkey (hk x hx)

/-- The bindings, as the pairs the tree lists. -/
theorem Binds.mem_pairs {t : BinaryTree (Entry T V)} {m : T → Option V} (h : Binds t m) (k : T)
    (v : V) : (k, v) ∈ (inorder t).map Entry.pair ↔ m k = some v := by
  rw [h k v, List.mem_map]
  constructor
  · rintro ⟨x, hx, heq⟩
    cases heq
    exact ⟨x, hx, rfl, rfl⟩
  · rintro ⟨x, hx, rfl, rfl⟩
    exact ⟨x, hx, rfl⟩

variable [LinearOrder T]

/-- Execute a call. -/
def exec (fuel : Nat) (s : State T V) : Op T V → Except Fault (Ret × State T V)
  | .insert k v => do
    let (p, s) ← insert fuel k v s
    return (.node p, s)
  | .remove k => do
    let (b, s) ← remove fuel k s
    return (.removed b, s)
  | .find k => do
    let σ ← find fuel k s
    return (.slot σ, s)

/-- What a call does to the map. -/
def Op.apply (m : T → Option V) : Op T V → T → Option V
  | .insert k v => if (m k).isSome then m else Function.update m k (some v)
  | .remove k => Function.update m k none
  | .find _ => m

/-- The map after the calls `ops`, starting from the empty one. -/
def mapOf (ops : List (Op T V)) : T → Option V :=
  ops.foldl Op.apply fun _ => none

/-- The tree below `root_` lists exactly the bindings of the map, in strictly
ascending key order. -/
def ListsMap (s : State T V) (m : T → Option V) : Prop :=
  ∃ bs, Listing s s.root bs ∧ bs.Pairwise (fun b c => b.1 < c.1) ∧
    ∀ k v, (k, v) ∈ bs ↔ m k = some v

/-- An ordered tree has the bindings of some map. -/
theorem exists_binds {t : BinaryTree (Entry T V)} (ho : Ordered Entry.key t) :
    ∃ m, Binds t m := by
  refine ⟨fun k => ((inorder t).find? fun x => x.key = k).map Entry.value, ?_⟩
  intro k v
  simp only [Option.map_eq_some_iff]
  constructor
  · rintro ⟨x, hx, rfl⟩
    exact ⟨x, List.mem_of_find?_eq_some hx, by simpa using List.find?_some hx, rfl⟩
  · rintro ⟨x, hx, rfl, rfl⟩
    cases hf : (inorder t).find? fun y => decide (y.key = x.key) with
    | none =>
      have hne := List.find?_eq_none.mp hf x hx
      simp at hne
    | some y =>
      have hy : y.key = x.key := by simpa using List.find?_some hf
      have heq : y = x := ho.eq_of_key_eq (List.mem_of_find?_eq_some hf) hx hy
      exact ⟨y, rfl, congrArg Entry.value heq⟩

theorem mapOf_snoc (ops : List (Op T V)) (op : Op T V) :
    mapOf (ops ++ [op]) = op.apply (mapOf ops) := by
  rw [mapOf, List.foldl_append]
  rfl

theorem Binds.insert {t : BinaryTree (Entry T V)} {m : T → Option V} (h : Binds t m)
    (ho : Ordered Entry.key t) {k : T} (v : V) (a : Addr)
    (hk : ∀ x ∈ inorder t, x.key ≠ k) :
    Binds (Trees.insert Entry.key ⟨a, k, v⟩ t) (Op.apply m (.insert k v)) := by
  intro k' v'
  have hnone : m k = none := h.of_not_mem hk
  simp only [Op.apply, hnone, Option.isSome_none, Bool.false_eq_true, if_false,
    Function.update_apply, mem_inorder_insert ho]
  by_cases hk' : k' = k
  · subst hk'
    rw [if_pos rfl]
    constructor
    · intro hv
      exact ⟨⟨a, k', v⟩, Or.inr ⟨rfl, hk⟩, rfl, Option.some.inj hv⟩
    · rintro ⟨x, hx | ⟨rfl, -⟩, hkey, hval⟩
      · exact absurd hkey (hk x hx)
      · exact congrArg some hval
  · rw [if_neg hk', h k' v']
    constructor
    · rintro ⟨x, hx, hkey⟩
      exact ⟨x, Or.inl hx, hkey⟩
    · rintro ⟨x, hx | ⟨rfl, -⟩, hkey, hval⟩
      · exact ⟨x, hx, hkey, hval⟩
      · exact absurd hkey.symm hk'

theorem Binds.erase {t : BinaryTree (Entry T V)} {m : T → Option V} (h : Binds t m)
    (ho : Ordered Entry.key t) (k : T) :
    Binds (Trees.erase Entry.key k t) (Op.apply m (.remove k)) := by
  intro k' v'
  simp only [Op.apply, Function.update_apply, mem_inorder_erase ho]
  by_cases hk' : k' = k
  · subst hk'
    rw [if_pos rfl]
    constructor
    · exact fun hv => nomatch hv
    · rintro ⟨x, ⟨-, hne⟩, hkey, -⟩
      exact absurd hkey hne
  · rw [if_neg hk', h k' v']
    constructor
    · rintro ⟨x, hx, hkey, hval⟩
      exact ⟨x, ⟨hx, hkey ▸ hk'⟩, hkey, hval⟩
    · rintro ⟨x, ⟨hx, -⟩, hkey, hval⟩
      exact ⟨x, hx, hkey, hval⟩

/-! ## The simulation step -/

variable [Inhabited T] [Inhabited V]

/-- The state after constructing an object in an empty heap and the calls `ops`. -/
inductive Run : List (Op T V) → State T V → Prop
  | construct {s : State T V} : construct Heap.empty = .ok s → Run [] s
  | call {ops : List (Op T V)} {op : Op T V} {s s' : State T V} {r : Ret} : Run ops s →
      Returns (fun fuel => exec fuel s op) (r, s') → Run (ops ++ [op]) s'

/-- The object holds an ordered tree with the bindings of the map. -/
structure Holds (s : State T V) (m : T → Option V) (t : BinaryTree (Entry T V))
    (R : Multiset (Addr × Node T V)) : Prop where
  represents : Represents s t R
  ordered : Ordered Entry.key t
  binds : Binds t m

namespace Holds

variable {s : State T V} {m : T → Option V} {t : BinaryTree (Entry T V)}
  {R : Multiset (Addr × Node T V)}

theorem stores (h : Holds s m t R) {x : Entry T V} (hx : x ∈ inorder t) :
    Stores s x.addr x.key x.value := by
  obtain ⟨l, r, hcell⟩ := h.represents.cell_of_mem hx
  exact ⟨_, hcell, rfl, rfl⟩

theorem listsMap (h : Holds s m t R) : ListsMap s m := by
  refine ⟨_, ⟨t, h.represents.treeAt_root, rfl⟩, ?_, h.binds.mem_pairs⟩
  rw [List.pairwise_map]
  exact (ordered_iff Entry.key).mp h.ordered

/-- `find` answers what the map answers. -/
theorem find (h : Holds s m t R) (k : T) :
    ∃ C u, t = plug C u ∧ Returns (fun fuel => find fuel k s) (slot C) ∧
      Answer m s (.find k) (.slot (slot C)) s := by
  rcases search_spec h.ordered k with ⟨C, hs, rfl, -, hnone⟩ | ⟨C, x, l, r, hs, rfl, rfl⟩
  · have hm : m k = none := h.binds.of_not_mem hnone
    refine ⟨C, nil, rfl, Returns.of_lt _ fun _ hfuel => find_eq h.represents hs hfuel, rfl,
      s.null, h.represents.load, iff_of_true rfl hm, fun v hv => ?_⟩
    rw [hm] at hv
    cases hv
  · have hx : x ∈ inorder (plug C (node x l r)) := mem_inorder_plug (by simp)
    have hm : m x.key = some x.value := h.binds.of_mem hx
    refine ⟨C, node x l r, rfl, Returns.of_lt _ fun _ hfuel => find_eq h.represents hs hfuel,
      rfl, x.addr, h.represents.load, ?_, fun v hv => ?_⟩
    · rw [hm]
      exact iff_of_false (h.represents.ne_null hx) (fun he => nomatch he)
    · obtain rfl : x.value = v := Option.some.inj (hm.symm.trans hv)
      exact h.stores hx

end Holds

/-- What a call comes to on an object that holds the map `m`: it ends, answers what the
map answers and leaves the object holding the map after the call. -/
def Simulates (s : State T V) (m : T → Option V) (t : BinaryTree (Entry T V))
    (R : Multiset (Addr × Node T V)) (op : Op T V) : Prop :=
  ∃ r s' t' evs, Returns (fun fuel => exec fuel s op) (r, s') ∧ Holds s' (op.apply m) t' R ∧
    Answer m s op r s' ∧ Effect s s' evs ∧ Recorded s t op evs

section Calls

variable {s : State T V} {m : T → Option V} {t : BinaryTree (Entry T V)}
  {R : Multiset (Addr × Node T V)}

omit [LinearOrder T] [Inhabited T] [Inhabited V] in
/-- A call that records nothing. -/
theorem Recorded.nil (op : Op T V) : Recorded s t op [] :=
  ⟨List.not_mem_nil, fun _ ha => absurd ha List.not_mem_nil⟩

theorem simulates_insert (h : Holds s m t R) (k : T) (v : V) :
    Simulates s m t R (.insert k v) := by
  rcases insert_spec h.represents h.ordered k v with
    ⟨x, hx, rfl, hret⟩ | ⟨habs, s', ws, hret, hrep, heff, hws⟩
  · have hm : m x.key = some x.value := h.binds.of_mem hx
    have happ : Op.apply m (.insert x.key v) = m := by simp [Op.apply, hm]
    refine ⟨.node s.null, s, t, [], ?_, happ.symm ▸ h, ?_, Effect.refl s, Recorded.nil _⟩
    · exact hret.bind (Returns.of_lt 0 fun _ _ => rfl)
    · exact ⟨by simp [hm], fun _ => rfl, fun hnone => by simp [hm] at hnone⟩
  · -- the new node is the one thing the call adds
    have hm : m k = none := h.binds.of_not_mem habs
    have hholds : Holds s' (Op.apply m (.insert k v)) _ R :=
      ⟨hrep, ordered_insert h.ordered, h.binds.insert h.ordered v s.heap.next habs⟩
    have hmem : (⟨s.heap.next, k, v⟩ : Entry T V) ∈
        inorder (Trees.insert Entry.key ⟨s.heap.next, k, v⟩ t) :=
      (mem_inorder_insert h.ordered).mpr (Or.inr ⟨rfl, habs⟩)
    have hne : s.heap.next ≠ s.null := heff.null ▸ hrep.ne_null hmem
    refine ⟨.node s.heap.next, s', _, _, ?_, hholds, ?_, heff, ?_⟩
    · exact hret.bind (Returns.of_lt 0 fun _ _ => rfl)
    · refine ⟨iff_of_false hne (by simp [hm]), ?_, fun _ => hholds.stores hmem⟩
      intro hsome
      simp [hm] at hsome
    · exact ⟨by simpa using hws, fun a ha => by simp at ha⟩

theorem simulates_remove (h : Holds s m t R) (k : T) : Simulates s m t R (.remove k) := by
  rcases remove_spec h.represents h.ordered k with
    ⟨habs, hret⟩ | ⟨x, hx, rfl, s', ws, hret, hrep, heff, hws⟩
  · have hm : m k = none := h.binds.of_not_mem habs
    have happ : Op.apply m (.remove k) = m := by simp [Op.apply, ← hm]
    refine ⟨.removed false, s, t, [], ?_, happ.symm ▸ h, ?_, Effect.refl s, Recorded.nil _⟩
    · exact hret.bind (Returns.of_lt 0 fun _ _ => rfl)
    · exact ⟨by simp [hm], fun _ => rfl⟩
  · have hm : m x.key = some x.value := h.binds.of_mem hx
    refine ⟨.removed true, s', _, _, ?_,
      ⟨hrep, ordered_erase h.ordered, h.binds.erase h.ordered x.key⟩, ?_, heff, ?_⟩
    · exact hret.bind (Returns.of_lt 0 fun _ _ => rfl)
    · exact ⟨by simp [hm], fun hnone => by simp [hm] at hnone⟩
    · refine ⟨by simpa using hws, ?_⟩
      intro a ha
      obtain rfl : a = x.addr := by simpa using ha
      exact ⟨x, hx, rfl, rfl⟩

theorem simulates_find (h : Holds s m t R) (k : T) : Simulates s m t R (.find k) := by
  obtain ⟨C, u, -, hret, hans⟩ := h.find k
  exact ⟨.slot (slot C), s, t, [], hret.bind (Returns.of_lt 0 fun _ _ => rfl), h, hans,
    Effect.refl s, Recorded.nil _⟩

/-- **A call refines the map's.** -/
theorem call_spec (h : Holds s m t R) (op : Op T V) : Simulates s m t R op := by
  cases op with
  | insert k v => exact simulates_insert h k v
  | remove k => exact simulates_remove h k
  | find k => exact simulates_find h k

end Calls

/-! ## Runs -/

/-- The constructor: a sentinel and no nodes. -/
theorem construct_spec {h : Heap (Node T V)} {M : Multiset (Addr × Node T V)} (hM : h.Is M) :
    ∃ s, construct h = .ok s ∧ Holds s (fun _ => none) nil M ∧ s.null = h.next ∧
      s.heap.log = h.log ++ [.new s.null, .write s.null, .write s.null] := by
  let n : Node T V := ⟨nullptr, nullptr, default, default⟩
  let s₀ : State T V := { heap := h.new n, root := h.next, null := h.next }
  obtain ⟨h₁, hright, hIs₁, hlog₁⟩ :=
    State.store_child (s := s₀) (hM.new n) .right h.next
  obtain ⟨h₂, hleft, hIs₂, hlog₂⟩ :=
    State.store_child (s := { s₀ with heap := h₁ }) hIs₁ .left h.next
  have hread : ({ s₀ with heap := h₁ } : State T V).right h.next = .ok h.next :=
    State.right_eq (s := { s₀ with heap := h₁ }) hIs₁.read
  refine ⟨{ s₀ with heap := h₂ }, ?_, ⟨⟨rfl, ?_⟩, trivial, ?_⟩, rfl, ?_⟩
  · show (do
      let s ← s₀.store (.child .right h.next) h.next
      s.store (.child .left s.null) (← s.right s.null)) = _
    rw [hright, ok_bind]
    show (({ s₀ with heap := h₁ } : State T V).right h.next >>= _) = _
    rw [hread]
    exact hleft
  · exact hIs₂.congr (zero_add _).symm
  · intro k v
    constructor
    · exact fun hv => nomatch hv
    · exact fun ⟨_, hx, _⟩ => nomatch hx
  · rw [hlog₂]
    show h₁.log ++ _ = _
    rw [hlog₁]
    show (h.new n).log ++ _ ++ _ = _
    simp [s₀]

/-- **Every reachable state holds the map of its run.** -/
theorem Run.holds {ops : List (Op T V)} {s : State T V} (h : Run ops s) :
    ∃ t, Holds s (mapOf ops) t 0 := by
  induction h with
  | construct hc =>
    obtain ⟨s', hc', hholds, -, -⟩ := construct_spec (T := T) (V := V) Heap.Is.empty
    obtain rfl : s' = _ := Except.ok.inj (hc'.symm.trans hc)
    exact ⟨nil, hholds⟩
  | @call ops op s s' r _ hcall ih =>
    obtain ⟨t, hholds⟩ := ih
    obtain ⟨r', s'', t', evs, hret, hholds', -, -, -⟩ := call_spec hholds op
    obtain ⟨-, rfl⟩ := Prod.mk.inj (hcall.unique hret)
    rw [mapOf_snoc]
    exact ⟨t', hholds'⟩

/-- Every sequence of calls can be run. -/
theorem exists_run (ops : List (Op T V)) : ∃ s : State T V, Run ops s := by
  induction ops using List.reverseRecOn with
  | nil =>
    obtain ⟨s, hc, -⟩ := construct_spec (T := T) (V := V) Heap.Is.empty
    exact ⟨s, .construct hc⟩
  | append_singleton ops op ih =>
    obtain ⟨s, hrun⟩ := ih
    obtain ⟨t, hholds⟩ := hrun.holds
    obtain ⟨r, s', -, -, hret, -⟩ := call_spec hholds op
    exact ⟨s', .call hrun hret⟩

/-- A key the map binds is the key of a node of the tree. -/
theorem Run.exists_node {ops : List (Op T V)} {s : State T V} (h : Run ops s) {k : T} {v : V}
    (hk : mapOf ops k = some v) :
    ∃ a n, Reach s s.root a ∧ s.heap.cells a = some n ∧ n.key = k ∧ n.value = v := by
  obtain ⟨t, hholds⟩ := h.holds
  obtain ⟨x, hx, rfl, rfl⟩ := (hholds.binds k v).mp hk
  obtain ⟨n, hn, hkey, hval⟩ := hholds.stores hx
  exact ⟨x.addr, n, hholds.represents.reach_root_iff.mpr (List.mem_map_of_mem hx), hn, hkey,
    hval⟩

/-- **The class is a finite map**: every sequence of calls on a fresh object can be
run, and after every run the tree lists the bindings of the map in ascending order
and each further call answers what the map answers. -/
theorem refines_map (ops : List (Op T V)) :
    (∃ s, Run ops s) ∧ ∀ s, Run ops s → ListsMap s (mapOf ops) ∧
      ∀ op, ∃ r s', Returns (fun fuel => exec fuel s op) (r, s') ∧ Run (ops ++ [op]) s' ∧
        Answer (mapOf ops) s op r s' ∧ ListsMap s' (op.apply (mapOf ops)) := by
  refine ⟨exists_run ops, ?_⟩
  intro s hrun
  obtain ⟨t, hholds⟩ := hrun.holds
  refine ⟨hholds.listsMap, ?_⟩
  intro op
  obtain ⟨r, s', t', -, hret, hholds', hans, -⟩ := call_spec hholds op
  exact ⟨r, s', hret, .call hrun hret, hans, hholds'.listsMap⟩

/-- A bound key keeps its value, and a removed key can be bound again. -/
example : (do
    let s ← construct (T := Nat) (V := Nat) Heap.empty
    let (p, s) ← insert 9 2 20 s
    let (q, s) ← insert 9 2 21 s
    let (b, s) ← remove 9 2 s
    let (r, s) ← insert 9 2 22 s
    return (p, q == s.null, b, r)) = .ok (2, true, true, 3) := by decide

/-! ## The representation invariant -/

/-- After the constructor's own two stores nothing is written to the sentinel. -/
theorem Run.sentinel_log {ops : List (Op T V)} {s : State T V} (h : Run ops s) :
    ∃ rest, s.heap.log = [.new s.null, .write s.null, .write s.null] ++ rest ∧
      .write s.null ∉ rest := by
  induction h with
  | construct hc =>
    obtain ⟨s', hc', -, -, hlog⟩ := construct_spec (T := T) (V := V) Heap.Is.empty
    obtain rfl : s' = _ := Except.ok.inj (hc'.symm.trans hc)
    exact ⟨[], hlog, List.not_mem_nil⟩
  | @call ops op s s' r hrun hcall ih =>
    obtain ⟨rest, hlog, hrest⟩ := ih
    obtain ⟨t, hholds⟩ := hrun.holds
    obtain ⟨r', s'', t', evs, hret, -, -, heff, hrec⟩ := call_spec hholds op
    obtain ⟨-, rfl⟩ := Prod.mk.inj (hcall.unique hret)
    refine ⟨rest ++ evs, ?_, ?_⟩
    · rw [heff.log, heff.null, hlog, List.append_assoc]
    · rw [heff.null]
      exact fun hmem => (List.mem_append.mp hmem).elim hrest hrec.sentinel

omit [LinearOrder T] in
/-- From every slot of a tree the walk of `find_min` and `find_max` ends. -/
theorem findExtreme_returns (d : Dir) {s : State T V} {t : BinaryTree (Entry T V)}
    {R : Multiset (Addr × Node T V)} (h : Represents s t R) {σ : Slot}
    (hσ : ReachedSlot s σ) :
    ∃ τ, Returns (fun fuel => findExtreme d s fuel σ) τ ∧ ReachedSlot s τ := by
  obtain ⟨C, u, rfl, rfl⟩ := h.exists_of_reachedSlot hσ
  by_cases hu : u = nil
  · subst hu
    exact ⟨slot C, Returns.of_lt 0 fun _ hfuel => findExtreme_nil d h hfuel, hσ⟩
  · obtain ⟨D, m, w, rfl, hD⟩ := exists_extreme d hu
    refine ⟨_, Returns.of_lt D.length fun _ hfuel => findExtreme_eq hD h hfuel, ?_⟩
    rw [← plug_append] at h
    exact h.reachedSlot

/-- **The representation invariant holds in every reachable state**, the sentinel
is never written after construction, and the three searches end. -/
theorem invariant_of_run (ops : List (Op T V)) :
    (∃ s, Run ops s) ∧ ∀ s, Run ops s → RepInvariant s ∧
      (∃ rest, s.heap.log = [.new s.null, .write s.null, .write s.null] ++ rest ∧
        .write s.null ∉ rest ∧ .delete s.null ∉ rest) ∧
      (∀ k, ∃ σ, Returns (fun fuel => find fuel k s) σ ∧ ReachedSlot s σ) ∧
      (∀ σ, ReachedSlot s σ →
        ∃ τ, Returns (fun fuel => findMin fuel σ s) τ ∧ ReachedSlot s τ) ∧
      (∀ σ, ReachedSlot s σ →
        ∃ τ, Returns (fun fuel => findMax fuel σ s) τ ∧ ReachedSlot s τ) := by
  refine ⟨exists_run ops, ?_⟩
  intro s hrun
  obtain ⟨t, hholds⟩ := hrun.holds
  obtain ⟨rest, hlog, hrest⟩ := hrun.sentinel_log
  refine ⟨repInvariant hholds.represents hholds.ordered, ⟨rest, hlog, hrest, fun hdel => ?_⟩,
    fun k => ?_, fun _ hσ => findExtreme_returns .left hholds.represents hσ,
    fun _ hσ => findExtreme_returns .right hholds.represents hσ⟩
  · refine Heap.not_mem_delete_of_live hholds.represents.sentinel_cell ?_
    rw [hlog]
    exact List.mem_append_right _ hdel
  · obtain ⟨C, u, rfl, hret, -⟩ := hholds.find k
    exact ⟨slot C, hret, hholds.represents.reachedSlot⟩

end BstGenerator.Bst
