import BstGenerator.Machine.Run
import BstGenerator.Bst.Model
import BstGenerator.Trees.Search

/-!
# Trees laid out in the heap

A search tree in the heap is a `BinaryTree` of `Entry`s, an entry being a node's
address with its key and value: `layout` gives the cells such a tree occupies,
each child pointer being the address of the subtree's root, or `null_` where the
subtree is missing.

- `Represents s t R`: the object of `s` holds `t`, and the heap is exactly the
  layout of `t`, the sentinel, and the rest `R`, which belongs to others. Since
  `Heap.Is` allows no address twice, this says at once that the nodes are
  distinct, that none of them is the sentinel and that nothing else is allocated.
- `Owns s C p R`: the same for a tree with a hole, `p` being the pointer stored in
  the slot. `Owns.store` is the one lemma about assigning through a `Node * &`.
- `Effect s s' evs`: what a method leaves in the ledger.
- `Rewires s s' W`: assignments changed at most the slots `W`. `Unlinks` is the same
  with a node deleted. These hold of the assignments as such, whatever the heap.
-/

namespace BstGenerator.Bst

open Machine Memory Trees
open BinaryTree (nil node)

/-! ## Layout -/

/-- A node as an entry of the abstract tree. -/
structure Entry (T V : Type) where
  addr : Addr
  key : T
  value : V
  deriving DecidableEq, Repr

variable {T V : Type}

/-- The key and value an entry contributes to the map. -/
def Entry.pair (x : Entry T V) : T × V := (x.key, x.value)

/-- The node an entry occupies, with its child pointers. -/
def Entry.toNode (x : Entry T V) (l r : Addr) : Node T V := ⟨l, r, x.key, x.value⟩

/-- The pointer to a subtree. -/
def ptr (null : Addr) : BinaryTree (Entry T V) → Addr
  | .nil => null
  | .node x _ _ => x.addr

/-- The cells a tree occupies. -/
def layout (null : Addr) : BinaryTree (Entry T V) → Multiset (Addr × Node T V)
  | .nil => 0
  | .node x l r =>
    {(x.addr, x.toNode (ptr null l) (ptr null r))} + (layout null l + layout null r)

/-- The node of a frame, `p` being stored on the side taken. -/
def frameNode (null : Addr) : Frame (Entry T V) → Addr → Node T V
  | ⟨.left, x, r⟩, p => x.toNode p (ptr null r)
  | ⟨.right, x, l⟩, p => x.toNode (ptr null l) p

/-- The pointer to a tree with a hole, `p` being the pointer to what fills it. -/
def ctxPtr : Context (Entry T V) → Addr → Addr
  | [], p => p
  | f :: C, _ => ctxPtr C f.label.addr

/-- The cells a tree with a hole occupies, `p` being stored in the slot. -/
def ctxLayout (null : Addr) : Context (Entry T V) → Addr → Multiset (Addr × Node T V)
  | [], _ => 0
  | f :: C, p =>
    {(f.label.addr, frameNode null f p)} + (layout null f.sibling +
      ctxLayout null C f.label.addr)

/-- The reference a program holds to the slot. -/
def slot : Context (Entry T V) → Slot
  | [] => .root
  | f :: _ => .child f.dir f.label.addr

/-- The addresses of a tree, from left to right. -/
def addrs (t : BinaryTree (Entry T V)) : List Addr := (inorder t).map Entry.addr

@[simp] theorem ptr_nil (null : Addr) : ptr null (nil : BinaryTree (Entry T V)) = null := rfl

@[simp] theorem ptr_node (null : Addr) (x : Entry T V) (l r : BinaryTree (Entry T V)) :
    ptr null (node x l r) = x.addr := rfl

@[simp] theorem layout_nil (null : Addr) :
    layout null (nil : BinaryTree (Entry T V)) = 0 := rfl

@[simp] theorem layout_node (null : Addr) (x : Entry T V) (l r : BinaryTree (Entry T V)) :
    layout null (node x l r) =
      {(x.addr, x.toNode (ptr null l) (ptr null r))} + (layout null l + layout null r) := rfl

theorem ptr_fill (null : Addr) (f : Frame (Entry T V)) (t : BinaryTree (Entry T V)) :
    ptr null (f.fill t) = f.label.addr := by
  obtain ⟨d, x, s⟩ := f
  cases d <;> rfl

theorem layout_fill (null : Addr) (f : Frame (Entry T V)) (t : BinaryTree (Entry T V)) :
    layout null (f.fill t) =
      {(f.label.addr, frameNode null f (ptr null t))} +
        (layout null f.sibling + layout null t) := by
  obtain ⟨d, x, s⟩ := f
  cases d with
  | left =>
    show {(x.addr, x.toNode (ptr null t) (ptr null s))} + (layout null t + layout null s) = _
    rw [add_comm (layout null t)]
    rfl
  | right => rfl

theorem ptr_plug (null : Addr) (C : Context (Entry T V)) (t : BinaryTree (Entry T V)) :
    ptr null (plug C t) = ctxPtr C (ptr null t) := by
  induction C generalizing t with
  | nil => rfl
  | cons f C ih => rw [plug_cons, ih, ptr_fill, ctxPtr]

theorem layout_plug (null : Addr) (C : Context (Entry T V)) (t : BinaryTree (Entry T V)) :
    layout null (plug C t) = ctxLayout null C (ptr null t) + layout null t := by
  induction C generalizing t with
  | nil => simp [ctxLayout]
  | cons f C ih =>
    rw [plug_cons, ih, ptr_fill, layout_fill, ctxLayout]
    abel

theorem ctxLayout_append (null : Addr) (D C : Context (Entry T V)) (p : Addr) :
    ctxLayout null (D ++ C) p = ctxLayout null D p + ctxLayout null C (ctxPtr D p) := by
  induction D generalizing p with
  | nil => simp [ctxLayout, ctxPtr]
  | cons f D ih =>
    rw [List.cons_append, ctxLayout, ih, ctxLayout, ctxPtr]
    abel

theorem map_fst_layout (null : Addr) (t : BinaryTree (Entry T V)) :
    (layout null t).map Prod.fst = addrs t := by
  induction t with
  | nil => rfl
  | node x l r ihl ihr =>
    rw [layout_node, Multiset.map_add, Multiset.map_add, Multiset.map_singleton, ihl, ihr,
      Multiset.singleton_add, Multiset.coe_add, Multiset.cons_coe, Multiset.coe_eq_coe]
    simp only [addrs, inorder_node, List.map_append, List.map_cons]
    exact List.perm_middle.symm

/-! ## States that hold a tree -/

/-- The sentinel node: its own left and right child. -/
def sentinel [Inhabited T] [Inhabited V] (null : Addr) : Node T V :=
  ⟨null, null, default, default⟩

/-- The object holds a tree with a hole, `p` being stored in the slot. -/
structure Owns (s : State T V) (C : Context (Entry T V)) (p : Addr)
    (R : Multiset (Addr × Node T V)) : Prop where
  root : s.root = ctxPtr C p
  heap : s.heap.Is (ctxLayout s.null C p + R)

/-- The object holds the tree `t`, and `R` is the rest of the heap. -/
structure Represents [Inhabited T] [Inhabited V] (s : State T V) (t : BinaryTree (Entry T V))
    (R : Multiset (Addr × Node T V)) : Prop where
  root : s.root = ptr s.null t
  heap : s.heap.Is (layout s.null t + ({(s.null, sentinel s.null)} + R))

/-- The cells written when a slot is assigned to: `root_` is not in the heap. -/
def Slot.cells : Slot → List Addr
  | .root => []
  | .child _ a => [a]

/-- A method kept the object's sentinel and recorded `evs`. -/
structure Effect (s s' : State T V) (evs : List Event) : Prop where
  null : s'.null = s.null
  log : s'.heap.log = s.heap.log ++ evs

theorem Effect.refl (s : State T V) : Effect s s [] := ⟨rfl, (List.append_nil _).symm⟩

theorem Effect.trans {s s' s'' : State T V} {e e' : List Event} (h : Effect s s' e)
    (h' : Effect s' s'' e') : Effect s s'' (e ++ e') where
  null := h'.null.trans h.null
  log := by rw [h'.log, h.log, List.append_assoc]

/-- The key and value of a node, which no assignment through a `Node * &` touches. -/
def State.pairAt (s : State T V) (a : Addr) : Option (T × V) :=
  (s.heap.cells a).map fun n => (n.key, n.value)

/-- Only the slots `W` were assigned to. -/
structure Rewires (s s' : State T V) (W : List Slot) : Prop where
  load : ∀ σ ∉ W, s'.load σ = s.load σ
  pair : ∀ a, s'.pairAt a = s.pairAt a

/-- Only the slots `W` were assigned to, and the node at `a` was deleted. -/
structure Unlinks (s s' : State T V) (a : Addr) (W : List Slot) : Prop where
  load : ∀ σ ∉ W, (∀ d, σ ≠ .child d a) → s'.load σ = s.load σ
  pair : ∀ b, s'.pairAt b = if b = a then none else s.pairAt b

section Access

variable {s : State T V} {p : Addr} {n : Node T V}

theorem State.load_child (hn : s.heap.cells p = some n) (d : Dir) :
    s.load (.child d p) = .ok (n.child d) := by
  simp [State.load, State.node, hn]

theorem State.left_eq (hn : s.heap.cells p = some n) : s.left p = .ok n.left :=
  State.load_child hn .left

theorem State.right_eq (hn : s.heap.cells p = some n) : s.right p = .ok n.right :=
  State.load_child hn .right

theorem State.key_eq (hn : s.heap.cells p = some n) : s.key p = .ok n.key := by
  simp [State.key, State.node, hn]

theorem frameNode_child (null : Addr) (f : Frame (Entry T V)) (q : Addr) :
    (frameNode null f q).child f.dir = q := by
  obtain ⟨d, x, r⟩ := f
  cases d <;> rfl

theorem frameNode_setChild (null : Addr) (f : Frame (Entry T V)) (q q' : Addr) :
    (frameNode null f q).setChild f.dir q' = frameNode null f q' := by
  obtain ⟨d, x, r⟩ := f
  cases d <;> rfl

theorem Node.child_setChild_of_ne (n : Node T V) {d d' : Dir} (hd : d' ≠ d) (p : Addr) :
    (n.setChild d p).child d' = n.child d' := by
  cases d <;> cases d' <;> first | rfl | exact absurd rfl hd

/-- An assignment changes one slot. -/
theorem State.store_rewires {s' : State T V} {σ : Slot} (h : s.store σ p = .ok s') :
    Rewires s s' [σ] := by
  cases σ with
  | root =>
    cases h
    refine ⟨fun τ hτ => ?_, fun a => rfl⟩
    cases τ with
    | root => exact absurd (List.mem_singleton_self _) hτ
    | child d a => rfl
  | child d a =>
    cases hn : s.heap.cells a with
    | none =>
      simp only [State.store, hn] at h
      cases h
    | some n =>
      simp only [State.store, hn] at h
      cases h
      refine ⟨fun τ hτ => ?_, fun b => ?_⟩
      · cases τ with
        | root => rfl
        | child d' b =>
          by_cases hb : b = a
          · subst hb
            have hd : d' ≠ d := fun hd => hτ (hd ▸ List.mem_singleton_self _)
            simp only [State.load, State.node, Heap.write_cells hn, if_pos, hn, ok_bind,
              n.child_setChild_of_ne hd]
          · simp only [State.load, State.node, Heap.write_cells hn, if_neg hb]
      · simp only [State.pairAt, Heap.write_cells hn]
        by_cases hb : b = a
        · subst hb
          rw [if_pos rfl, hn]
          cases d <;> rfl
        · rw [if_neg hb]

theorem Rewires.trans {s' s'' : State T V} {W W' : List Slot} (h : Rewires s s' W)
    (h' : Rewires s' s'' W') : Rewires s s'' (W ++ W') where
  load := fun σ hσ => by
    rw [List.mem_append, not_or] at hσ
    rw [h'.load σ hσ.2, h.load σ hσ.1]
  pair := fun a => (h'.pair a).trans (h.pair a)

/-- Assignments and then a `delete`. -/
theorem Rewires.unlinks {s' s'' : State T V} {W : List Slot} (h : Rewires s s' W)
    {a : Addr} (hdel : s'.delete a = .ok s'') : Unlinks s s'' a W := by
  cases hn : s'.heap.cells a with
  | none =>
    simp only [State.delete, hn] at hdel
    cases hdel
  | some n =>
    simp only [State.delete, hn] at hdel
    cases hdel
    refine ⟨fun σ hσ ha => ?_, fun b => ?_⟩
    · rw [← h.load σ hσ]
      cases σ with
      | root => rfl
      | child d b =>
        have hb : b ≠ a := fun hb => ha d (hb ▸ rfl)
        simp only [State.load, State.node, Heap.delete_cells hn, if_neg hb]
    · rw [← h.pair b]
      simp only [State.pairAt, Heap.delete_cells hn]
      split <;> rfl

end Access

section Steps

variable {s : State T V} {null p : Addr} {n : Node T V} {R : Multiset (Addr × Node T V)}

/-- Assigning to a field of an owned node. -/
theorem State.store_child (hM : s.heap.Is ({(p, n)} + R)) (d : Dir) (q : Addr) :
    ∃ h', s.store (.child d p) q = .ok { s with heap := h' } ∧
      h'.Is ({(p, n.setChild d q)} + R) ∧ h'.log = s.heap.log ++ [.write p] :=
  ⟨s.heap.write p (n.setChild d q), by simp only [State.store, hM.read], hM.write _,
    Heap.write_log hM.read _⟩

/-- Assigning to a slot inside an owned node changes the pointer in the slot. -/
theorem State.store_slot {f : Frame (Entry T V)} {C : Context (Entry T V)}
    (hM : s.heap.Is (ctxLayout null (f :: C) p + R)) (q : Addr) :
    ∃ h', s.store (slot (f :: C)) q = .ok { s with heap := h' } ∧
      h'.Is (ctxLayout null (f :: C) q + R) ∧
      h'.log = s.heap.log ++ (slot (f :: C)).cells.map .write := by
  have hcell : s.heap.Is ({(f.label.addr, frameNode null f p)} +
      (layout null f.sibling + ctxLayout null C f.label.addr + R)) :=
    hM.congr (by simp only [ctxLayout, add_assoc])
  obtain ⟨h', hstore, hIs, hlog⟩ := State.store_child hcell f.dir q
  refine ⟨h', hstore, hIs.congr ?_, hlog⟩
  simp only [ctxLayout, add_assoc, frameNode_setChild]

/-- Reading a slot inside an owned node. -/
theorem State.load_slot {f : Frame (Entry T V)} {C : Context (Entry T V)}
    (hM : s.heap.Is (ctxLayout null (f :: C) p + R)) : s.load (slot (f :: C)) = .ok p := by
  have hcell : s.heap.cells f.label.addr = some (frameNode null f p) :=
    (hM.cells_iff _ _).mpr (by simp [ctxLayout])
  rw [slot, State.load_child hcell, frameNode_child]

/-- Deleting an owned node gives its cell up. -/
theorem State.delete_cell (hM : s.heap.Is ({(p, n)} + R)) :
    ∃ h', s.delete p = .ok { s with heap := h' } ∧ h'.Is R ∧
      h'.log = s.heap.log ++ [.delete p] :=
  ⟨s.heap.delete p, by simp only [State.delete, hM.read], hM.delete,
    Heap.delete_log hM.read⟩

end Steps

namespace Owns

variable {s : State T V} {C : Context (Entry T V)} {p : Addr}
  {R : Multiset (Addr × Node T V)}

/-- Reading through the reference gives the pointer in the slot. -/
theorem load (h : Owns s C p R) : s.load (slot C) = .ok p := by
  cases C with
  | nil => exact congrArg Except.ok h.root
  | cons f C => exact State.load_slot h.heap

/-- **Assigning through a reference** changes the pointer in the slot and nothing
else. -/
theorem store (h : Owns s C p R) (q : Addr) :
    ∃ s', s.store (slot C) q = .ok s' ∧ Owns s' C q R ∧
      Effect s s' ((slot C).cells.map .write) := by
  cases C with
  | nil => exact ⟨{ s with root := q }, rfl, ⟨rfl, h.heap⟩, rfl, (List.append_nil _).symm⟩
  | cons f C =>
    obtain ⟨h', hstore, hIs, hlog⟩ := State.store_slot h.heap q
    exact ⟨{ s with heap := h' }, hstore, ⟨h.root, hIs⟩, rfl, hlog⟩

theorem congr {R' : Multiset (Addr × Node T V)} (h : Owns s C p R) (hR : R = R') :
    Owns s C p R' :=
  hR ▸ h

/-- The cells outside the tree with a hole can be read. -/
theorem read {a : Addr} {n : Node T V} (h : Owns s C p R) (hmem : (a, n) ∈ R) :
    s.heap.cells a = some n :=
  (h.heap.cells_iff a n).mpr (Multiset.mem_add.mpr (Or.inr hmem))

section Outside

variable {a null p' : Addr} {n : Node T V} {f : Frame (Entry T V)} {F : Context (Entry T V)}

/-- Assigning to a field of a node outside the tree with a hole. -/
theorem store_node (h : Owns s C p ({(a, n)} + R)) (d : Dir) (q : Addr) :
    ∃ s', s.store (.child d a) q = .ok s' ∧ Owns s' C p ({(a, n.setChild d q)} + R) ∧
      Effect s s' [.write a] := by
  obtain ⟨h', hstore, hIs, hlog⟩ :=
    State.store_child (h.heap.congr (add_left_comm ..)) d q
  exact ⟨{ s with heap := h' }, hstore, ⟨h.root, hIs.congr (add_left_comm ..)⟩, rfl, hlog⟩

/-- Reading a slot of another tree with a hole. -/
theorem load_slot (h : Owns s C p (ctxLayout null (f :: F) p' + R)) :
    s.load (slot (f :: F)) = .ok p' :=
  State.load_slot (h.heap.congr (add_left_comm ..))

/-- Assigning to a slot of another tree with a hole. -/
theorem store_slot (h : Owns s C p (ctxLayout null (f :: F) p' + R)) (q : Addr) :
    ∃ s', s.store (slot (f :: F)) q = .ok s' ∧
      Owns s' C p (ctxLayout null (f :: F) q + R) ∧
      Effect s s' ((slot (f :: F)).cells.map .write) := by
  obtain ⟨h', hstore, hIs, hlog⟩ := State.store_slot (h.heap.congr (add_left_comm ..)) q
  exact ⟨{ s with heap := h' }, hstore, ⟨h.root, hIs.congr (add_left_comm ..)⟩, rfl, hlog⟩

/-- Deleting a node outside the tree with a hole. -/
theorem delete_node (h : Owns s C p ({(a, n)} + R)) :
    ∃ s', s.delete a = .ok s' ∧ Owns s' C p R ∧ Effect s s' [.delete a] := by
  obtain ⟨h', hdel, hIs, hlog⟩ := State.delete_cell (h.heap.congr (add_left_comm ..))
  exact ⟨{ s with heap := h' }, hdel, ⟨h.root, hIs⟩, rfl, hlog⟩

end Outside

end Owns

namespace Represents

variable [Inhabited T] [Inhabited V] {s : State T V} {t : BinaryTree (Entry T V)}
  {R : Multiset (Addr × Node T V)}

theorem plug_iff {C : Context (Entry T V)} :
    Represents s (plug C t) R ↔
      Owns s C (ptr s.null t) (layout s.null t + ({(s.null, sentinel s.null)} + R)) := by
  constructor
  · rintro ⟨hroot, hheap⟩
    exact ⟨by rw [hroot, ptr_plug], hheap.congr (by rw [layout_plug, add_assoc])⟩
  · rintro ⟨hroot, hheap⟩
    exact ⟨by rw [hroot, ptr_plug], hheap.congr (by rw [layout_plug, add_assoc])⟩

/-- Reading through the reference to a slot gives the pointer to its subtree. -/
theorem load {C : Context (Entry T V)} (h : Represents s (plug C t) R) :
    s.load (slot C) = .ok (ptr s.null t) :=
  (plug_iff.mp h).load

theorem sentinel_cell (h : Represents s t R) : s.heap.cells s.null = some (sentinel s.null) :=
  (h.heap.cells_iff _ _).mpr (by simp)

/-- The cell of a node anywhere in the tree. -/
theorem cell {C : Context (Entry T V)} {x : Entry T V} {l r : BinaryTree (Entry T V)}
    (h : Represents s (plug C (node x l r)) R) :
    s.heap.cells x.addr = some (x.toNode (ptr s.null l) (ptr s.null r)) :=
  (h.heap.cells_iff _ _).mpr (by simp [layout_plug])

theorem nodup (h : Represents s t R) : (s.null :: addrs t).Nodup := by
  have hnd := h.heap.nodup
  rw [Multiset.map_add, Multiset.map_add, map_fst_layout, Multiset.map_singleton,
    ← add_assoc, Multiset.nodup_add] at hnd
  have h1 := hnd.1
  rw [add_comm, Multiset.singleton_add, Multiset.cons_coe] at h1
  exact Multiset.coe_nodup.mp h1

/-- No node of the tree is the sentinel. -/
theorem ne_null (h : Represents s t R) {x : Entry T V} (hx : x ∈ inorder t) :
    x.addr ≠ s.null := fun heq =>
  (List.nodup_cons.mp h.nodup).1 (heq ▸ List.mem_map_of_mem hx)

theorem ne_null_of_plug {C : Context (Entry T V)} {x : Entry T V}
    {l r : BinaryTree (Entry T V)} (h : Represents s (plug C (node x l r)) R) :
    x.addr ≠ s.null :=
  h.ne_null (by simp [inorder_plug])

/-- The sentinel has no slot of the tree. -/
theorem null_not_mem_cells {C : Context (Entry T V)} (h : Represents s (plug C t) R) :
    s.null ∉ (slot C).cells := by
  cases C with
  | nil => exact List.not_mem_nil
  | cons f C =>
    exact fun hmem => h.ne_null (label_mem_plug f C t) (List.mem_singleton.mp hmem).symm

/-- A slot holds `null_` iff its subtree is missing. -/
theorem ptr_eq_null_iff {C : Context (Entry T V)} (h : Represents s (plug C t) R) :
    ptr s.null t = s.null ↔ t = nil := by
  cases t with
  | nil => simp
  | node x l r => simpa using h.ne_null_of_plug

end Represents

end BstGenerator.Bst
