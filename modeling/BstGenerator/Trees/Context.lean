import Mathlib.Data.Tree.Basic
import Mathlib.Data.List.Basic
import Mathlib.Data.List.Induction

/-!
# Binary trees with a hole

A program that walks down a tree by rewriting pointers works on a *slot*: the
place in the parent (or the root variable) that holds the pointer to a subtree.
Here a slot is a `Context`, the list of frames from the slot up to the root.

- `plug C t`: the whole tree with `t` put in the slot `C`.
- `inorder_plug`: the left-to-right listing of `plug C t` is what lies before the
  slot, the listing of `t`, and what lies after it, so replacing a subtree only
  changes the middle part.
- `exists_extreme`: every nonempty tree is its extreme node (the least one going
  left, the greatest one going right) plugged into a straight spine.
-/

namespace BstGenerator.Trees

universe u

variable {α : Type u}

open BinaryTree (nil node)

/-- The two fields of a node that point to subtrees. -/
inductive Dir
  | left
  | right
  deriving DecidableEq, Repr

/-! ## Listings -/

/-- Labels from left to right. -/
def inorder : BinaryTree α → List α
  | .nil => []
  | .node x l r => inorder l ++ x :: inorder r

/-- Labels, each before those of its subtrees. -/
def preorder : BinaryTree α → List α
  | .nil => []
  | .node x l r => x :: (preorder l ++ preorder r)

/-- Labels, each after those of its subtrees. -/
def postorder : BinaryTree α → List α
  | .nil => []
  | .node x l r => postorder l ++ postorder r ++ [x]

@[simp] theorem inorder_nil : inorder (nil : BinaryTree α) = [] := rfl

@[simp] theorem inorder_node (x : α) (l r : BinaryTree α) :
    inorder (node x l r) = inorder l ++ x :: inorder r := rfl

@[simp] theorem preorder_nil : preorder (nil : BinaryTree α) = [] := rfl

@[simp] theorem preorder_node (x : α) (l r : BinaryTree α) :
    preorder (node x l r) = x :: (preorder l ++ preorder r) := rfl

@[simp] theorem postorder_nil : postorder (nil : BinaryTree α) = [] := rfl

@[simp] theorem postorder_node (x : α) (l r : BinaryTree α) :
    postorder (node x l r) = postorder l ++ postorder r ++ [x] := rfl

@[simp] theorem length_inorder (t : BinaryTree α) : (inorder t).length = t.numNodes := by
  induction t with
  | nil => rfl
  | node x l r ihl ihr =>
    simp only [inorder_node, List.length_append, List.length_cons, ihl, ihr,
      BinaryTree.numNodes]
    omega

theorem preorder_perm (t : BinaryTree α) : (preorder t).Perm (inorder t) := by
  induction t with
  | nil => exact List.Perm.refl _
  | node x l r ihl ihr =>
    rw [preorder_node, inorder_node]
    exact ((ihl.append ihr).cons x).trans List.perm_middle.symm

theorem postorder_perm (t : BinaryTree α) : (postorder t).Perm (inorder t) := by
  induction t with
  | nil => exact List.Perm.refl _
  | node x l r ihl ihr =>
    rw [postorder_node, inorder_node, List.append_assoc]
    exact ihl.append ((List.perm_append_singleton x _).trans (ihr.cons x))

/-! ## Frames and contexts -/

/-- One step down from a node: the side taken, the node's label, and the subtree
left behind on the other side. -/
structure Frame (α : Type u) where
  dir : Dir
  label : α
  sibling : BinaryTree α

/-- The node of a frame with `t` on the side taken. -/
def Frame.fill : Frame α → BinaryTree α → BinaryTree α
  | ⟨.left, x, r⟩, t => .node x t r
  | ⟨.right, x, l⟩, t => .node x l t

/-- A slot: the frames passed on the way to it, the innermost first. -/
abbrev Context (α : Type u) : Type u := List (Frame α)

/-- Put a subtree in a slot. -/
def plug : Context α → BinaryTree α → BinaryTree α
  | [], t => t
  | f :: C, t => plug C (f.fill t)

@[simp] theorem plug_nil (t : BinaryTree α) : plug [] t = t := rfl

@[simp] theorem plug_cons (f : Frame α) (C : Context α) (t : BinaryTree α) :
    plug (f :: C) t = plug C (f.fill t) := rfl

theorem plug_append (D C : Context α) (t : BinaryTree α) :
    plug (D ++ C) t = plug C (plug D t) := by
  induction D generalizing t with
  | nil => rfl
  | cons f D ih => exact ih (f.fill t)

theorem Frame.fill_ne_nil (f : Frame α) (t : BinaryTree α) : f.fill t ≠ nil := by
  obtain ⟨d, x, s⟩ := f
  cases d <;> exact fun h => nomatch h

theorem plug_ne_nil (C : Context α) {t : BinaryTree α} (ht : t ≠ nil) : plug C t ≠ nil := by
  induction C generalizing t with
  | nil => exact ht
  | cons f C ih => exact ih (f.fill_ne_nil t)

/-- The labels left of a slot. -/
def before : Context α → List α
  | [] => []
  | ⟨.left, _, _⟩ :: C => before C
  | ⟨.right, x, l⟩ :: C => before C ++ (inorder l ++ [x])

/-- The labels right of a slot. -/
def after : Context α → List α
  | [] => []
  | ⟨.left, x, r⟩ :: C => x :: inorder r ++ after C
  | ⟨.right, _, _⟩ :: C => after C

/-- **The listing of a plugged tree** depends on the subtree only in its middle
part. -/
theorem inorder_plug (C : Context α) (t : BinaryTree α) :
    inorder (plug C t) = before C ++ inorder t ++ after C := by
  induction C generalizing t with
  | nil => simp [before, after]
  | cons f C ih =>
    obtain ⟨d, x, s⟩ := f
    rw [plug_cons, ih]
    cases d with
    | left => simp [Frame.fill, before, after]
    | right => simp [Frame.fill, before, after]

theorem numNodes_plug (C : Context α) (t : BinaryTree α) :
    (plug C t).numNodes = (before C).length + t.numNodes + (after C).length := by
  rw [← length_inorder, inorder_plug, List.length_append, List.length_append, length_inorder]

/-- Every frame has its label left or right of the slot. -/
theorem length_le_before_after (C : Context α) :
    C.length ≤ (before C).length + (after C).length := by
  induction C with
  | nil => exact Nat.zero_le _
  | cons f C ih =>
    obtain ⟨d, x, s⟩ := f
    cases d with
    | left =>
      simp only [before, after, List.length_cons, List.length_append]
      omega
    | right =>
      simp only [before, after, List.length_cons, List.length_append, List.length_nil]
      omega

/-- A slot that holds a node lies no deeper than the tree has nodes. -/
theorem length_lt_numNodes (C : Context α) {t : BinaryTree α} (ht : t ≠ nil) :
    C.length < (plug C t).numNodes := by
  have hle := length_le_before_after C
  have hpos : 0 < t.numNodes := by
    cases t with
    | nil => exact absurd rfl ht
    | node x l r => exact Nat.succ_pos _
  rw [numNodes_plug]
  omega

/-- Every label sits at the root of some subtree. -/
theorem exists_plug_of_mem {x : α} {t : BinaryTree α} (hx : x ∈ inorder t) :
    ∃ (C : Context α) (l r : BinaryTree α), t = plug C (node x l r) := by
  induction t with
  | nil => cases hx
  | node y l r ihl ihr =>
    rcases List.mem_append.mp hx with hx | hx
    · obtain ⟨C, a, b, rfl⟩ := ihl hx
      refine ⟨C ++ [⟨.left, y, r⟩], a, b, ?_⟩
      rw [plug_append]
      rfl
    · rcases List.mem_cons.mp hx with rfl | hx
      · exact ⟨[], l, r, rfl⟩
      · obtain ⟨C, a, b, rfl⟩ := ihr hx
        refine ⟨C ++ [⟨.right, y, l⟩], a, b, ?_⟩
        rw [plug_append]
        rfl

/-- A subtree has only labels of the whole tree. -/
theorem mem_inorder_plug {C : Context α} {x : α} {t : BinaryTree α} (hx : x ∈ inorder t) :
    x ∈ inorder (plug C t) := by
  rw [inorder_plug]
  exact List.mem_append_left _ (List.mem_append_right _ hx)

/-- The labels of the frames around a slot are labels of the whole tree. -/
theorem label_mem_plug (f : Frame α) (C : Context α) (t : BinaryTree α) :
    f.label ∈ inorder (plug (f :: C) t) := by
  obtain ⟨d, x, s⟩ := f
  cases d <;> simp [inorder_plug, Frame.fill]

/-- A tree with a hole, seen from the root: the hole is the whole tree, or lies below
the root on one side. -/
theorem plug_eq_node {C : Context α} {t a b : BinaryTree α} {y : α}
    (h : plug C t = node y a b) :
    (C = [] ∧ t = node y a b) ∨ (∃ D, C = D ++ [⟨.left, y, b⟩] ∧ plug D t = a) ∨
      (∃ D, C = D ++ [⟨.right, y, a⟩] ∧ plug D t = b) := by
  induction C using List.reverseRecOn with
  | nil => exact Or.inl ⟨rfl, h⟩
  | append_singleton D f _ =>
    obtain ⟨d, x, s⟩ := f
    rw [plug_append] at h
    cases d with
    | left =>
      cases h
      exact Or.inr (Or.inl ⟨D, rfl, rfl⟩)
    | right =>
      cases h
      exact Or.inr (Or.inr ⟨D, rfl, rfl⟩)

/-- **A label that occurs once sits in one slot.** -/
theorem plug_unique {C D : Context α} {x : α} {l r l' r' t : BinaryTree α}
    (hnd : (inorder t).Nodup) (hC : plug C (node x l r) = t)
    (hD : plug D (node x l' r') = t) : C = D := by
  induction t generalizing C D with
  | nil => exact absurd hC (plug_ne_nil C fun h => nomatch h)
  | node y a b iha ihb =>
    have hx {E : Context α} {l r u : BinaryTree α} (h : plug E (node x l r) = u) :
        x ∈ inorder u := h ▸ mem_inorder_plug (by simp)
    obtain ⟨hna, hnb, hab⟩ := List.nodup_append.mp hnd
    obtain ⟨hyb, hnb⟩ := List.nodup_cons.mp hnb
    have hya : y ∉ inorder a := fun hy => hab y hy y (List.mem_cons_self ..) rfl
    have hdis : x ∈ inorder a → x ∉ inorder b := fun ha hb =>
      hab x ha x (List.mem_cons_of_mem _ hb) rfl
    -- the two occurrences of `x` lie at the root, left of it or right of it; where they
    -- differ, `x` occurs twice
    rcases plug_eq_node hC with ⟨rfl, eC⟩ | ⟨C, rfl, eC⟩ | ⟨C, rfl, eC⟩ <;>
      rcases plug_eq_node hD with ⟨rfl, eD⟩ | ⟨D, rfl, eD⟩ | ⟨D, rfl, eD⟩
    · rfl
    · cases eC
      exact absurd (hx eD) hya
    · cases eC
      exact absurd (hx eD) hyb
    · cases eD
      exact absurd (hx eC) hya
    · rw [iha hna eC eD]
    · exact absurd (hx eD) (hdis (hx eC))
    · cases eD
      exact absurd (hx eC) hyb
    · exact absurd (hx eC) (hdis (hx eD))
    · rw [ihb hnb eC eD]

/-! ## Spines -/

/-- All frames of the context go the same way. -/
def Straight (d : Dir) (D : Context α) : Prop := ∀ f ∈ D, f.dir = d

/-- A left spine has nothing before its hole. -/
theorem before_of_straight {D : Context α} (hD : Straight .left D) : before D = [] := by
  induction D with
  | nil => rfl
  | cons f D ih =>
    obtain ⟨d, x, s⟩ := f
    have hd : d = .left := hD _ (List.mem_cons_self ..)
    subst hd
    exact ih fun f hf => hD f (List.mem_cons_of_mem _ hf)

/-- A right spine has nothing after its hole. -/
theorem after_of_straight {D : Context α} (hD : Straight .right D) : after D = [] := by
  induction D with
  | nil => rfl
  | cons f D ih =>
    obtain ⟨d, x, s⟩ := f
    have hd : d = .right := hD _ (List.mem_cons_self ..)
    subst hd
    exact ih fun f hf => hD f (List.mem_cons_of_mem _ hf)

theorem Straight.snoc {d : Dir} {D : Context α} (hD : Straight d D) (x : α)
    (s : BinaryTree α) : Straight d (D ++ [⟨d, x, s⟩]) := by
  intro f hf
  rcases List.mem_append.mp hf with hf | hf
  · exact hD f hf
  · rw [List.mem_singleton.mp hf]

/-- **Every nonempty tree has an extreme node** on either side: one without a
subtree on that side, reached by a straight spine. -/
theorem exists_extreme (d : Dir) {t : BinaryTree α} (ht : t ≠ nil) :
    ∃ (D : Context α) (m : α) (s : BinaryTree α),
      t = plug D (Frame.fill ⟨d, m, s⟩ nil) ∧ Straight d D := by
  induction t with
  | nil => exact absurd rfl ht
  | node x l r ihl ihr =>
    -- `near` is the subtree on the side of `d`, `far` the other one
    obtain ⟨near, far, hfill, ih⟩ : ∃ near far, node x l r = Frame.fill ⟨d, x, far⟩ near ∧
        (near ≠ nil → ∃ (D : Context α) (m : α) (s : BinaryTree α),
          near = plug D (Frame.fill ⟨d, m, s⟩ nil) ∧ Straight d D) := by
      cases d with
      | left => exact ⟨l, r, rfl, ihl⟩
      | right => exact ⟨r, l, rfl, ihr⟩
    by_cases hnear : near = nil
    · subst hnear
      exact ⟨[], x, far, hfill, fun f hf => nomatch hf⟩
    · obtain ⟨D, m, s, rfl, hD⟩ := ih hnear
      refine ⟨D ++ [⟨d, x, far⟩], m, s, ?_, hD.snoc x far⟩
      rw [plug_append]
      exact hfill

/-- The label at the end of a listing on side `d`. -/
def endOf : Dir → List α → Option α
  | .left, xs => xs.head?
  | .right, xs => xs.getLast?

/-- The extreme node is at the end of the listing. -/
theorem endOf_extreme {d : Dir} {D : Context α} (hD : Straight d D) (m : α)
    (s : BinaryTree α) : endOf d (inorder (plug D (Frame.fill ⟨d, m, s⟩ nil))) = some m := by
  cases d with
  | left => simp [endOf, inorder_plug, before_of_straight hD, Frame.fill]
  | right => simp [endOf, inorder_plug, after_of_straight hD, Frame.fill]

end BstGenerator.Trees
