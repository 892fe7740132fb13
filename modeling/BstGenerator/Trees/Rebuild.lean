import BstGenerator.Trees.Search

/-!
# Building a search tree by insertions

`insert` is defined at the slot where a search ends. Seen from the root it descends:
below a node with another key it is an insertion into the subtree on that key's side, and
the other subtree stays as it is. So inserting many labels that all belong on one side
builds up that side alone (`insertAll_node_left`, `insertAll_node_right`), and a listing
that gives each node before those below it rebuilds the tree it was taken from.

- `insertAll_preorder`, `insertAll_reverse_postorder`: the two listings used here.
- `map_insert`: insertion commutes with a relabelling that keeps the keys.
-/

namespace BstGenerator.Trees

universe u v w

variable {α : Type u} {β : Type v} {κ : Type w}

open BinaryTree (nil node)

/-! ## Relabelling -/

section Map

variable (f : α → β)

theorem inorder_map (t : BinaryTree α) : inorder (t.map f) = (inorder t).map f := by
  induction t with
  | nil => rfl
  | node x l r ihl ihr =>
    rw [BinaryTree.map, inorder_node, ihl, ihr, inorder_node, List.map_append, List.map_cons]

theorem preorder_map (t : BinaryTree α) : preorder (t.map f) = (preorder t).map f := by
  induction t with
  | nil => rfl
  | node x l r ihl ihr =>
    rw [BinaryTree.map, preorder_node, ihl, ihr, preorder_node, List.map_cons, List.map_append]

theorem postorder_map (t : BinaryTree α) : postorder (t.map f) = (postorder t).map f := by
  induction t with
  | nil => rfl
  | node x l r ihl ihr =>
    rw [BinaryTree.map, postorder_node, ihl, ihr, postorder_node, List.map_append,
      List.map_append, List.map_singleton]

end Map

variable [LinearOrder κ]

theorem ordered_map {f : α → β} {key : β → κ} {t : BinaryTree α} :
    Ordered key (t.map f) ↔ Ordered (fun x => key (f x)) t := by
  rw [ordered_iff, ordered_iff, inorder_map, List.pairwise_map]

/-! ## Insertion from the root -/

section Insert

variable {key : α → κ} {x y : α} {l r : BinaryTree α}

/-- A search that starts in a slot goes on as one that starts at the root. -/
theorem search_append (k : κ) (C : Context α) (t : BinaryTree α) :
    search key k C t = ((search key k [] t).1 ++ C, (search key k [] t).2) := by
  induction t generalizing C with
  | nil => rfl
  | node x l r ihl ihr =>
    simp only [search]
    split
    · rw [ihr, ihr [_], List.append_assoc]
      rfl
    · split
      · rw [ihl, ihl [_], List.append_assoc]
        rfl
      · rfl

/-- A greater key goes to the right. -/
theorem insert_node_right (h : key y < key x) :
    insert key x (node y l r) = node y l (insert key x r) := by
  have hs : search key (key x) [] (node y l r) =
      ((search key (key x) [] r).1 ++ [⟨.right, y, l⟩], (search key (key x) [] r).2) := by
    rw [search, if_pos h]
    exact search_append ..
  cases hr : search key (key x) [] r with
  | mk C u =>
    rw [hr] at hs
    cases u with
    | nil =>
      simp only [insert, hs, hr, plug_append]
      rfl
    | node z a b => simp only [insert, hs, hr]

/-- A smaller key goes to the left. -/
theorem insert_node_left (h : key x < key y) :
    insert key x (node y l r) = node y (insert key x l) r := by
  have hs : search key (key x) [] (node y l r) =
      ((search key (key x) [] l).1 ++ [⟨.left, y, r⟩], (search key (key x) [] l).2) := by
    rw [search, if_neg (lt_asymm h), if_pos h]
    exact search_append ..
  cases hl : search key (key x) [] l with
  | mk C u =>
    rw [hl] at hs
    cases u with
    | nil =>
      simp only [insert, hs, hl, plug_append]
      rfl
    | node z a b => simp only [insert, hs, hl]

/-- A key that is there already is not inserted. -/
theorem insert_node_eq (h : key x = key y) : insert key x (node y l r) = node y l r := by
  simp only [insert, search, h, lt_self_iff_false, if_false]

end Insert

/-! ## Many insertions -/

/-- Insert the labels one after another. -/
def insertAll (key : α → κ) (xs : List α) (t : BinaryTree α) : BinaryTree α :=
  xs.foldl (fun t x => insert key x t) t

section InsertAll

variable {key : α → κ} {y : α} {l r : BinaryTree α}

theorem insertAll_append (xs ys : List α) (t : BinaryTree α) :
    insertAll key (xs ++ ys) t = insertAll key ys (insertAll key xs t) :=
  List.foldl_append

/-- Labels that belong to the right of a node leave it and what is left of it alone. -/
theorem insertAll_node_right {xs : List α} (h : ∀ x ∈ xs, key y < key x) :
    insertAll key xs (node y l r) = node y l (insertAll key xs r) := by
  induction xs generalizing r with
  | nil => rfl
  | cons x xs ih =>
    have hx : key y < key x := h x (List.mem_cons_self ..)
    show insertAll key xs (insert key x (node y l r)) = _
    rw [insert_node_right hx, ih fun z hz => h z (List.mem_cons_of_mem _ hz)]
    rfl

/-- Labels that belong to the left of a node leave it and what is right of it alone. -/
theorem insertAll_node_left {xs : List α} (h : ∀ x ∈ xs, key x < key y) :
    insertAll key xs (node y l r) = node y (insertAll key xs l) r := by
  induction xs generalizing l with
  | nil => rfl
  | cons x xs ih =>
    have hx : key x < key y := h x (List.mem_cons_self ..)
    show insertAll key xs (insert key x (node y l r)) = _
    rw [insert_node_left hx, ih fun z hz => h z (List.mem_cons_of_mem _ hz)]
    rfl

/-- **Inserting a tree's labels in pre-order** rebuilds it. -/
theorem insertAll_preorder {t : BinaryTree α} (ho : Ordered key t) :
    insertAll key (preorder t) nil = t := by
  induction t with
  | nil => rfl
  | node x l r ihl ihr =>
    obtain ⟨hl, hr, hlx, hxr⟩ := ho
    have hpl : ∀ y ∈ preorder l, key y < key x := fun y hy =>
      hlx y ((preorder_perm l).mem_iff.mp hy)
    have hpr : ∀ y ∈ preorder r, key x < key y := fun y hy =>
      hxr y ((preorder_perm r).mem_iff.mp hy)
    show insertAll key (preorder l ++ preorder r) (node x nil nil) = node x l r
    rw [insertAll_append, insertAll_node_left hpl, ihl hl, insertAll_node_right hpr, ihr hr]

/-- **Inserting a tree's labels in reverse post-order**, the right subtree first,
rebuilds it too. -/
theorem insertAll_reverse_postorder {t : BinaryTree α} (ho : Ordered key t) :
    insertAll key (postorder t).reverse nil = t := by
  induction t with
  | nil => rfl
  | node x l r ihl ihr =>
    obtain ⟨hl, hr, hlx, hxr⟩ := ho
    have hpl : ∀ y ∈ (postorder l).reverse, key y < key x := fun y hy =>
      hlx y ((postorder_perm l).mem_iff.mp (List.mem_reverse.mp hy))
    have hpr : ∀ y ∈ (postorder r).reverse, key x < key y := fun y hy =>
      hxr y ((postorder_perm r).mem_iff.mp (List.mem_reverse.mp hy))
    have hrev : (postorder (node x l r)).reverse =
        x :: ((postorder r).reverse ++ (postorder l).reverse) := by
      simp
    rw [hrev]
    show insertAll key ((postorder r).reverse ++ (postorder l).reverse) (node x nil nil) =
      node x l r
    rw [insertAll_append, insertAll_node_right hpr, ihr hr, insertAll_node_left hpl, ihl hl]

end InsertAll

/-- Inserting does not look at more of a label than its key. -/
theorem map_insert {f : α → β} {key : β → κ} (x : α) (t : BinaryTree α) :
    (insert (fun x => key (f x)) x t).map f = insert key (f x) (t.map f) := by
  induction t with
  | nil => rfl
  | node y l r ihl ihr =>
    rw [BinaryTree.map]
    rcases lt_trichotomy (key (f x)) (key (f y)) with h | h | h
    · have hl : insert (fun x => key (f x)) x (node y l r) = node y (insert _ x l) r :=
        insert_node_left h
      rw [hl, insert_node_left h, BinaryTree.map, ihl]
    · have hy : insert (fun x => key (f x)) x (node y l r) = node y l r := insert_node_eq h
      rw [hy, insert_node_eq h, BinaryTree.map]
    · have hr : insert (fun x => key (f x)) x (node y l r) = node y l (insert _ x r) :=
        insert_node_right h
      rw [hr, insert_node_right h, BinaryTree.map, ihr]

end BstGenerator.Trees
