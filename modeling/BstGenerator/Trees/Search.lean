import Mathlib.Data.List.Nodup
import Mathlib.Order.Lattice
import BstGenerator.Trees.Context

/-!
# Search trees

Binary trees whose labels carry a key from a linear order, each subtree lying on
its side of the node above it. Searching ends in a slot (`search`); inserting
plugs a leaf into it; erasing plugs in the two subtrees of the node found there,
merged by moving the least node of the right one to the top (`merge`).

Everything is read off the left-to-right listing: a tree is `Ordered` iff its
listing is strictly ascending (`ordered_iff`), and by `inorder_plug` an
operation at a slot only edits the listing at that place.
-/

namespace BstGenerator.Trees

universe u v

variable {α : Type u} {κ : Type v}

open BinaryTree (nil node)

/-! ## Order -/

section Ordered

variable [LinearOrder κ] (key : α → κ)

/-- Every key left of a node is smaller, every key right of it greater. -/
def Ordered : BinaryTree α → Prop
  | .nil => True
  | .node x l r =>
    Ordered l ∧ Ordered r ∧ (∀ y ∈ inorder l, key y < key x) ∧
      (∀ y ∈ inorder r, key x < key y)

/-- A tree is ordered iff its listing ascends strictly. -/
theorem ordered_iff {t : BinaryTree α} :
    Ordered key t ↔ (inorder t).Pairwise (fun x y => key x < key y) := by
  induction t with
  | nil => simp [Ordered]
  | node x l r ihl ihr =>
    rw [inorder_node, List.pairwise_append, List.pairwise_cons]
    simp only [Ordered, ihl, ihr]
    constructor
    · rintro ⟨hl, hr, hlx, hxr⟩
      refine ⟨hl, ⟨hxr, hr⟩, ?_⟩
      intro y hy z hz
      rcases List.mem_cons.mp hz with rfl | hz
      · exact hlx y hy
      · exact lt_trans (hlx y hy) (hxr z hz)
    · rintro ⟨hl, ⟨hxr, hr⟩, hlr⟩
      exact ⟨hl, hr, fun y hy => hlr y hy x (List.mem_cons_self ..), hxr⟩

variable {key}

/-- No two labels of an ordered tree have one key. -/
theorem Ordered.eq_of_key_eq {t : BinaryTree α} (h : Ordered key t) {x y : α}
    (hx : x ∈ inorder t) (hy : y ∈ inorder t) (heq : key x = key y) : x = y := by
  have hnd : ((inorder t).map key).Nodup :=
    List.pairwise_map.mpr (((ordered_iff key).mp h).imp ne_of_lt)
  exact List.inj_on_of_nodup_map hnd hx hy heq

/-- A subtree of an ordered tree is ordered. -/
theorem Ordered.of_plug {C : Context α} {t : BinaryTree α} (h : Ordered key (plug C t)) :
    Ordered key t := by
  rw [ordered_iff, inorder_plug] at h
  exact (ordered_iff key).mpr (List.pairwise_append.mp (List.pairwise_append.mp h).1).2.1

/-- The first label has the least key. -/
theorem Ordered.head_le {t : BinaryTree α} (h : Ordered key t) {x : α}
    (hx : (inorder t).head? = some x) : ∀ y ∈ inorder t, key x ≤ key y := by
  intro y hy
  obtain ⟨xs, hxs⟩ := List.head?_eq_some_iff.mp hx
  have hord := (ordered_iff key).mp h
  rw [hxs] at hord hy
  rcases List.mem_cons.mp hy with rfl | hy
  · exact le_rfl
  · exact le_of_lt ((List.pairwise_cons.mp hord).1 y hy)

/-- The last label has the greatest key. -/
theorem Ordered.le_getLast {t : BinaryTree α} (h : Ordered key t) {x : α}
    (hx : (inorder t).getLast? = some x) : ∀ y ∈ inorder t, key y ≤ key x := by
  intro y hy
  obtain ⟨xs, hxs⟩ := List.getLast?_eq_some_iff.mp hx
  have hord := (ordered_iff key).mp h
  rw [hxs] at hord hy
  rcases List.mem_append.mp hy with hy | hy
  · exact le_of_lt ((List.pairwise_append.mp hord).2.2 y hy x (List.mem_singleton_self x))
  · exact le_of_eq (congrArg key (List.mem_singleton.mp hy))

end Ordered

/-! ## Search -/

section Search

variable [LinearOrder κ] (key : α → κ)

/-- The slot where the search for `k` ends and the subtree hanging there. -/
def search (k : κ) : Context α → BinaryTree α → Context α × BinaryTree α
  | C, .nil => (C, .nil)
  | C, .node x l r =>
    if key x < k then search k (⟨.right, x, l⟩ :: C) r
    else if k < key x then search k (⟨.left, x, r⟩ :: C) l
    else (C, .node x l r)

/-- `k` belongs into the slot: what is left of it is smaller, what is right of
it greater. -/
structure Between (k : κ) (C : Context α) : Prop where
  before : ∀ x ∈ before C, key x < k
  after : ∀ x ∈ after C, k < key x

theorem plug_search (k : κ) (C : Context α) (t : BinaryTree α) :
    plug (search key k C t).1 (search key k C t).2 = plug C t := by
  induction t generalizing C with
  | nil => rfl
  | node x l r ihl ihr =>
    simp only [search]
    split
    · exact ihr _
    · split
      · exact ihl _
      · rfl

/-- The subtree found is missing, or its root has the key. -/
theorem search_snd (k : κ) (C : Context α) (t : BinaryTree α) :
    (search key k C t).2 = nil ∨
      ∃ x l r, (search key k C t).2 = node x l r ∧ key x = k := by
  induction t generalizing C with
  | nil => exact Or.inl rfl
  | node x l r ihl ihr =>
    simp only [search]
    split
    · exact ihr _
    · split
      · exact ihl _
      · exact Or.inr ⟨x, l, r, rfl, le_antisymm (not_lt.mp ‹_›) (not_lt.mp ‹_›)⟩

variable {key}

theorem Between.nil (k : κ) : Between key k ([] : Context α) where
  before := fun _ h => nomatch h
  after := fun _ h => nomatch h

/-- Going right past `x` keeps `k` in place. -/
theorem Between.right {k : κ} {C : Context α} {x : α} {l r : BinaryTree α}
    (h : Between key k C) (ho : Ordered key (node x l r)) (hx : key x < k) :
    Between key k (⟨.right, x, l⟩ :: C) := by
  refine ⟨fun y hy => ?_, h.after⟩
  rcases List.mem_append.mp hy with hy | hy
  · exact h.before y hy
  · rcases List.mem_append.mp hy with hy | hy
    · exact lt_trans (ho.2.2.1 y hy) hx
    · rwa [List.mem_singleton.mp hy]

/-- Going left past `x` keeps `k` in place. -/
theorem Between.left {k : κ} {C : Context α} {x : α} {l r : BinaryTree α}
    (h : Between key k C) (ho : Ordered key (node x l r)) (hx : k < key x) :
    Between key k (⟨.left, x, r⟩ :: C) := by
  refine ⟨h.before, ?_⟩
  intro y hy
  rcases List.mem_cons.mp hy with rfl | hy
  · exact hx
  · rcases List.mem_append.mp hy with hy | hy
    · exact lt_trans hx (ho.2.2.2 y hy)
    · exact h.after y hy

/-- The search stays where `k` belongs. -/
theorem Between.search {k : κ} {C : Context α} {t : BinaryTree α} (h : Between key k C)
    (ho : Ordered key (plug C t)) : Between key k (search key k C t).1 := by
  induction t generalizing C with
  | nil => exact h
  | node x l r ihl ihr =>
    have hnode : Ordered key (node x l r) := ho.of_plug
    simp only [Trees.search]
    split
    · exact ihr (h.right hnode ‹_›) ho
    · split
      · exact ihl (h.left hnode ‹_›) ho
      · exact h

/-- Where `k` belongs into a slot, the search for `k` passes through the slot. -/
theorem Between.search_plug {k : κ} {C : Context α} (h : Between key k C) (t : BinaryTree α) :
    Trees.search key k [] (plug C t) = Trees.search key k C t := by
  induction C generalizing t with
  | nil => rfl
  | cons f C ih =>
    obtain ⟨d, x, u⟩ := f
    cases d with
    | left =>
      have hx : k < key x := h.after x (List.mem_cons_self ..)
      have hC : Between key k C :=
        ⟨h.before, fun y hy => h.after y (List.mem_append_right _ hy)⟩
      rw [plug_cons, ih hC, Frame.fill, Trees.search, if_neg (lt_asymm hx), if_pos hx]
    | right =>
      have hx : key x < k := h.before x (by simp [Trees.before])
      have hC : Between key k C :=
        ⟨fun y hy => h.before y (List.mem_append_left _ hy), h.after⟩
      rw [plug_cons, ih hC, Frame.fill, Trees.search, if_pos hx]

/-- A key between the parts of a listing is not in them. -/
theorem Between.ne {k : κ} {C : Context α} (h : Between key k C) {y : α}
    (hy : y ∈ Trees.before C ++ Trees.after C) : key y ≠ k := by
  rcases List.mem_append.mp hy with hy | hy
  · exact ne_of_lt (h.before y hy)
  · exact ne_of_gt (h.after y hy)

/-- **What a search says**: either it ends in an empty slot and no label has the
key, or it ends at a label that has it. -/
theorem search_spec {t : BinaryTree α} (ho : Ordered key t) (k : κ) :
    (∃ C, search key k [] t = (C, nil) ∧ t = plug C nil ∧ Between key k C ∧
        ∀ y ∈ inorder t, key y ≠ k) ∨
      (∃ C x l r, search key k [] t = (C, node x l r) ∧ t = plug C (node x l r) ∧
        key x = k) := by
  have hplug : plug (search key k [] t).1 (search key k [] t).2 = t := plug_search key k [] t
  have hbet : Between key k (search key k [] t).1 := (Between.nil k).search ho
  rcases search_snd key k [] t with hnil | ⟨x, l, r, hx, hk⟩
  · rw [hnil] at hplug
    refine Or.inl ⟨_, by rw [← hnil], hplug.symm, hbet, ?_⟩
    intro y hy
    -- the slot is empty, so the listing is what is before it and after it
    rw [← hplug, inorder_plug, inorder_nil, List.append_nil] at hy
    exact hbet.ne hy
  · rw [hx] at hplug
    exact Or.inr ⟨_, x, l, r, by rw [← hx], hplug.symm, hk⟩

end Search

/-! ## Merging the subtrees of a removed node -/

/-- Take the least label out. -/
def popMin : BinaryTree α → Option (α × BinaryTree α)
  | .nil => none
  | .node x l r =>
    match popMin l with
    | none => some (x, r)
    | some (m, l') => some (m, .node x l' r)

/-- The subtrees of a removed node as one tree: the right one's least label goes
to the top, unless one of them is missing. -/
def merge : BinaryTree α → BinaryTree α → BinaryTree α
  | .nil, r => r
  | .node y a b, r =>
    match popMin r with
    | none => .node y a b
    | some (m, r') => .node m (.node y a b) r'

theorem popMin_eq_none {t : BinaryTree α} (h : popMin t = none) : t = nil := by
  cases t with
  | nil => rfl
  | node x l r =>
    simp only [popMin] at h
    split at h <;> cases h

theorem inorder_popMin {t t' : BinaryTree α} {m : α} (h : popMin t = some (m, t')) :
    inorder t = m :: inorder t' := by
  induction t generalizing t' with
  | nil => cases h
  | node x l r ihl ihr =>
    simp only [popMin] at h
    cases hl : popMin l with
    | none =>
      rw [hl] at h
      cases h
      rw [popMin_eq_none hl, inorder_node, inorder_nil, List.nil_append]
    | some p =>
      obtain ⟨m', l'⟩ := p
      rw [hl] at h
      cases h
      rw [inorder_node, ihl hl, inorder_node, List.cons_append]

/-- Popping commutes with a left spine above. -/
theorem popMin_plug {D : Context α} (hD : Straight .left D) {t t' : BinaryTree α} {m : α}
    (h : popMin t = some (m, t')) : popMin (plug D t) = some (m, plug D t') := by
  induction D generalizing t t' with
  | nil => exact h
  | cons f D ih =>
    obtain ⟨d, x, r⟩ := f
    have hd : d = .left := hD _ (List.mem_cons_self ..)
    subst hd
    refine ih (fun f hf => hD f (List.mem_cons_of_mem _ hf)) ?_
    simp only [Frame.fill, popMin, h]

theorem merge_plug {y m : α} {a b s : BinaryTree α} {D : Context α}
    (hD : Straight .left D) :
    merge (node y a b) (plug D (node m nil s)) = node m (node y a b) (plug D s) := by
  have h : popMin (plug D (node m nil s)) = some (m, plug D s) := popMin_plug hD rfl
  simp only [merge, h]

@[simp] theorem merge_nil_left (r : BinaryTree α) : merge nil r = r := rfl

@[simp] theorem merge_nil_right (l : BinaryTree α) : merge l nil = l := by
  cases l <;> rfl

theorem inorder_merge (l r : BinaryTree α) : inorder (merge l r) = inorder l ++ inorder r := by
  cases l with
  | nil => rfl
  | node y a b =>
    cases h : popMin r with
    | none =>
      rw [popMin_eq_none h, merge_nil_right, inorder_nil, List.append_nil]
    | some p =>
      obtain ⟨m, r'⟩ := p
      simp only [merge, h, inorder_popMin h]
      exact inorder_node ..

/-- Merging drops exactly the label of the removed node. -/
theorem perm_merge (C : Context α) (x : α) (l r : BinaryTree α) :
    (inorder (plug C (node x l r))).Perm (x :: inorder (plug C (merge l r))) := by
  simp only [inorder_plug, inorder_merge, inorder_node, List.append_assoc, List.cons_append]
  rw [← List.append_assoc, ← List.append_assoc (before C)]
  exact List.perm_middle

/-- Merging the subtrees of a node keeps every label but the node's. -/
theorem mem_merge_of_ne {x y : α} {l r : BinaryTree α} (hy : y ∈ inorder (node x l r))
    (hne : y ≠ x) : y ∈ inorder (merge l r) :=
  (List.mem_cons.mp ((perm_merge [] x l r).mem_iff.mp hy)).resolve_left hne

/-! ## Insertion and erasure -/

section Update

variable [LinearOrder κ] (key : α → κ)

/-- Put a leaf labelled `x` where the search for its key ends, unless the key is
there already. -/
def insert (x : α) (t : BinaryTree α) : BinaryTree α :=
  match search key (key x) [] t with
  | (C, .nil) => plug C (.node x .nil .nil)
  | (_, .node _ _ _) => t

/-- Take the label with key `k` out. -/
def erase (k : κ) (t : BinaryTree α) : BinaryTree α :=
  match search key k [] t with
  | (_, .nil) => t
  | (C, .node _ l r) => plug C (merge l r)

variable {key}

theorem ordered_plug_leaf {x : α} {C : Context α} (h : Between key (key x) C)
    (ho : Ordered key (plug C nil)) : Ordered key (plug C (node x nil nil)) := by
  rw [ordered_iff, inorder_plug, inorder_nil, List.append_nil] at ho
  obtain ⟨hb, ha, hba⟩ := List.pairwise_append.mp ho
  rw [ordered_iff, inorder_plug, List.append_assoc]
  refine List.pairwise_append.mpr ⟨hb, List.pairwise_cons.mpr ⟨h.after, ha⟩, ?_⟩
  intro y hy z hz
  rcases List.mem_cons.mp hz with rfl | hz
  · exact h.before y hy
  · exact hba y hy z hz

theorem ordered_insert {x : α} {t : BinaryTree α} (ho : Ordered key t) :
    Ordered key (insert key x t) := by
  rcases search_spec ho (key x) with ⟨C, hs, ht, hbet, -⟩ | ⟨C, y, l, r, hs, -, -⟩
  · simp only [insert, hs]
    exact ordered_plug_leaf hbet (ht ▸ ho)
  · simp only [insert, hs]
    exact ho

/-- An insertion adds its label unless the key was there. -/
theorem mem_inorder_insert {x y : α} {t : BinaryTree α} (ho : Ordered key t) :
    y ∈ inorder (insert key x t) ↔
      y ∈ inorder t ∨ (y = x ∧ ∀ z ∈ inorder t, key z ≠ key x) := by
  rcases search_spec ho (key x) with ⟨C, hs, ht, -, hnone⟩ | ⟨C, z, l, r, hs, ht, hz⟩
  · have hmem : y ∈ inorder (plug C (node x nil nil)) ↔ y ∈ inorder (plug C nil) ∨ y = x := by
      simp only [inorder_plug, inorder_node, inorder_nil, List.mem_append, List.mem_cons,
        List.not_mem_nil]
      tauto
    simp only [insert, hs]
    rw [hmem, ← ht]
    exact or_congr_right (iff_self_and.mpr fun _ => hnone)
  · simp only [insert, hs]
    have hzmem : z ∈ inorder t := by
      rw [ht, inorder_plug, inorder_node]
      simp
    refine (or_iff_left ?_).symm
    exact fun h => h.2 z hzmem hz

theorem ordered_plug_merge {x : α} {C : Context α} {l r : BinaryTree α}
    (ho : Ordered key (plug C (node x l r))) : Ordered key (plug C (merge l r)) := by
  rw [ordered_iff, inorder_plug] at ho ⊢
  refine ho.sublist (List.Sublist.append_right (List.Sublist.append_left ?_ _) _)
  rw [inorder_merge, inorder_node]
  exact List.Sublist.append_left (List.sublist_cons_self ..) _

theorem ordered_erase {k : κ} {t : BinaryTree α} (ho : Ordered key t) :
    Ordered key (erase key k t) := by
  rcases search_spec ho k with ⟨C, hs, -, -, -⟩ | ⟨C, x, l, r, hs, ht, -⟩
  · simp only [erase, hs]
    exact ho
  · simp only [erase, hs]
    exact ordered_plug_merge (ht ▸ ho)

/-- The other keys of an ordered tree differ from a node's. -/
theorem ne_of_mem_merge {C : Context α} {x y : α} {l r : BinaryTree α}
    (ho : Ordered key (plug C (node x l r))) (hy : y ∈ inorder (plug C (merge l r))) :
    key y ≠ key x := by
  have hne : (inorder (plug C (node x l r))).Pairwise (fun y z => key y ≠ key z) :=
    ((ordered_iff key).mp ho).imp ne_of_lt
  have hperm := (perm_merge C x l r).pairwise hne fun h => h.symm
  exact ((List.pairwise_cons.mp hperm).1 y hy).symm

/-- An erasure takes out exactly the label with the key. -/
theorem mem_inorder_erase {k : κ} {y : α} {t : BinaryTree α} (ho : Ordered key t) :
    y ∈ inorder (erase key k t) ↔ y ∈ inorder t ∧ key y ≠ k := by
  rcases search_spec ho k with ⟨C, hs, -, -, hnone⟩ | ⟨C, x, l, r, hs, ht, rfl⟩
  · simp only [erase, hs]
    exact iff_self_and.mpr (hnone y)
  · have hmem : y ∈ inorder t ↔ y = x ∨ y ∈ inorder (plug C (merge l r)) := by
      rw [ht, (perm_merge C x l r).mem_iff, List.mem_cons]
    simp only [erase, hs]
    rw [hmem]
    constructor
    · exact fun hy => ⟨Or.inr hy, ne_of_mem_merge (ht ▸ ho) hy⟩
    · rintro ⟨rfl | hy, hne⟩
      · exact absurd rfl hne
      · exact hy

/-- **Erasing what was just inserted** undoes the insertion: the label is a leaf, and the
search for its key ends there. -/
theorem erase_insert {x : α} {t : BinaryTree α} (ho : Ordered key t)
    (hx : ∀ y ∈ inorder t, key y ≠ key x) : erase key (key x) (insert key x t) = t := by
  rcases search_spec ho (key x) with ⟨C, hs, ht, hbet, -⟩ | ⟨C, y, l, r, -, ht, hy⟩
  · have hins : insert key x t = plug C (node x nil nil) := by
      simp only [insert, hs]
    have hfound : search key (key x) [] (plug C (node x nil nil)) = (C, node x nil nil) := by
      rw [hbet.search_plug, search, if_neg (lt_irrefl _), if_neg (lt_irrefl _)]
    rw [hins, erase, hfound, ht]
    rfl
  · exact absurd hy (hx y (ht ▸ mem_inorder_plug (by simp)))

end Update

end BstGenerator.Trees
