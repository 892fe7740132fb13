import BstGenerator.Trees.Search

/-!
# Depth and ancestry

How far below the root a label lies, and which labels lie above it, seen along the two
edits a search tree knows: a leaf plugged into an empty slot, and a node replaced by its
merged subtrees. Either is an edit of one subtree, and what it does to the depths and the
ancestry there it does in the whole tree: frames put around both subtrees alike change
nothing (`Lifts.plug`, `Above.edit`).

- `Lifts t t'`: no label of `t'` lies deeper than it did in `t`. Merging the subtrees of a
  node lifts what is below it (`lifts_merge`).
- `addsAt_leaf`: a new leaf moves no label.
- `above_merge`: merging keeps who is above whom, but for the label moved to the top.
-/

namespace BstGenerator.Trees

universe u

variable {α : Type u}

open BinaryTree (nil node)

/-! ## Depth -/

/-- The label lies so many steps below the root. -/
def DepthAt : BinaryTree α → α → Nat → Prop
  | .nil, _, _ => False
  | .node x _ _, y, 0 => y = x
  | .node _ l r, y, i + 1 => DepthAt l y i ∨ DepthAt r y i

/-- Labels below a frame, and the frame's own label. -/
theorem depthAt_fill {f : Frame α} {t : BinaryTree α} {y : α} {i : Nat} :
    DepthAt (f.fill t) y (i + 1) ↔ DepthAt t y i ∨ DepthAt f.sibling y i := by
  obtain ⟨d, x, s⟩ := f
  cases d with
  | left => exact Iff.rfl
  | right => exact or_comm

theorem depthAt_fill_zero {f : Frame α} {t : BinaryTree α} {y : α} :
    DepthAt (f.fill t) y 0 ↔ y = f.label := by
  obtain ⟨d, x, s⟩ := f
  cases d <;> exact Iff.rfl

/-- What lies in a slot lies deeper by the frames around the slot. -/
theorem DepthAt.plug {t : BinaryTree α} {y : α} {i : Nat} (h : DepthAt t y i) (C : Context α) :
    DepthAt (Trees.plug C t) y (i + C.length) := by
  induction C generalizing t i with
  | nil => exact h
  | cons f C ih =>
    have hfill : DepthAt (f.fill t) y (i + 1) := depthAt_fill.mpr (Or.inl h)
    rw [List.length_cons, Nat.add_comm C.length, ← Nat.add_assoc]
    exact ih hfill

/-- The depth of a label is the number of frames around it. -/
theorem depthAt_iff {t : BinaryTree α} {x : α} {i : Nat} :
    DepthAt t x i ↔ ∃ (C : Context α) (l r : BinaryTree α), t = plug C (node x l r) ∧
      C.length = i := by
  constructor
  · intro h
    induction t generalizing i with
    | nil => exact h.elim
    | node y a b iha ihb =>
      cases i with
      | zero =>
        obtain rfl : x = y := h
        exact ⟨[], a, b, rfl, rfl⟩
      | succ i =>
        rcases h with h | h
        · obtain ⟨C, l, r, rfl, rfl⟩ := iha h
          refine ⟨C ++ [⟨.left, y, b⟩], l, r, ?_, List.length_append⟩
          rw [plug_append]
          rfl
        · obtain ⟨C, l, r, rfl, rfl⟩ := ihb h
          refine ⟨C ++ [⟨.right, y, a⟩], l, r, ?_, List.length_append⟩
          rw [plug_append]
          rfl
  · rintro ⟨C, l, r, rfl, rfl⟩
    have hroot : DepthAt (node x l r) x 0 := rfl
    exact Nat.zero_add C.length ▸ hroot.plug C

/-- The height is the least bound of the depths. -/
theorem height_le_iff {t : BinaryTree α} {h : Nat} :
    t.height ≤ h ↔ ∀ y i, DepthAt t y i → i < h := by
  induction t generalizing h with
  | nil => exact iff_of_true (Nat.zero_le _) fun _ _ hy => hy.elim
  | node x l r ihl ihr =>
    cases h with
    | zero =>
      refine iff_of_false (Nat.not_succ_le_zero _) ?_
      intro hall
      exact Nat.not_lt_zero 0 (hall x 0 rfl)
    | succ h =>
      rw [BinaryTree.height, Nat.succ_le_succ_iff, Nat.max_le, ihl, ihr]
      constructor
      · rintro ⟨hl, hr⟩ y i hy
        cases i with
        | zero => exact Nat.succ_pos h
        | succ i => exact Nat.succ_lt_succ (hy.elim (hl y i) (hr y i))
      · intro hall
        exact ⟨fun y i hy => Nat.lt_of_succ_lt_succ (hall y (i + 1) (Or.inl hy)),
          fun y i hy => Nat.lt_of_succ_lt_succ (hall y (i + 1) (Or.inr hy))⟩

/-! ## Lifting -/

/-- No label of `t'` lies deeper than in `t`. -/
def Lifts (t t' : BinaryTree α) : Prop := ∀ y i, DepthAt t' y i → ∃ j, i ≤ j ∧ DepthAt t y j

theorem Lifts.refl (t : BinaryTree α) : Lifts t t := fun _ i h => ⟨i, Nat.le_refl i, h⟩

/-- Lifting both subtrees, whatever label comes to the top. -/
theorem Lifts.node {l l' r r' : BinaryTree α} {x x' : α} (hl : Lifts l l') (hr : Lifts r r')
    (hx : ∃ j, DepthAt (node x l r) x' j) : Lifts (node x l r) (node x' l' r') := by
  intro y i h
  cases i with
  | zero =>
    obtain rfl : y = x' := h
    obtain ⟨j, hj⟩ := hx
    exact ⟨j, Nat.zero_le j, hj⟩
  | succ i =>
    rcases h with h | h
    · obtain ⟨j, hij, hj⟩ := hl y i h
      exact ⟨j + 1, Nat.succ_le_succ hij, Or.inl hj⟩
    · obtain ⟨j, hij, hj⟩ := hr y i h
      exact ⟨j + 1, Nat.succ_le_succ hij, Or.inr hj⟩

/-- A subtree in the place of the node above it. -/
theorem lifts_left (x : α) (l r : BinaryTree α) : Lifts (node x l r) l :=
  fun _ i h => ⟨i + 1, Nat.le_succ i, Or.inl h⟩

theorem lifts_right (x : α) (l r : BinaryTree α) : Lifts (node x l r) r :=
  fun _ i h => ⟨i + 1, Nat.le_succ i, Or.inr h⟩

theorem Lifts.plug {t t' : BinaryTree α} (h : Lifts t t') (C : Context α) :
    Lifts (Trees.plug C t) (Trees.plug C t') := by
  induction C generalizing t t' with
  | nil => exact h
  | cons f C ih =>
    refine ih ?_
    intro y i hy
    cases i with
    | zero => exact ⟨0, Nat.le_refl 0, depthAt_fill_zero.mpr (depthAt_fill_zero.mp hy)⟩
    | succ i =>
      rcases depthAt_fill.mp hy with hy | hy
      · obtain ⟨j, hij, hj⟩ := h y i hy
        exact ⟨j + 1, Nat.succ_le_succ hij, depthAt_fill.mpr (Or.inl hj)⟩
      · exact ⟨i + 1, Nat.le_refl _, depthAt_fill.mpr (Or.inr hy)⟩

theorem Lifts.height_le {t t' : BinaryTree α} (h : Lifts t t') : t'.height ≤ t.height := by
  rw [height_le_iff]
  intro y i hy
  obtain ⟨j, hij, hj⟩ := h y i hy
  exact Nat.lt_of_le_of_lt hij (height_le_iff.mp (Nat.le_refl t.height) y j hj)

/-- Taking the least label out leaves the others where they are or lifts them. -/
theorem lifts_popMin {t t' : BinaryTree α} {m : α} (h : popMin t = some (m, t')) :
    Lifts t t' ∧ ∃ j, DepthAt t m j := by
  induction t generalizing t' with
  | nil => cases h
  | node x l r ihl _ =>
    simp only [popMin] at h
    cases hl : popMin l with
    | none =>
      rw [hl] at h
      cases h
      exact ⟨lifts_right m l r, 0, rfl⟩
    | some p =>
      obtain ⟨m', l'⟩ := p
      rw [hl] at h
      cases h
      obtain ⟨hlift, j, hj⟩ := ihl hl
      exact ⟨hlift.node (Lifts.refl r) ⟨0, rfl⟩, j + 1, Or.inl hj⟩

/-- **Merging the subtrees of a node** in its place lifts what was below it. -/
theorem lifts_merge (x : α) (l r : BinaryTree α) : Lifts (node x l r) (merge l r) := by
  cases l with
  | nil => exact lifts_right x nil r
  | node y a b =>
    cases h : popMin r with
    | none =>
      rw [popMin_eq_none h, merge_nil_right]
      exact lifts_left x _ nil
    | some p =>
      obtain ⟨m, r'⟩ := p
      obtain ⟨hlift, j, hj⟩ := lifts_popMin h
      simp only [merge, h]
      exact (Lifts.refl _).node hlift ⟨j + 1, Or.inr hj⟩

/-! ## A new leaf -/

/-- The labels of `t'` are those of `t` at their depths, and `x` at the depth `d`. -/
def AddsAt (t t' : BinaryTree α) (x : α) (d : Nat) : Prop :=
  ∀ y i, DepthAt t' y i ↔ DepthAt t y i ∨ (y = x ∧ i = d)

theorem AddsAt.plug {t t' : BinaryTree α} {x : α} {d : Nat} (h : AddsAt t t' x d)
    (C : Context α) : AddsAt (Trees.plug C t) (Trees.plug C t') x (d + C.length) := by
  induction C generalizing t t' d with
  | nil => exact h
  | cons f C ih =>
    rw [List.length_cons, Nat.add_comm C.length, ← Nat.add_assoc]
    refine ih ?_
    intro y i
    cases i with
    | zero =>
      rw [depthAt_fill_zero, depthAt_fill_zero]
      exact (or_iff_left fun hd => Nat.succ_ne_zero d hd.2.symm).symm
    | succ i =>
      rw [depthAt_fill, depthAt_fill, h y i, Nat.succ_inj]
      tauto

/-- A leaf put in an empty slot leaves all other labels where they are. -/
theorem addsAt_leaf (x : α) (C : Context α) :
    AddsAt (plug C nil) (plug C (node x nil nil)) x C.length := by
  have hleaf : AddsAt nil (node x nil nil) x 0 := by
    intro y i
    cases i with
    | zero => exact ⟨fun h => Or.inr ⟨h, rfl⟩, fun h => h.elim False.elim And.left⟩
    | succ i =>
      refine ⟨fun h => (h.elim id id).elim, ?_⟩
      rintro (h | ⟨-, h⟩)
      · exact h.elim
      · cases h
  exact Nat.zero_add C.length ▸ hleaf.plug C

/-- An empty slot lies no deeper than one below the deepest label. -/
theorem length_le_height (C : Context α) (t : BinaryTree α) : C.length ≤ (plug C t).height := by
  cases C with
  | nil => exact Nat.zero_le _
  | cons f C =>
    have hlabel : DepthAt (f.fill t) f.label 0 := depthAt_fill_zero.mpr rfl
    have hdepth := height_le_iff.mp (Nat.le_refl _) _ _ (hlabel.plug C)
    rw [Nat.zero_add] at hdepth
    exact hdepth

theorem AddsAt.height_le {t t' : BinaryTree α} {x : α} {d : Nat} (h : AddsAt t t' x d)
    (hd : d ≤ t.height) : t'.height ≤ t.height + 1 := by
  rw [height_le_iff]
  intro y i hy
  rcases (h y i).mp hy with hy | ⟨-, rfl⟩
  · exact Nat.lt_succ_of_lt (height_le_iff.mp (Nat.le_refl _) y i hy)
  · exact Nat.lt_succ_of_le hd

/-! ## Ancestry -/

/-- The label `x` lies above the label `y`. -/
def Above : BinaryTree α → α → α → Prop
  | .nil, _, _ => False
  | .node z l r, x, y =>
    (x = z ∧ (y ∈ inorder l ∨ y ∈ inorder r)) ∨ Above l x y ∨ Above r x y

theorem mem_inorder_fill {f : Frame α} {t : BinaryTree α} {y : α} :
    y ∈ inorder (f.fill t) ↔ y = f.label ∨ y ∈ inorder t ∨ y ∈ inorder f.sibling := by
  obtain ⟨d, x, s⟩ := f
  cases d <;> simp only [Frame.fill, inorder_node, List.mem_append, List.mem_cons] <;> tauto

theorem above_fill {f : Frame α} {t : BinaryTree α} {x y : α} :
    Above (f.fill t) x y ↔ (x = f.label ∧ (y ∈ inorder t ∨ y ∈ inorder f.sibling)) ∨
      Above t x y ∨ Above f.sibling x y := by
  obtain ⟨d, z, s⟩ := f
  cases d with
  | left => exact Iff.rfl
  | right =>
    simp only [Frame.fill, Above]
    tauto

theorem Above.plug {t : BinaryTree α} {x y : α} (h : Above t x y) (C : Context α) :
    Above (Trees.plug C t) x y := by
  induction C generalizing t with
  | nil => exact h
  | cons f C ih => exact ih (above_fill.mpr (Or.inr (Or.inl h)))

/-- Who is above whom is kept by an edit in a slot if it is kept in the slot, and if what
was in the slot stays there. -/
theorem Above.edit {t t' : BinaryTree α} {x y : α} (h : Above t x y → Above t' x y)
    (hy : y ∈ inorder t → y ∈ inorder t') (C : Context α)
    (hC : Above (Trees.plug C t) x y) : Above (Trees.plug C t') x y := by
  induction C generalizing t t' with
  | nil => exact h hC
  | cons f C ih =>
    refine ih (fun hf => ?_) (fun hf => ?_) hC
    · rcases above_fill.mp hf with ⟨hx, hmem | hmem⟩ | habove | habove
      · exact above_fill.mpr (Or.inl ⟨hx, Or.inl (hy hmem)⟩)
      · exact above_fill.mpr (Or.inl ⟨hx, Or.inr hmem⟩)
      · exact above_fill.mpr (Or.inr (Or.inl (h habove)))
      · exact above_fill.mpr (Or.inr (Or.inr habove))
    · rcases mem_inorder_fill.mp hf with heq | hmem | hmem
      · exact mem_inorder_fill.mpr (Or.inl heq)
      · exact mem_inorder_fill.mpr (Or.inr (Or.inl (hy hmem)))
      · exact mem_inorder_fill.mpr (Or.inr (Or.inr hmem))

/-- A label lies above those of the subtrees below it. -/
theorem above_iff {t : BinaryTree α} {x y : α} :
    Above t x y ↔ ∃ (C : Context α) (l r : BinaryTree α), t = plug C (node x l r) ∧
      (y ∈ inorder l ∨ y ∈ inorder r) := by
  constructor
  · intro h
    induction t with
    | nil => exact h.elim
    | node z a b iha ihb =>
      rcases h with ⟨rfl, hy⟩ | h | h
      · exact ⟨[], a, b, rfl, hy⟩
      · obtain ⟨C, l, r, rfl, hy⟩ := iha h
        refine ⟨C ++ [⟨.left, z, b⟩], l, r, ?_, hy⟩
        rw [plug_append]
        rfl
      · obtain ⟨C, l, r, rfl, hy⟩ := ihb h
        refine ⟨C ++ [⟨.right, z, a⟩], l, r, ?_, hy⟩
        rw [plug_append]
        rfl
  · rintro ⟨C, l, r, rfl, hy⟩
    have hroot : Above (node x l r) x y := Or.inl ⟨rfl, hy⟩
    exact hroot.plug C

/-- Taking the least label out keeps the others' ancestry, and it lies above what is left
of its own subtree. -/
theorem above_popMin {t t' : BinaryTree α} {m x y : α} (h : popMin t = some (m, t'))
    (hxy : Above t x y) (hy : y ≠ m) : Above t' x y ∨ (x = m ∧ y ∈ inorder t') := by
  induction t generalizing t' with
  | nil => cases h
  | node z l r ihl _ =>
    simp only [popMin] at h
    cases hl : popMin l with
    | none =>
      rw [hl] at h
      cases h
      obtain rfl := popMin_eq_none hl
      rcases hxy with ⟨rfl, hmem | hmem⟩ | habove | habove
      · cases hmem
      · exact Or.inr ⟨rfl, hmem⟩
      · exact habove.elim
      · exact Or.inl habove
    | some p =>
      obtain ⟨m', l'⟩ := p
      rw [hl] at h
      cases h
      have hmem_left (hmem : y ∈ inorder l) : y ∈ inorder l' := by
        rw [inorder_popMin hl] at hmem
        exact (List.mem_cons.mp hmem).resolve_left hy
      rcases hxy with ⟨rfl, hmem | hmem⟩ | habove | habove
      · exact Or.inl (Or.inl ⟨rfl, Or.inl (hmem_left hmem)⟩)
      · exact Or.inl (Or.inl ⟨rfl, Or.inr hmem⟩)
      · rcases ihl hl habove with hl' | ⟨rfl, hmem⟩
        · exact Or.inl (Or.inr (Or.inl hl'))
        · exact Or.inr ⟨rfl, List.mem_append_left _ hmem⟩
      · exact Or.inl (Or.inr (Or.inr habove))

/-- **Merging the subtrees of a node** keeps who is above whom, except that the label moved
to the top of two subtrees has nothing above it any more. -/
theorem above_merge {z x y : α} {l r : BinaryTree α} (h : Above (node z l r) x y)
    (hx : x ≠ z) (hy : l ≠ nil → (inorder r).head? ≠ some y) : Above (merge l r) x y := by
  have hbelow : Above l x y ∨ Above r x y := h.resolve_left fun hz => hx hz.1
  cases l with
  | nil => exact hbelow.resolve_left False.elim
  | node w a b =>
    cases hr : popMin r with
    | none =>
      obtain rfl := popMin_eq_none hr
      rw [merge_nil_right]
      exact hbelow.resolve_right False.elim
    | some p =>
      obtain ⟨m, r'⟩ := p
      have hm : y ≠ m := by
        rintro rfl
        exact hy (fun he => nomatch he) (by rw [inorder_popMin hr]; rfl)
      simp only [merge, hr]
      rcases hbelow with habove | habove
      · exact Or.inr (Or.inl habove)
      · rcases above_popMin hr habove hm with hr' | ⟨rfl, hmem⟩
        · exact Or.inr (Or.inr hr')
        · exact Or.inl ⟨rfl, Or.inr hmem⟩

end BstGenerator.Trees
