import Mathlib.Order.Lattice
import BstGenerator.Blocking.Container
import BstGenerator.Orders.Stable

/-!
# The containers keep their promises

`Container` and `PriorityContainer` are lawful collections, and what their operations do
to the order of the items:

- `queue_moves`, `stack_moves`: the ends of the deque the two kinds of `Container` use.
- `of_tryEmplace`: a priority container puts an item behind the last one that is not below
  it, if its comparer is lawful (`LawfulComparer`).
- `tryTakePrio_split`: on a container in descending order `try_take_prio` takes the first
  item of the lowest class.
-/

namespace BstGenerator.Blocking

open Orders

variable {T : Type}

/-! ## Queue and stack -/

namespace Container

variable {κ : ContainerType} {c c' : Container T κ} {x : T} {m : Move}

/-- `try_add` puts the item at the back, in a queue and in a stack. -/
theorem of_tryAdd (h : tryAdd x c = some c') : c' = { c with container := c.container ++ [x] } := by
  unfold tryAdd at h
  split at h
  · cases h
  · exact (Option.some.inj h).symm

/-- `try_emplace` puts it where the kind of container says: at the front, in a stack. -/
theorem of_tryEmplace (h : tryEmplace x c = some c') : c' = tryEmplaceI x c := by
  unfold tryEmplace at h
  split at h
  · cases h
  · exact (Option.some.inj h).symm

/-- A queue gives the item at the front. -/
theorem of_tryTake_queue {c c' : QueueContainer T} (h : tryTake c = some (x, c')) :
    c.container = x :: c'.container ∧ c'.boundedCapacity = c.boundedCapacity := by
  unfold tryTake at h
  cases hc : c.container with
  | nil => simp [hc] at h
  | cons y rest =>
    simp only [hc] at h
    cases h
    exact ⟨rfl, rfl⟩

/-- A stack gives the item at the back, which is not where `try_emplace` puts it. -/
theorem of_tryTake_stack {c c' : StackContainer T} (h : tryTake c = some (x, c')) :
    c.container = c'.container ++ [x] ∧ c'.boundedCapacity = c.boundedCapacity := by
  unfold tryTake at h
  cases hc : c.container.getLast? with
  | none => simp [hc] at h
  | some y =>
    simp only [hc] at h
    cases h
    obtain ⟨rest, hrest⟩ := List.getLast?_eq_some_iff.mp hc
    refine ⟨?_, rfl⟩
    rw [hrest, List.dropLast_concat]

/-- What an operation that succeeds does to a queue. -/
theorem queue_moves {c c' : QueueContainer T} (h : Moves c m x c') :
    (m.isIn = true ∧ c'.container = c.container ++ [x] ∨
      m.isIn = false ∧ c.container = x :: c'.container) ∧
      c'.boundedCapacity = c.boundedCapacity := by
  cases h with
  | emplace h =>
    rw [of_tryEmplace h]
    exact ⟨Or.inl ⟨rfl, rfl⟩, rfl⟩
  | add h =>
    rw [of_tryAdd h]
    exact ⟨Or.inl ⟨rfl, rfl⟩, rfl⟩
  | take h =>
    obtain ⟨h, hcap⟩ := of_tryTake_queue h
    exact ⟨Or.inr ⟨rfl, h⟩, hcap⟩
  | takePrio e _ => exact e.elim

/-- What an operation that succeeds does to a stack. -/
theorem stack_moves {c c' : StackContainer T} (h : Moves c m x c') :
    (m = .emplace ∧ c'.container = x :: c.container ∨
      m = .add ∧ c'.container = c.container ++ [x] ∨
      m = .take ∧ c.container = c'.container ++ [x]) ∧
      c'.boundedCapacity = c.boundedCapacity := by
  cases h with
  | emplace h =>
    rw [of_tryEmplace h]
    exact ⟨Or.inl ⟨rfl, rfl⟩, rfl⟩
  | add h =>
    rw [of_tryAdd h]
    exact ⟨Or.inr (Or.inl ⟨rfl, rfl⟩), rfl⟩
  | take h =>
    obtain ⟨h, hcap⟩ := of_tryTake_stack h
    exact ⟨Or.inr (Or.inr ⟨rfl, h⟩), hcap⟩
  | takePrio e _ => exact e.elim

/-- Whichever end an operation uses, it puts in or takes out one item and keeps the others. -/
theorem moves_perm (h : Moves c m x c') :
    (m.isIn = true ∧ c'.container.Perm (x :: c.container) ∨
      m.isIn = false ∧ c.container.Perm (x :: c'.container)) ∧
      c'.boundedCapacity = c.boundedCapacity := by
  cases κ with
  | queue =>
    obtain ⟨⟨hm, hc⟩ | ⟨hm, hc⟩, hcap⟩ := queue_moves h
    · exact ⟨Or.inl ⟨hm, hc ▸ List.perm_append_singleton ..⟩, hcap⟩
    · exact ⟨Or.inr ⟨hm, hc ▸ List.Perm.refl _⟩, hcap⟩
  | stack =>
    obtain ⟨⟨rfl, hc⟩ | ⟨rfl, hc⟩ | ⟨rfl, hc⟩, hcap⟩ := stack_moves h
    · exact ⟨Or.inl ⟨rfl, hc ▸ List.Perm.refl _⟩, hcap⟩
    · exact ⟨Or.inl ⟨rfl, hc ▸ List.perm_append_singleton ..⟩, hcap⟩
    · exact ⟨Or.inr ⟨rfl, hc ▸ List.perm_append_singleton ..⟩, hcap⟩

/-- Both kinds fail to give an item just if they have none. -/
theorem tryTake_eq_none_iff : tryTake c = none ↔ c.container = [] := by
  cases κ with
  | queue =>
    unfold tryTake
    cases hc : c.container <;> simp [hc]
  | stack =>
    unfold tryTake
    cases hc : c.container.getLast? with
    | none => simp [List.getLast?_eq_none_iff.mp hc]
    | some y =>
      have hne : c.container ≠ [] := by
        rintro hnil
        simp [hnil] at hc
      simp [hc, hne]

instance : LawfulCollection (Container T κ) T Empty where
  items := container
  capacity := boundedCapacity
  size_eq _ := rfl
  items_bounded _ := rfl
  capacity_bounded _ := rfl
  tryEmplace_eq_none {x c} := by
    show tryEmplace x c = none ↔ _
    unfold tryEmplace
    split <;> simp [*]
  tryAdd_eq_none {x c} := by
    show tryAdd x c = none ↔ _
    unfold tryAdd
    split <;> simp [*]
  tryTake_eq_none := tryTake_eq_none_iff
  tryTakePrio_eq_none {e} := e.elim
  moves_in h hm := by
    obtain ⟨⟨-, hp⟩ | ⟨hm', -⟩, -⟩ := moves_perm h
    · exact hp
    · rw [hm] at hm'
      cases hm'
  moves_out h hm := by
    obtain ⟨⟨hm', -⟩ | ⟨-, hp⟩, -⟩ := moves_perm h
    · rw [hm] at hm'
      cases hm'
    · exact hp
  moves_capacity h := (moves_perm h).2

end Container

/-! ## The priority container -/

section Comparer

variable {comparer : T → T → Int}

/-- The comparer as an order: `x` is not above `y`. -/
def Below (comparer : T → T → Int) (x y : T) : Prop := comparer x y ≤ 0

instance : DecidableRel (Below comparer) :=
  fun x y => inferInstanceAs (Decidable (comparer x y ≤ 0))

/-- What is asked of a comparer: its sign is that of a total preorder. -/
structure LawfulComparer (comparer : T → T → Int) : Prop where
  swap (x y : T) : 0 ≤ comparer x y ↔ comparer y x ≤ 0
  trans {x y z : T} (h : comparer x y ≤ 0) (h' : comparer y z ≤ 0) : comparer x z ≤ 0

/-- Then the comparer sorts: ties are allowed, and any two items can be compared. -/
theorem LawfulComparer.totalPreorder (h : LawfulComparer comparer) :
    TotalPreorder (Below comparer) where
  total x y := by
    rcases Int.le_total (comparer x y) 0 with hxy | hxy
    · exact Or.inl hxy
    · exact Or.inr ((h.swap x y).mp hxy)
  trans := h.trans

/-- `PriorityComparer` is lawful for a linear order. -/
theorem lawful_priorityComparer {T : Type} [LinearOrder T] :
    LawfulComparer (priorityComparer (T := T)) where
  swap x y := by
    unfold priorityComparer
    rcases lt_trichotomy x y with h | rfl | h
    · rw [if_pos h, if_neg h.not_gt, if_pos h]
      decide
    · rw [if_neg (lt_irrefl x), if_neg (lt_irrefl x)]
    · rw [if_neg h.not_gt, if_pos h, if_pos h]
      decide
  trans {x y z} h h' := by
    have le_of_nonpos : ∀ a b : T, priorityComparer a b ≤ 0 ↔ a ≤ b := by
      intro a b
      unfold priorityComparer
      rcases lt_trichotomy a b with hab | rfl | hab
      · rw [if_pos hab]
        exact iff_of_true (by decide) hab.le
      · rw [if_neg (lt_irrefl a), if_neg (lt_irrefl a)]
        exact iff_of_true (Int.le_refl 0) (le_refl a)
      · rw [if_neg hab.not_gt, if_pos hab]
        exact iff_of_false (by decide) hab.not_ge
    rw [le_of_nonpos] at h h' ⊢
    exact le_trans h h'

end Comparer

namespace PriorityContainer

variable {comparer : T → T → Int} {c c' : PriorityContainer T comparer} {x : T} {m : Move}

/-- An insertion by index, as two parts of the list with the new item between. -/
theorem insertIdx_eq_take_drop (x : T) (l : List T) (i : Nat) (h : i ≤ l.length) :
    l.insertIdx i x = l.take i ++ x :: l.drop i := by
  induction l generalizing i with
  | nil =>
    obtain rfl : i = 0 := Nat.le_zero.mp h
    rfl
  | cons y l ih =>
    cases i with
    | zero => rfl
    | succ i =>
      rw [List.insertIdx_succ_cons, ih i (Nat.le_of_succ_le_succ h)]
      rfl

/-- Where `try_emplace` puts the new item: behind the last that is not below it. -/
theorem of_tryEmplace (hcmp : LawfulComparer comparer) (h : tryEmplace x c = some c') :
    c' = { c with container := place (Below comparer) x c.container } := by
  have hfun : (fun item => decide (0 ≤ comparer item x)) =
      fun item => decide (Below comparer x item) := by
    funext item
    exact decide_eq_decide.mpr (hcmp.swap item x)
  unfold tryEmplace at h
  rw [hfun] at h
  rw [place_eq_take_drop]
  split at h
  · cases h
  · split at h
    next hempty =>
      rw [List.isEmpty_iff.mp hempty] at h ⊢
      exact (Option.some.inj h).symm
    next =>
      have hle : c.container.reverse.findIdx (fun item => Below comparer x item) ≤
          c.container.length := by
        rw [← List.length_reverse]
        exact List.findIdx_le_length
      dsimp only at h
      split at h
      next hend =>
        rw [hend, Nat.sub_self]
        exact (Option.some.inj h).symm
      next =>
        split at h
        next hzero =>
          rw [hzero, Nat.sub_zero, List.take_length, List.drop_length]
          exact (Option.some.inj h).symm
        next =>
          rw [← insertIdx_eq_take_drop _ _ _ (Nat.sub_le ..)]
          exact (Option.some.inj h).symm

/-- Whatever the comparer is, an item that is put in is added to the others and no more. -/
theorem tryEmplace_perm (h : tryEmplace x c = some c') :
    c'.container.Perm (x :: c.container) ∧ c'.boundedCapacity = c.boundedCapacity := by
  unfold tryEmplace at h
  split at h
  · cases h
  · split at h
    · cases h
      exact ⟨List.Perm.refl _, rfl⟩
    · dsimp only at h
      split at h
      · cases h
        exact ⟨List.Perm.refl _, rfl⟩
      · split at h
        · cases h
          exact ⟨List.perm_append_singleton .., rfl⟩
        · cases h
          exact ⟨List.perm_insertIdx _ _ (Nat.sub_le ..), rfl⟩

/-- `try_add` is `try_emplace` here: its own test of the bound comes first, to no effect. -/
theorem of_tryAdd (h : tryAdd x c = some c') : tryEmplace x c = some c' := by
  unfold tryAdd at h
  split at h
  · cases h
  · exact h

/-- `try_take` gives the item at the front, which is the highest if the items descend. -/
theorem of_tryTake (h : tryTake c = some (x, c')) :
    c.container = x :: c'.container ∧ c'.boundedCapacity = c.boundedCapacity := by
  unfold tryTake at h
  cases hc : c.container with
  | nil => simp [hc] at h
  | cons y rest =>
    simp only [hc] at h
    cases h
    exact ⟨rfl, rfl⟩

/-- The search of `try_take_prio` does not leave the container. -/
theorem passEqual_le (current : Option T) (l : List T) :
    passEqual comparer current l ≤ l.length := by
  induction l generalizing current with
  | nil => exact Nat.le_refl 0
  | cons item items ih =>
    unfold passEqual
    cases current with
    | none => exact Nat.succ_le_succ (ih _)
    | some z =>
      dsimp only
      split
      · exact Nat.succ_le_succ (ih _)
      · exact Nat.zero_le _

/-- It passes one item at least, so the iterator it ends at has an item before it. -/
theorem passEqual_pos (l : List T) (h : l ≠ []) : 0 < passEqual comparer none l := by
  cases l with
  | nil => exact absurd rfl h
  | cons item items => exact Nat.succ_pos _

/-- What `try_take_prio` takes: the item at the base of the iterator its search ends at. -/
theorem of_tryTakePrio (h : tryTakePrio c = some (x, c')) :
    ∃ u v, c.container = u ++ x :: v ∧ c'.container = u ++ v ∧
      c'.boundedCapacity = c.boundedCapacity ∧
      u.length = c.container.length - passEqual comparer none c.container.reverse := by
  unfold tryTakePrio at h
  cases hc : c.container with
  | nil => simp [hc] at h
  | cons front rest =>
    simp only [hc] at h
    split at h
    next hend =>
      cases h
      exact ⟨[], rest, rfl, rfl, rfl, by rw [hend, Nat.sub_self]; rfl⟩
    next =>
      generalize hi : (front :: rest).length - passEqual comparer none (front :: rest).reverse = i
        at h ⊢
      cases hx : (front :: rest)[i]? with
      | none => simp [hx] at h
      | some y =>
        simp only [hx] at h
        cases h
        obtain ⟨hlt, rfl⟩ := List.getElem?_eq_some_iff.mp hx
        refine ⟨(front :: rest).take i, (front :: rest).drop (i + 1), ?_, ?_, rfl, ?_⟩
        · rw [List.getElem_cons_drop, List.take_append_drop]
        · exact List.eraseIdx_eq_take_drop_succ ..
        · exact List.length_take_of_le (Nat.le_of_lt hlt)

/-- `try_take_prio` fails just if there are no items: whatever the comparer is, the iterator
it takes from is to an item. -/
theorem tryTakePrio_eq_none_iff : tryTakePrio c = none ↔ c.container = [] := by
  unfold tryTakePrio
  cases hc : c.container with
  | nil => simp
  | cons front rest =>
    have hpos : 0 < passEqual comparer none (front :: rest).reverse :=
      passEqual_pos _ (by simp)
    have hlt : (front :: rest).length - passEqual comparer none (front :: rest).reverse <
        (front :: rest).length := Nat.sub_lt (Nat.succ_pos _) hpos
    dsimp only
    split
    · simp
    · rw [List.getElem?_eq_getElem hlt]
      simp

/-- For the items as a collection the comparer does not matter. -/
theorem moves_perm (h : Moves c m x c') :
    (m.isIn = true ∧ c'.container.Perm (x :: c.container) ∨
      m.isIn = false ∧ c.container.Perm (x :: c'.container)) ∧
      c'.boundedCapacity = c.boundedCapacity := by
  cases h with
  | emplace h => exact ⟨Or.inl ⟨rfl, (tryEmplace_perm h).1⟩, (tryEmplace_perm h).2⟩
  | add h =>
    exact ⟨Or.inl ⟨rfl, (tryEmplace_perm (of_tryAdd h)).1⟩, (tryEmplace_perm (of_tryAdd h)).2⟩
  | take h =>
    obtain ⟨h, hcap⟩ := of_tryTake h
    exact ⟨Or.inr ⟨rfl, h ▸ List.Perm.refl _⟩, hcap⟩
  | takePrio p h =>
    obtain ⟨u, v, h, h', hcap, -⟩ := of_tryTakePrio h
    rw [h, h']
    exact ⟨Or.inr ⟨rfl, List.perm_middle⟩, hcap⟩

/-- An item is turned away just if the bound is reached. -/
theorem tryEmplace_eq_none_iff :
    tryEmplace x c = none ↔ c.container.length = c.boundedCapacity := by
  unfold tryEmplace
  by_cases h : c.container.length = c.boundedCapacity
  · simp [h]
  · rw [if_neg h]
    refine iff_of_false ?_ h
    dsimp only
    -- every other branch puts the item somewhere
    split_ifs <;> simp

instance : LawfulCollection (PriorityContainer T comparer) T Unit where
  items := container
  capacity := boundedCapacity
  size_eq _ := rfl
  items_bounded _ := rfl
  capacity_bounded _ := rfl
  tryEmplace_eq_none := tryEmplace_eq_none_iff
  tryAdd_eq_none {x c} := by
    show tryAdd x c = none ↔ _
    unfold tryAdd
    by_cases h : c.container.length = c.boundedCapacity
    · simp [h]
    · rw [if_neg h]
      exact tryEmplace_eq_none_iff
  tryTake_eq_none {c} := by
    show tryTake c = none ↔ c.container = []
    unfold tryTake
    cases c.container <;> simp
  tryTakePrio_eq_none := tryTakePrio_eq_none_iff
  moves_in h hm := by
    obtain ⟨⟨-, hp⟩ | ⟨hm', -⟩, -⟩ := moves_perm h
    · exact hp
    · rw [hm] at hm'
      cases hm'
  moves_out h hm := by
    obtain ⟨⟨hm', -⟩ | ⟨-, hp⟩, -⟩ := moves_perm h
    · rw [hm] at hm'
      cases hm'
    · exact hp
  moves_capacity h := (moves_perm h).2

/-! ### With a lawful comparer -/

variable (hcmp : LawfulComparer comparer)

include hcmp

/-- The search of `try_take_prio` over items that do not descend passes those equivalent
to the first and stops at one above it. -/
theorem passEqual_split (z : T) (l : List T)
    (hl : (z :: l).Pairwise fun a b => Below comparer a b) :
    (∀ y ∈ l.take (passEqual comparer (some z) l), Same (Below comparer) z y) ∧
      ∀ y ∈ l.drop (passEqual comparer (some z) l), ¬ Below comparer y z := by
  have hle := hcmp.totalPreorder
  induction l generalizing z with
  | nil => simp
  | cons item items ih =>
    obtain ⟨hz, hitems⟩ := List.pairwise_cons.mp hl
    have hzi : Below comparer z item := hz item (List.mem_cons_self ..)
    unfold passEqual
    dsimp only
    by_cases h : comparer item z ≤ 0
    · rw [if_pos h]
      have hsame : Same (Below comparer) z item := ⟨hzi, h⟩
      obtain ⟨htake, hdrop⟩ := ih item hitems
      constructor
      · intro y hy
        rcases List.mem_cons.mp hy with rfl | hy
        · exact hsame
        · exact hle.same_trans hsame (htake y hy)
      · intro y hy hyz
        exact hdrop y hy (hle.trans hyz hzi)
    · rw [if_neg h]
      refine ⟨by simp, ?_⟩
      intro y hy hyz
      rcases List.mem_cons.mp hy with rfl | hy
      · exact h hyz
      · exact h (hle.trans ((List.pairwise_cons.mp hitems).1 y hy) hyz)

/-- `try_take_prio` on a container in descending order takes the first of the last class. -/
theorem tryTakePrio_split (hdesc : Descending (Below comparer) c.container)
    (h : tryTakePrio c = some (x, c')) :
    ∃ u v, c.container = u ++ x :: v ∧ c'.container = u ++ v ∧
      (∀ y ∈ u, ¬ Below comparer y x) ∧ ∀ y ∈ v, Below comparer x y := by
  have hle := hcmp.totalPreorder
  obtain ⟨u, v, hc, hc', -, hlen⟩ := of_tryTakePrio h
  refine ⟨u, v, hc, hc', ?_⟩
  -- from the back: `z` is the last item, and `k` the items passed after it
  obtain ⟨w, z, hwz⟩ : ∃ w z, c.container = w ++ [z] := by
    refine ⟨c.container.dropLast, c.container.getLast (by simp [hc]), ?_⟩
    exact (List.dropLast_append_getLast _).symm
  have hrev : c.container.reverse = z :: w.reverse := by
    rw [hwz, List.reverse_append]
    rfl
  have hasc : (z :: w.reverse).Pairwise fun a b => Below comparer a b := by
    rw [← hrev, List.pairwise_reverse]
    exact hdesc
  obtain ⟨htake, hdrop⟩ := passEqual_split hcmp z w.reverse hasc
  set k := passEqual comparer (some z) w.reverse with hk
  have hpass : passEqual comparer none c.container.reverse = k + 1 := by
    rw [hrev]
    rfl
  have hkw : k ≤ w.length := by
    rw [hk, ← List.length_reverse]
    exact passEqual_le ..
  have hu : u.length = w.length - k := by
    rw [hlen, hpass, hwz, List.length_append, List.length_singleton]
    omega
  have hparts : u = w.take (w.length - k) ∧ x :: v = w.drop (w.length - k) ++ [z] := by
    have heq : u ++ x :: v = w.take (w.length - k) ++ (w.drop (w.length - k) ++ [z]) := by
      rw [← hc, hwz, ← List.append_assoc, List.take_append_drop]
    refine List.append_inj heq ?_
    rw [hu, List.length_take_of_le (Nat.sub_le ..)]
  have hback : ∀ y ∈ x :: v, Same (Below comparer) z y := by
    intro y hy
    rw [hparts.2] at hy
    rcases List.mem_append.mp hy with hy | hy
    · refine htake y ?_
      rw [List.take_reverse, List.mem_reverse]
      exact hy
    · rw [List.mem_singleton.mp hy]
      exact hle.same_refl z
  have hxz : Same (Below comparer) z x := hback x (List.mem_cons_self ..)
  constructor
  · intro y hy hyx
    refine hdrop y ?_ (hle.trans hyx hxz.2)
    rw [List.drop_reverse, List.mem_reverse, ← hparts.1]
    exact hy
  · intro y hy
    exact hle.trans hxz.2 (hback y (List.mem_cons_of_mem x hy)).1

end PriorityContainer

end BstGenerator.Blocking
