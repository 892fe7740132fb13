import Mathlib.Data.List.DropRight
import Mathlib.Data.List.Perm.Basic

/-!
# Lists kept in order by a total preorder

A list in descending order, in which elements that are equivalent stand in the order of
their arrival, is a way to hold a pool: the list of the same elements in the order of their
arrival (`Holds`).

- `Holds.arrival`: placing an element behind the last one that is not below it is an
  arrival.
- `Holds.removal`: taking out an element with no equivalent one before it is taking out,
  of the pool, the first of its class.
- `Holds.first`, `Holds.last`: so the head of the list is the earliest of the highest
  elements of the pool, and the first of the last class the earliest of the lowest.
-/

namespace BstGenerator.Orders

variable {α : Type} (le : α → α → Prop) [DecidableRel le]

/-- A total preorder. -/
structure TotalPreorder (le : α → α → Prop) : Prop where
  total (a b : α) : le a b ∨ le b a
  trans {a b c : α} (h : le a b) (h' : le b c) : le a c

/-- Neither is above the other. -/
def Same (a b : α) : Prop := le a b ∧ le b a

instance : DecidableRel (Same le) := fun a b => inferInstanceAs (Decidable (le a b ∧ le b a))

/-- The elements equivalent to `a`, in order. -/
def same (a : α) (l : List α) : List α := l.filter fun b => Same le a b

/-- No element is above one before it. -/
def Descending (l : List α) : Prop := l.Pairwise fun a b => le b a

/-- Put `x` behind the last element that is not below it. -/
def place (x : α) (l : List α) : List α :=
  l.rdropWhile (fun y => ¬ le x y) ++ x :: l.rtakeWhile (fun y => ¬ le x y)

/-- `sorted` has the elements of `pool`, in descending order, and equivalent ones in the
order of the pool. -/
structure Holds (sorted pool : List α) : Prop where
  descending : Descending le sorted
  classes (a : α) : same le a sorted = same le a pool

/-- Take the earliest of the highest elements out of the pool. -/
def EarliestHighest (pool : List α) (x : α) (rest : List α) : Prop :=
  ∃ before after, pool = before ++ x :: after ∧ rest = before ++ after ∧
    (∀ y ∈ before, ¬ le x y) ∧ ∀ y ∈ after, le y x

/-- Take the earliest of the lowest elements out of the pool. -/
def EarliestLowest (pool : List α) (x : α) (rest : List α) : Prop :=
  ∃ before after, pool = before ++ x :: after ∧ rest = before ++ after ∧
    (∀ y ∈ before, ¬ le y x) ∧ ∀ y ∈ after, le x y

variable {le}

namespace TotalPreorder

variable (hle : TotalPreorder le)

include hle

omit [DecidableRel le] in
theorem refl (a : α) : le a a := (hle.total a a).elim id id

omit [DecidableRel le] in
/-- What is not below is above or equivalent. -/
theorem le_of_not {a b : α} (h : ¬ le a b) : le b a := (hle.total a b).resolve_left h

omit [DecidableRel le] in
theorem same_refl (a : α) : Same le a a := ⟨hle.refl a, hle.refl a⟩

omit [DecidableRel le] in
/-- Elements equivalent to the same one are equivalent. -/
theorem same_trans {a b c : α} (h : Same le a b) (h' : Same le b c) : Same le a c :=
  ⟨hle.trans h.1 h'.1, hle.trans h'.2 h.2⟩

end TotalPreorder

omit [DecidableRel le] in
theorem Same.symm {a b : α} (h : Same le a b) : Same le b a := ⟨h.2, h.1⟩

@[simp] theorem same_append (a : α) (l l' : List α) :
    same le a (l ++ l') = same le a l ++ same le a l' := List.filter_append ..

theorem same_cons_of_same {a x : α} (h : Same le a x) (l : List α) :
    same le a (x :: l) = x :: same le a l := List.filter_cons_of_pos (by simpa using h)

theorem same_cons_of_not {a x : α} (h : ¬ Same le a x) (l : List α) :
    same le a (x :: l) = same le a l := List.filter_cons_of_neg (by simpa using h)

/-- Where no element is equivalent to `a`, the class of `a` is empty. -/
theorem same_eq_nil {a : α} {l : List α} (h : ∀ y ∈ l, ¬ Same le a y) : same le a l = [] := by
  unfold same
  rw [List.filter_eq_nil_iff]
  intro y hy
  simpa using h y hy

theorem mem_same {a b : α} {l : List α} : b ∈ same le a l ↔ b ∈ l ∧ Same le a b := by
  unfold same
  simp

theorem Holds.nil : Holds le [] [] := ⟨List.Pairwise.nil, fun _ => rfl⟩

/-- The list and the pool have the same elements. -/
theorem Holds.mem_iff (hle : TotalPreorder le) {sorted pool : List α} (h : Holds le sorted pool)
    {x : α} : x ∈ sorted ↔ x ∈ pool := by
  have key : x ∈ same le x sorted ↔ x ∈ same le x pool := by rw [h.classes x]
  rwa [mem_same, mem_same, and_iff_left (hle.same_refl x), and_iff_left (hle.same_refl x)]
    at key

/-! ## Arrivals -/

/-- What `place` leaves before the new element is not below it: the list descends, so the
search from the end may stop at the first such element. -/
theorem mem_rdropWhile_place (hle : TotalPreorder le) {x y : α} {l : List α}
    (hl : Descending le l) (hy : y ∈ l.rdropWhile fun y => ¬ le x y) : le x y := by
  induction l using List.reverseRecOn with
  | nil => simp at hy
  | append_singleton l z ih =>
    by_cases hz : le x z
    · rw [List.rdropWhile_concat_neg _ _ _ (by simpa using hz)] at hy
      rcases List.mem_append.mp hy with hmem | hmem
      · exact hle.trans hz ((List.pairwise_append.mp hl).2.2 y hmem z (List.mem_singleton_self z))
      · rwa [List.mem_singleton.mp hmem]
    · rw [List.rdropWhile_concat_pos _ _ _ (by simpa using hz)] at hy
      exact ih (List.pairwise_append.mp hl).1 hy

/-- What it leaves behind the new element is below it. -/
theorem mem_rtakeWhile_place {x y : α} {l : List α}
    (hy : y ∈ l.rtakeWhile fun y => ¬ le x y) : ¬ le x y := by
  simpa using List.mem_rtakeWhile_imp hy

/-- So the list still descends with the new element in its place. -/
theorem descending_place (hle : TotalPreorder le) (x : α) {l : List α}
    (hl : Descending le l) : Descending le (place le x l) := by
  have hsplit : Descending le (l.rdropWhile (fun y => ¬ le x y) ++
      l.rtakeWhile fun y => ¬ le x y) := by
    rwa [List.rdropWhile_append_rtakeWhile]
  obtain ⟨hfront, hback, hcross⟩ := List.pairwise_append.mp hsplit
  refine List.pairwise_append.mpr ⟨hfront, List.pairwise_cons.mpr ⟨?_, hback⟩, ?_⟩
  · intro y hy
    exact hle.le_of_not (mem_rtakeWhile_place hy)
  · intro a ha b hb
    rcases List.mem_cons.mp hb with rfl | hb
    · exact mem_rdropWhile_place hle hl ha
    · exact hcross a ha b hb

/-- The place, counted from the end of the list. -/
theorem place_eq_take_drop (x : α) (l : List α) :
    place le x l = l.take (l.length - l.reverse.findIdx fun y => le x y) ++
      x :: l.drop (l.length - l.reverse.findIdx fun y => le x y) := by
  have hfun : (fun y => !decide (¬ le x y)) = fun y => decide (le x y) := by
    funext y
    simp
  unfold place List.rdropWhile List.rtakeWhile
  rw [List.dropWhile_eq_drop_findIdx_not, List.takeWhile_eq_take_findIdx_not, hfun,
    List.drop_reverse, List.take_reverse, List.reverse_reverse, List.reverse_reverse]

/-- An element placed behind the last one that is not below it comes last of its class. -/
theorem same_place (hle : TotalPreorder le) (a x : α) (l : List α) :
    same le a (place le x l) = same le a (l ++ [x]) := by
  have hsplit : same le a l = same le a (l.rdropWhile fun y => ¬ le x y) ++
      same le a (l.rtakeWhile fun y => ¬ le x y) := by
    rw [← same_append, List.rdropWhile_append_rtakeWhile]
  unfold place
  rw [same_append, same_append, hsplit]
  by_cases hx : Same le a x
  · have hnone : same le a (l.rtakeWhile fun y => ¬ le x y) = [] := by
      refine same_eq_nil ?_
      intro y hy hay
      exact mem_rtakeWhile_place hy (hle.same_trans hx.symm hay).1
    rw [same_cons_of_same hx, same_cons_of_same hx, hnone, List.append_nil]
    rfl
  · rw [same_cons_of_not hx, same_cons_of_not hx]
    exact (List.append_nil _).symm

/-- **Arrival.** -/
theorem Holds.arrival (hle : TotalPreorder le) {sorted pool : List α} (h : Holds le sorted pool)
    (x : α) : Holds le (place le x sorted) (pool ++ [x]) := by
  refine ⟨descending_place hle x h.descending, ?_⟩
  intro a
  rw [same_place hle, same_append, same_append, h.classes a]

/-! ## Removals -/

/-- **Removal.** -/
theorem Holds.removal (hle : TotalPreorder le) {u v pool : List α} {x : α}
    (h : Holds le (u ++ x :: v) pool) (hu : ∀ y ∈ u, ¬ Same le x y) :
    ∃ before after, pool = before ++ x :: after ∧ (∀ y ∈ before, ¬ Same le x y) ∧
      Holds le (u ++ v) (before ++ after) := by
  -- the class of `x` begins with `x` in the list, so it does in the pool
  have hclass : same le x pool = x :: same le x v := by
    rw [← h.classes x, same_append, same_eq_nil hu, same_cons_of_same (hle.same_refl x)]
    rfl
  obtain ⟨before, after, rfl, hbefore, -, hafter⟩ := List.filter_eq_cons_iff.mp hclass
  replace hbefore : ∀ y ∈ before, ¬ Same le x y := by
    intro y hy
    simpa using hbefore y hy
  refine ⟨before, after, rfl, hbefore, ?_, ?_⟩
  · have hsub : (u ++ v).Sublist (u ++ x :: v) :=
      List.Sublist.append_left (List.sublist_cons_self x v) u
    exact List.Pairwise.sublist hsub h.descending
  · intro a
    have ha := h.classes a
    rw [same_append, same_append] at ha ⊢
    by_cases hx : Same le a x
    · have hu' : same le a u = [] :=
        same_eq_nil fun y hy hay => hu y hy (hle.same_trans hx.symm hay)
      have hb' : same le a before = [] :=
        same_eq_nil fun y hy hay => hbefore y hy (hle.same_trans hx.symm hay)
      rw [hu', hb', same_cons_of_same hx, same_cons_of_same hx] at ha
      rw [hu', hb']
      exact (List.cons.inj ha).2
    · rwa [same_cons_of_not hx, same_cons_of_not hx] at ha

/-- **The head of the list is the earliest of the highest.** -/
theorem Holds.first (hle : TotalPreorder le) {sorted pool : List α} {x : α}
    (h : Holds le (x :: sorted) pool) :
    ∃ rest, EarliestHighest le pool x rest ∧ Holds le sorted rest := by
  obtain ⟨before, after, rfl, hbefore, hrest⟩ :=
    Holds.removal (u := []) hle h (fun y hy => nomatch hy)
  have hmax : ∀ y ∈ before ++ x :: after, le y x := by
    intro y hy
    rcases List.mem_cons.mp ((h.mem_iff hle).mpr hy) with rfl | hmem
    · exact hle.refl y
    · exact (List.pairwise_cons.mp h.descending).1 y hmem
  refine ⟨before ++ after, ⟨before, after, rfl, rfl, ?_, ?_⟩, hrest⟩
  · intro y hy hxy
    exact hbefore y hy ⟨hxy, hmax y (List.mem_append_left _ hy)⟩
  · intro y hy
    exact hmax y (List.mem_append_right _ (List.mem_cons_of_mem x hy))

/-- **The first of the last class is the earliest of the lowest.** -/
theorem Holds.last (hle : TotalPreorder le) {u v pool : List α} {x : α}
    (h : Holds le (u ++ x :: v) pool) (hu : ∀ y ∈ u, ¬ le y x) (hv : ∀ y ∈ v, le x y) :
    ∃ rest, EarliestLowest le pool x rest ∧ Holds le (u ++ v) rest := by
  obtain ⟨before, after, rfl, hbefore, hrest⟩ :=
    Holds.removal hle h (fun y hy hxy => hu y hy hxy.2)
  have hmin : ∀ y ∈ before ++ x :: after, le x y := by
    intro y hy
    rcases List.mem_append.mp ((h.mem_iff hle).mpr hy) with hmem | hmem
    · exact hle.le_of_not (hu y hmem)
    · rcases List.mem_cons.mp hmem with rfl | hmem
      · exact hle.refl y
      · exact hv y hmem
  refine ⟨before ++ after, ⟨before, after, rfl, rfl, ?_, ?_⟩, hrest⟩
  · intro y hy hyx
    exact hbefore y hy ⟨hmin y (List.mem_append_left _ hy), hyx⟩
  · intro y hy
    exact hmin y (List.mem_append_right _ (List.mem_cons_of_mem x hy))

end BstGenerator.Orders
