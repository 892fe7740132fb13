import Mathlib.Algebra.Order.Group.Multiset
import Mathlib.Data.Multiset.UnionInter
import Mathlib.Logic.Function.Basic
import Mathlib.Tactic.Abel

/-!
# Explicit heaps

A heap is a finite partial map from addresses to cells together with a *ledger*
of everything done to it: which cells were created, written and deleted, in
order. Addresses are allocation identities (`new` never hands out the same
address twice), so "this node was deleted exactly once" is a count in the
ledger.

- `Heap C`: the carrier. The ledger's accounting is carried as fields, so a
  heap with a cell deleted twice, or live without having been created, cannot be
  built.
- `Heap.Is h M`: the cells of `h` are **exactly** the multiset `M` of
  address/cell pairs, no two at one address. Splitting `M` as `M' + R` reads as
  the separating conjunction; every rule below keeps `R` untouched, which is the
  frame rule.
-/

namespace BstGenerator.Memory

universe u

/-- Addresses of cells; `nullptr` is the address no cell ever has. -/
abbrev Addr : Type := Nat

/-- The null pointer. -/
def nullptr : Addr := 0

/-- What the ledger records. -/
inductive Event
  | new (a : Addr)
  | write (a : Addr)
  | delete (a : Addr)
  deriving DecidableEq, Repr

/-- An event at the end does not change the count of another one. -/
theorem count_snoc_ne {l : List Event} {d e : Event} (h : d ≠ e) :
    (l ++ [d]).count e = l.count e := by
  simp [List.count_append, h]

/-- A heap of cells `C` with its ledger. -/
structure Heap (C : Type u) where
  cells : Addr → Option C
  next : Addr
  log : List Event
  next_pos : 0 < next
  /-- Live cells were handed out by `new`, so none of them is at `nullptr`. -/
  live_lt : ∀ a c, cells a = some c → 0 < a ∧ a < next
  mem_new : ∀ a, .new a ∈ log ↔ 0 < a ∧ a < next
  new_once : ∀ a, log.count (.new a) ≤ 1
  mem_delete : ∀ a, .delete a ∈ log ↔ 0 < a ∧ a < next ∧ cells a = none
  delete_once : ∀ a, log.count (.delete a) ≤ 1

namespace Heap

variable {C : Type u}

/-- The address that is handed out next has no cell. -/
theorem cells_next (h : Heap C) : h.cells h.next = none := by
  cases hc : h.cells h.next with
  | none => rfl
  | some c => exact absurd (h.live_lt _ _ hc).2 (Nat.lt_irrefl _)

theorem next_ne_nullptr (h : Heap C) : h.next ≠ nullptr := Nat.ne_of_gt h.next_pos

/-- A live cell is not at the null pointer. -/
theorem ne_nullptr_of_live {h : Heap C} {a : Addr} {c : C} (hl : h.cells a = some c) :
    a ≠ nullptr := Nat.ne_of_gt (h.live_lt a c hl).1

/-- No cell was created there before. -/
theorem not_mem_new_next (h : Heap C) : .new h.next ∉ h.log := fun hmem =>
  Nat.lt_irrefl _ ((h.mem_new _).mp hmem).2

/-- A live cell was not deleted. -/
theorem not_mem_delete_of_live {h : Heap C} {a : Addr} {c : C} (hl : h.cells a = some c) :
    .delete a ∉ h.log := fun hmem => by
  have := ((h.mem_delete a).mp hmem).2.2
  rw [hl] at this
  cases this

/-- The heap nothing was ever allocated in. -/
def empty : Heap C where
  cells := fun _ => none
  next := 1
  log := []
  next_pos := Nat.one_pos
  live_lt := fun _ _ h => nomatch h
  mem_new := fun a => by
    constructor
    · exact fun h => nomatch h
    · rintro ⟨hpos, hlt⟩
      exact absurd (Nat.lt_of_lt_of_le hlt hpos) (Nat.lt_irrefl _)
  new_once := fun _ => Nat.zero_le _
  mem_delete := fun a => by
    constructor
    · exact fun h => nomatch h
    · rintro ⟨hpos, hlt, -⟩
      exact absurd (Nat.lt_of_lt_of_le hlt hpos) (Nat.lt_irrefl _)
  delete_once := fun _ => Nat.zero_le _

/-- `new`: the cell is placed at `h.next`, which is then used up. -/
def new (h : Heap C) (c : C) : Heap C where
  cells := Function.update h.cells h.next (some c)
  next := h.next + 1
  log := h.log ++ [.new h.next]
  next_pos := Nat.succ_pos _
  live_lt := fun a d hd => by
    by_cases ha : a = h.next
    · subst ha
      exact ⟨h.next_pos, Nat.lt_succ_self _⟩
    · rw [Function.update_of_ne ha] at hd
      exact ⟨(h.live_lt a d hd).1, Nat.lt_succ_of_lt (h.live_lt a d hd).2⟩
  mem_new := fun a => by
    simp only [List.mem_append, h.mem_new, List.mem_singleton, Event.new.injEq]
    constructor
    · rintro (⟨hpos, hlt⟩ | rfl)
      · exact ⟨hpos, Nat.lt_succ_of_lt hlt⟩
      · exact ⟨h.next_pos, Nat.lt_succ_self _⟩
    · rintro ⟨hpos, hlt⟩
      rcases Nat.lt_succ_iff_lt_or_eq.mp hlt with hlt | rfl
      · exact Or.inl ⟨hpos, hlt⟩
      · exact Or.inr rfl
  new_once := fun a => by
    by_cases ha : h.next = a
    · subst ha
      simp [List.count_eq_zero.mpr h.not_mem_new_next]
    · rw [count_snoc_ne (by simpa using ha)]
      exact h.new_once a
  mem_delete := fun a => by
    simp only [List.mem_append, h.mem_delete, List.mem_singleton, reduceCtorEq, or_false]
    by_cases ha : a = h.next
    · subst ha
      simp
    · rw [Function.update_of_ne ha]
      constructor
      · rintro ⟨hpos, hlt, hdead⟩
        exact ⟨hpos, Nat.lt_succ_of_lt hlt, hdead⟩
      · rintro ⟨hpos, hlt, hdead⟩
        exact ⟨hpos, Nat.lt_of_le_of_ne (Nat.le_of_lt_succ hlt) ha, hdead⟩
  delete_once := fun a => by
    rw [count_snoc_ne (by simp)]
    exact h.delete_once a

/-- Overwrite a live cell. The commands of a model check liveness themselves, so
the other branch is never taken on their behalf. -/
def write (h : Heap C) (a : Addr) (c : C) : Heap C :=
  if hl : (h.cells a).isSome then
    { h with
      cells := Function.update h.cells a (some c)
      log := h.log ++ [.write a]
      live_lt := fun b d hd => by
        by_cases hb : b = a
        · subst hb
          exact h.live_lt b _ (Option.eq_some_of_isSome hl)
        · rw [Function.update_of_ne hb] at hd
          exact h.live_lt b d hd
      mem_new := fun b => by simp [h.mem_new]
      new_once := fun b => by
        rw [count_snoc_ne (by simp)]
        exact h.new_once b
      mem_delete := fun b => by
        simp only [List.mem_append, h.mem_delete, List.mem_singleton, reduceCtorEq, or_false]
        by_cases hb : b = a
        · subst hb
          simp [Option.isSome_iff_ne_none.mp hl]
        · rw [Function.update_of_ne hb]
      delete_once := fun b => by
        rw [count_snoc_ne (by simp)]
        exact h.delete_once b }
  else h

/-- Delete a live cell; see `write` for the other branch. -/
def delete (h : Heap C) (a : Addr) : Heap C :=
  if hl : (h.cells a).isSome then
    { h with
      cells := Function.update h.cells a none
      log := h.log ++ [.delete a]
      live_lt := fun b d hd => by
        by_cases hb : b = a
        · subst hb
          simp at hd
        · rw [Function.update_of_ne hb] at hd
          exact h.live_lt b d hd
      mem_new := fun b => by simp [h.mem_new]
      new_once := fun b => by
        rw [count_snoc_ne (by simp)]
        exact h.new_once b
      mem_delete := fun b => by
        simp only [List.mem_append, h.mem_delete, List.mem_singleton, Event.delete.injEq]
        by_cases hb : b = a
        · subst hb
          simpa using h.live_lt b _ (Option.eq_some_of_isSome hl)
        · rw [Function.update_of_ne hb]
          simp [hb]
      delete_once := fun b => by
        by_cases hb : a = b
        · subst hb
          have hnd := not_mem_delete_of_live (Option.eq_some_of_isSome hl)
          simp [List.count_eq_zero.mpr hnd]
        · rw [count_snoc_ne (by simpa using hb)]
          exact h.delete_once b }
  else h

@[simp] theorem empty_cells (a : Addr) : (empty : Heap C).cells a = none := rfl

@[simp] theorem empty_log : (empty : Heap C).log = [] := rfl

@[simp] theorem new_log (h : Heap C) (c : C) :
    (h.new c).log = h.log ++ [.new h.next] := rfl

theorem new_cells (h : Heap C) (c : C) (b : Addr) :
    (h.new c).cells b = if b = h.next then some c else h.cells b :=
  Function.update_apply ..

theorem write_log {h : Heap C} {a : Addr} {d : C} (hl : h.cells a = some d) (c : C) :
    (h.write a c).log = h.log ++ [.write a] := by
  simp [write, hl]

theorem write_cells {h : Heap C} {a : Addr} {d : C} (hl : h.cells a = some d) (c : C)
    (b : Addr) : (h.write a c).cells b = if b = a then some c else h.cells b := by
  simp [write, hl, Function.update_apply]

theorem delete_log {h : Heap C} {a : Addr} {d : C} (hl : h.cells a = some d) :
    (h.delete a).log = h.log ++ [.delete a] := by
  simp [delete, hl]

theorem delete_cells {h : Heap C} {a : Addr} {d : C} (hl : h.cells a = some d) (b : Addr) :
    (h.delete a).cells b = if b = a then none else h.cells b := by
  simp [delete, hl, Function.update_apply]

/-! ## What the ledger says -/

/-- Everything created and no longer live was deleted **exactly once**. -/
theorem delete_count_of_dead {h : Heap C} {a : Addr} (hnew : .new a ∈ h.log)
    (hdead : h.cells a = none) : h.log.count (.delete a) = 1 := by
  obtain ⟨hpos, hlt⟩ := (h.mem_new a).mp hnew
  have hmem : .delete a ∈ h.log := (h.mem_delete a).mpr ⟨hpos, hlt, hdead⟩
  exact Nat.le_antisymm (h.delete_once a) (List.count_pos_iff.mpr hmem)

/-! ## Exact contents, and the frame rule -/

/-- The cells of `h` are exactly `M`: one pair for each live address. -/
structure Is (h : Heap C) (M : Multiset (Addr × C)) : Prop where
  nodup : (M.map Prod.fst).Nodup
  cells_iff : ∀ a c, h.cells a = some c ↔ (a, c) ∈ M

namespace Is

variable {h : Heap C} {M R : Multiset (Addr × C)} {a : Addr} {c : C}

theorem empty : (Heap.empty : Heap C).Is 0 where
  nodup := by simp
  cells_iff := by simp

/-- Every heap has contents. -/
theorem exists_is (h : Heap C) : ∃ M, h.Is M := by
  let cell (a : Addr) : Option (Addr × C) := (h.cells a).map fun c => (a, c)
  have hcell (a b : Addr) (c : C) : cell a = some (b, c) ↔ a = b ∧ h.cells a = some c := by
    simp only [cell, Option.map_eq_some_iff, Prod.mk.injEq]
    constructor
    · rintro ⟨d, hd, hab, rfl⟩
      exact ⟨hab, hd⟩
    · rintro ⟨hab, hd⟩
      exact ⟨c, hd, hab, rfl⟩
  refine ⟨((List.range h.next).filterMap cell : List (Addr × C)), ?_, ?_⟩
  · rw [Multiset.map_coe, Multiset.coe_nodup, List.map_filterMap]
    refine List.Nodup.filterMap ?_ List.nodup_range
    intro a a' b hb hb'
    obtain ⟨⟨b, c⟩, hc, rfl⟩ := Option.map_eq_some_iff.mp hb
    obtain ⟨⟨b', c'⟩, hc', heq⟩ := Option.map_eq_some_iff.mp hb'
    exact ((hcell a b c).mp hc).1.trans (heq.symm.trans ((hcell a' b' c').mp hc').1.symm)
  · intro a c
    rw [Multiset.mem_coe, List.mem_filterMap]
    constructor
    · intro hc
      exact ⟨a, List.mem_range.mpr (h.live_lt a c hc).2, (hcell a a c).mpr ⟨rfl, hc⟩⟩
    · rintro ⟨b, -, hb⟩
      obtain ⟨rfl, hc⟩ := (hcell b a c).mp hb
      exact hc

theorem congr {M' : Multiset (Addr × C)} (hM : h.Is M) (heq : M = M') : h.Is M' :=
  heq ▸ hM

/-- The cell a context owns is the one that is read. -/
theorem read (hM : h.Is ({(a, c)} + R)) : h.cells a = some c :=
  (hM.cells_iff a c).mpr (by simp)

/-- The addresses of the contents are those that are live. -/
theorem mem_addrs_iff (hM : h.Is M) : a ∈ M.map Prod.fst ↔ (h.cells a).isSome := by
  rw [Multiset.mem_map, Option.isSome_iff_exists]
  constructor
  · rintro ⟨⟨b, d⟩, hmem, rfl⟩
    exact ⟨d, (hM.cells_iff b d).mpr hmem⟩
  · rintro ⟨d, hd⟩
    exact ⟨(a, d), (hM.cells_iff a d).mp hd, rfl⟩

/-- The first component is owned once. -/
theorem not_mem_frame (hM : h.Is ({(a, c)} + R)) : a ∉ R.map Prod.fst := by
  have hnd := hM.nodup
  rw [Multiset.map_add, Multiset.map_singleton, Multiset.singleton_add,
    Multiset.nodup_cons] at hnd
  exact hnd.1

/-- **Creating a cell** adds it to whatever the contents are. -/
theorem new (hM : h.Is M) (c : C) : (h.new c).Is ({(h.next, c)} + M) where
  nodup := by
    rw [Multiset.map_add, Multiset.map_singleton, Multiset.singleton_add,
      Multiset.nodup_cons]
    refine ⟨fun hmem => ?_, hM.nodup⟩
    rw [hM.mem_addrs_iff, h.cells_next] at hmem
    cases hmem
  cells_iff := fun b d => by
    rw [new_cells]
    by_cases hb : b = h.next
    · subst hb
      have hfresh : (h.next, d) ∉ M := fun hmem => by
        have := (hM.cells_iff _ _).mpr hmem
        rw [h.cells_next] at this
        cases this
      simp [hfresh, eq_comm]
    · rw [if_neg hb, hM.cells_iff]
      simp [hb]

/-- **Writing to a cell** leaves the frame as it is. -/
theorem write (hM : h.Is ({(a, c)} + R)) (d : C) : (h.write a d).Is ({(a, d)} + R) where
  nodup := by
    have hnd := hM.nodup
    rwa [Multiset.map_add, Multiset.map_singleton] at hnd ⊢
  cells_iff := fun b e => by
    rw [write_cells hM.read]
    by_cases hb : b = a
    · subst hb
      have hR : (b, e) ∉ R := fun hmem =>
        hM.not_mem_frame (Multiset.mem_map_of_mem Prod.fst hmem)
      simp [hR, eq_comm]
    · rw [if_neg hb, hM.cells_iff]
      simp [hb]

/-- **Deleting a cell** leaves just the frame. -/
theorem delete (hM : h.Is ({(a, c)} + R)) : (h.delete a).Is R where
  nodup := by
    have hnd := hM.nodup
    rw [Multiset.map_add, Multiset.nodup_add] at hnd
    exact hnd.2.1
  cells_iff := fun b e => by
    rw [delete_cells hM.read]
    by_cases hb : b = a
    · subst hb
      have hR : (b, e) ∉ R := fun hmem =>
        hM.not_mem_frame (Multiset.mem_map_of_mem Prod.fst hmem)
      simp [hR]
    · rw [if_neg hb, hM.cells_iff]
      simp [hb]

end Is

end Heap

end BstGenerator.Memory
