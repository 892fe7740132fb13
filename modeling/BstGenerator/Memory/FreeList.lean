import Mathlib.Data.List.Nodup
import Mathlib.Data.List.Perm.Subperm
import Mathlib.Logic.Function.Basic

/-!
# Lists threaded through the cells they list

A free list needs no room of its own: each free cell holds the name of the next. What is
kept besides is the first name and the number of cells; `follow` reads the list back. A
list is sound if it names no cell twice and only cells there are. Taking the first cell
and putting a cell in front keep a list sound, and so does any write to a cell that is not
in it.
-/

namespace BstGenerator.Memory

universe u

variable {α : Type u} {next next' : α → α} {n : Nat} {i j : α}

/-- The `n` names on from `i`. -/
def follow (next : α → α) : Nat → α → List α
  | 0, _ => []
  | n + 1, i => i :: follow next n (next i)

@[simp] theorem follow_zero : follow next 0 i = [] := rfl

@[simp] theorem follow_succ : follow next (n + 1) i = i :: follow next n (next i) := rfl

/-- The names can be read on and on, whatever they are. -/
@[simp] theorem length_follow : (follow next n i).length = n := by
  induction n generalizing i with
  | zero => rfl
  | succ n ih => rw [follow_succ, List.length_cons, ih]

/-- A list depends on its own cells only. -/
theorem follow_congr (h : ∀ j ∈ follow next n i, next' j = next j) :
    follow next' n i = follow next n i := by
  induction n generalizing i with
  | zero => rfl
  | succ n ih =>
    have hi : next' i = next i := h i (List.mem_cons_self ..)
    rw [follow_succ, follow_succ, hi]
    congr 1
    exact ih fun j hj => h j (List.mem_cons_of_mem i hj)

/-- A cell that is not in the list is put in front of it. -/
theorem follow_push [DecidableEq α] (h : j ∉ follow next n i) :
    follow (Function.update next j i) (n + 1) j = j :: follow next n i := by
  rw [follow_succ, Function.update_self]
  congr 1
  refine follow_congr fun k hk => Function.update_of_ne ?_ ..
  rintro rfl
  exact h hk

/-- No cell is named twice, and each is one there is. -/
structure SoundList (cells : α → Prop) (l : List α) : Prop where
  nodup : l.Nodup
  mem : ∀ i ∈ l, cells i

namespace SoundList

variable {cells : α → Prop} {l : List α}

/-- A new head has to be none of the others. -/
theorem push (h : SoundList cells l) (hi : cells i) (hnot : i ∉ l) : SoundList cells (i :: l) :=
  ⟨List.nodup_cons.mpr ⟨hnot, h.nodup⟩, List.forall_mem_cons.mpr ⟨hi, h.mem⟩⟩

theorem pop (h : SoundList cells (i :: l)) : cells i ∧ i ∉ l ∧ SoundList cells l :=
  ⟨h.mem i (List.mem_cons_self ..), (List.nodup_cons.mp h.nodup).1,
    (List.nodup_cons.mp h.nodup).2, (List.forall_mem_cons.mp h.mem).2⟩

/-- A list of cells that are numbered below `n` has at most `n` of them. -/
theorem length_le {number : α → Nat} (hinj : Function.Injective number)
    (h : SoundList (number · < n) l) : l.length ≤ n := by
  have hsub : l.map number ⊆ List.range n := by
    intro k hk
    obtain ⟨i, hi, rfl⟩ := List.mem_map.mp hk
    exact List.mem_range.mpr (h.mem i hi)
  simpa using (List.subperm_of_subset (h.nodup.map hinj) hsub).length_le

/-- It has `n` only if it lists every one of them. -/
theorem mem_of_length {number : α → Nat} (hinj : Function.Injective number)
    (h : SoundList (number · < n) l) (hl : l.length = n) (hi : number i < n) : i ∈ l := by
  by_contra hnot
  have := (h.push hi hnot).length_le hinj
  rw [List.length_cons, hl] at this
  exact absurd this (Nat.not_succ_le_self n)

end SoundList

end BstGenerator.Memory
