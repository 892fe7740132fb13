import Mathlib.Logic.Function.Basic

/-!
# Who owns what

A table assigns to each slot the resource it owns, if any. Three operations change
it: a slot is given a resource, a slot drops what it owns, and one slot takes over
what another owns, dropping what it owned itself.

Two properties matter. A table is `Exclusive` if no resource has two owners: every
operation keeps it so, if the resource given is new. A resource is `Owned` if it has
an owner: dropping and taking over are what may lose one, and `owned_drop` and
`owned_take` say which.
-/

namespace BstGenerator.Memory

universe u v

variable {I : Type u} {R : Type v}

/-- No resource has two owners. -/
def Exclusive (g : I → Option R) : Prop := ∀ i j r, g i = some r → g j = some r → i = j

/-- The resource has an owner. -/
def Owned (g : I → Option R) (r : R) : Prop := ∃ i, g i = some r

variable [DecidableEq I]

/-- The slot `i` is given the resource `r`. -/
def give (g : I → Option R) (i : I) (r : R) : I → Option R := Function.update g i (some r)

/-- The slot `i` drops what it owns. -/
def drop (g : I → Option R) (i : I) : I → Option R := Function.update g i none

/-- The slot `i` takes over what `j` owns. -/
def take (g : I → Option R) (i j : I) : I → Option R :=
  Function.update (Function.update g i (g j)) j none

theorem give_apply (g : I → Option R) (i : I) (r : R) (k : I) :
    give g i r k = if k = i then some r else g k :=
  Function.update_apply ..

theorem drop_apply (g : I → Option R) (i k : I) :
    drop g i k = if k = i then none else g k :=
  Function.update_apply ..

theorem take_apply (g : I → Option R) (i j k : I) :
    take g i j k = if k = j then none else if k = i then g j else g k := by
  rw [take, Function.update_apply, Function.update_apply]

variable {g : I → Option R}

/-! ## Exclusive ownership -/

/-- A resource that has no owner can be given to anybody. -/
theorem exclusive_give (h : Exclusive g) (i : I) {r : R} (hr : ¬ Owned g r) :
    Exclusive (give g i r) := by
  intro a b s ha hb
  rw [give_apply] at ha hb
  by_cases hai : a = i
  · by_cases hbi : b = i
    · rw [hai, hbi]
    · rw [if_pos hai] at ha
      rw [if_neg hbi] at hb
      exact absurd ⟨b, hb.trans ha.symm⟩ hr
  · by_cases hbi : b = i
    · rw [if_neg hai] at ha
      rw [if_pos hbi] at hb
      exact absurd ⟨a, ha.trans hb.symm⟩ hr
    · rw [if_neg hai] at ha
      rw [if_neg hbi] at hb
      exact h a b s ha hb

/-- To drop a resource makes no other one shared. -/
theorem exclusive_drop (h : Exclusive g) (i : I) : Exclusive (drop g i) := by
  intro a b s ha hb
  rw [drop_apply] at ha hb
  by_cases hai : a = i
  · rw [if_pos hai] at ha
    cases ha
  · by_cases hbi : b = i
    · rw [if_pos hbi] at hb
      cases hb
    · rw [if_neg hai] at ha
      rw [if_neg hbi] at hb
      exact h a b s ha hb

/-- The owner after taking over was the owner before, or is the slot that took over from
it. -/
theorem take_some {i j k : I} {s : R} (hk : take g i j k = some s) :
    k ≠ j ∧ ((k = i ∧ g j = some s) ∨ (k ≠ i ∧ g k = some s)) := by
  rw [take_apply] at hk
  by_cases hkj : k = j
  · rw [if_pos hkj] at hk
    cases hk
  · rw [if_neg hkj] at hk
    by_cases hki : k = i
    · rw [if_pos hki] at hk
      exact ⟨hkj, Or.inl ⟨hki, hk⟩⟩
    · rw [if_neg hki] at hk
      exact ⟨hkj, Or.inr ⟨hki, hk⟩⟩

/-- What is taken over has one owner still, the new one. -/
theorem exclusive_take (h : Exclusive g) (i j : I) : Exclusive (take g i j) := by
  intro a b s ha hb
  obtain ⟨haj, ha⟩ := take_some ha
  obtain ⟨hbj, hb⟩ := take_some hb
  rcases ha with ⟨rfl, hja⟩ | ⟨hai, hga⟩
  · rcases hb with ⟨rfl, -⟩ | ⟨-, hgb⟩
    · rfl
    · exact absurd (h b j s hgb hja) hbj
  · rcases hb with ⟨rfl, hjb⟩ | ⟨-, hgb⟩
    · exact absurd (h a j s hga hjb) haj
    · exact h a b s hga hgb

/-! ## What has an owner -/

theorem owned_give {i : I} (hi : g i = none) {r s : R} :
    Owned (give g i r) s ↔ s = r ∨ Owned g s := by
  constructor
  · rintro ⟨k, hk⟩
    rw [give_apply] at hk
    by_cases hki : k = i
    · rw [if_pos hki] at hk
      exact Or.inl (Option.some.inj hk).symm
    · rw [if_neg hki] at hk
      exact Or.inr ⟨k, hk⟩
  · rintro (rfl | ⟨k, hk⟩)
    · exact ⟨i, by rw [give_apply, if_pos rfl]⟩
    · have hki : k ≠ i := by
        rintro rfl
        rw [hi] at hk
        cases hk
      exact ⟨k, by rw [give_apply, if_neg hki, hk]⟩

/-- Dropping loses what the slot owned and nothing else. -/
theorem owned_drop (h : Exclusive g) {i : I} {s : R} :
    Owned (drop g i) s ↔ Owned g s ∧ g i ≠ some s := by
  constructor
  · rintro ⟨k, hk⟩
    rw [drop_apply] at hk
    by_cases hki : k = i
    · rw [if_pos hki] at hk
      cases hk
    · rw [if_neg hki] at hk
      exact ⟨⟨k, hk⟩, fun hi => hki (h k i s hk hi)⟩
  · rintro ⟨⟨k, hk⟩, hi⟩
    have hki : k ≠ i := by
      rintro rfl
      exact hi hk
    exact ⟨k, by rw [drop_apply, if_neg hki, hk]⟩

/-- Taking over finds no new resource. -/
theorem owned_of_owned_take {i j : I} {s : R} (h : Owned (take g i j) s) : Owned g s := by
  obtain ⟨k, hk⟩ := h
  obtain ⟨-, ⟨-, hj⟩ | ⟨-, hk⟩⟩ := take_some hk
  · exact ⟨j, hj⟩
  · exact ⟨k, hk⟩

/-- Taking over loses what the slot that takes over owned, and nothing else. -/
theorem owned_take (h : Exclusive g) {i j : I} (hij : i ≠ j) {s : R} :
    Owned (take g i j) s ↔ Owned g s ∧ g i ≠ some s := by
  constructor
  · rintro ⟨k, hk⟩
    obtain ⟨-, ⟨-, hj⟩ | ⟨hki, hk⟩⟩ := take_some hk
    · exact ⟨⟨j, hj⟩, fun hi => hij (h i j s hi hj)⟩
    · exact ⟨⟨k, hk⟩, fun hi => hki (h k i s hk hi)⟩
  · rintro ⟨⟨k, hk⟩, hi⟩
    have hki : k ≠ i := by
      rintro rfl
      exact hi hk
    by_cases hkj : k = j
    · subst hkj
      exact ⟨i, by rw [take_apply, if_neg hij, if_pos rfl, hk]⟩
    · exact ⟨k, by rw [take_apply, if_neg hkj, if_neg hki, hk]⟩

end BstGenerator.Memory
