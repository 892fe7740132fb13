import BstGenerator.Singleton.Model

/-!
# What a singleton is

`History` says of the events of a program what is to be expected of a singleton, whatever its
policies are: there is one object at a time, and it is that object that `Instance` refers to
and that is destroyed. So no object is created or destroyed twice
(`History.count_created`, `History.count_destroyed`).
-/

namespace BstGenerator.Singleton

def Event.isDestruction : Event → Bool
  | .destroyed _ => true
  | _ => false

theorem Event.ne_destroyed {e : Event} (he : e.isDestruction = false) (n : Nat) :
    e ≠ .destroyed n := by
  rintro rfl
  cases he

/-- After these events the object is `p`, and `n` objects have been created. -/
inductive History : List Event → Option Nat → Nat → Prop
  | init : History [] none 0
  | created {l : List Event} {n : Nat} (h : History l none n) :
      History (l ++ [.created n]) (some n) (n + 1)
  | destroyed {l : List Event} {k n : Nat} (h : History l (some k) n) :
      History (l ++ [.destroyed k]) none n
  | returned {l : List Event} {k n : Nat} (h : History l (some k) n) :
      History (l ++ [.returned k]) (some k) n
  | raised {l : List Event} {n : Nat} (e : Exception) (h : History l none n) :
      History (l ++ [.raised e]) none n

namespace History

variable {l : List Event} {p : Option Nat} {k n : Nat}

theorem lt (h : History l p n) (hp : p = some k) : k < n := by
  induction h with
  | init => cases hp
  | created _ _ =>
    cases hp
    exact Nat.lt_succ_self _
  | destroyed _ _ => cases hp
  | returned _ ih => exact ih hp
  | raised _ _ _ => cases hp

/-- Each object was created once. -/
theorem count_created (h : History l p n) (k : Nat) :
    l.count (.created k) = if k < n then 1 else 0 := by
  induction h with
  | init => rfl
  | @created l n _ ih =>
    rw [List.count_append, ih]
    by_cases hk : n = k
    · subst hk
      simp
    · have hne : ¬ Event.created n = Event.created k := fun heq => hk (Event.created.inj heq)
      have hlt : k < n + 1 ↔ k < n := by omega
      simp [hne, hlt]
  | destroyed _ ih => simpa [List.count_append] using ih
  | returned _ ih => simpa [List.count_append] using ih
  | raised _ _ ih => simpa [List.count_append] using ih

/-- Each object was destroyed once, but for the one there is, which was not. -/
theorem count_destroyed (h : History l p n) (k : Nat) :
    l.count (.destroyed k) = if k < n ∧ p ≠ some k then 1 else 0 := by
  induction h with
  | init => rfl
  | @created l n h ih =>
    have hiff : (k < n + 1 ∧ some n ≠ some k) ↔ k < n ∧ (none : Option Nat) ≠ some k := by
      simp only [ne_eq, Option.some.injEq, reduceCtorEq, not_false_eq_true, and_true]
      omega
    simp only [List.count_append, ih, hiff]
    simp
  | @destroyed l j n h ih =>
    have hj := h.lt rfl
    rw [List.count_append, ih]
    by_cases hk : j = k
    · subst hk
      simp [hj]
    · have hne : ¬ Event.destroyed j = Event.destroyed k := fun heq => hk (Event.destroyed.inj heq)
      simp [hne, hk]
  | returned _ ih => simpa [List.count_append] using ih
  | raised _ _ ih => simpa [List.count_append] using ih

/-- There is no object when the last thing that happened is that it was destroyed. -/
theorem eq_none (h : History l p n) (hlast : l.getLast? = some (.destroyed k)) : p = none := by
  cases h with
  | init => rfl
  | created _ => simp at hlast
  | destroyed _ => rfl
  | returned _ => simp at hlast
  | raised _ _ => rfl

end History

end BstGenerator.Singleton
