import Mathlib.Data.List.Basic

/-!
# Runs of a fallible machine

A program is a list of commands for a machine whose steps may fault; a fault ends
the run. What holds initially and is preserved by every step that succeeds holds
in every state a run reaches (`run_invariant`), and a run that faults does so at
one of its steps, from a state reached before it (`run_error`). Where a command is to
be used in some states only, `Along` says that a run keeps to it.
-/

namespace BstGenerator.Machine

universe u v w

/-! ## Executing `Except` programs -/

section Bind

variable {F : Type u} {α β : Type v}

@[simp] theorem ok_bind (a : α) (f : α → Except F β) : (Except.ok a >>= f) = f a := rfl

@[simp] theorem error_bind (e : F) (f : α → Except F β) :
    (Except.error e >>= f) = .error e := rfl

@[simp] theorem pure_eq_ok (a : α) : (pure a : Except F α) = .ok a := rfl

/-- A sequence that ends went through both its parts. -/
theorem bind_eq_ok {x : Except F α} {f : α → Except F β} {b : β} :
    (x >>= f) = .ok b ↔ ∃ a, x = .ok a ∧ f a = .ok b := by
  constructor
  · intro h
    cases x with
    | error e => cases h
    | ok a => exact ⟨a, rfl, h⟩
  · rintro ⟨a, rfl, h⟩
    exact h

/-- If the program ends, what it returns satisfies `P`. -/
def Ensures (x : Except F α) (P : α → Prop) : Prop := ∀ a, x = .ok a → P a

theorem Ensures.pure {a : α} {P : α → Prop} (h : P a) : Ensures (pure a : Except F α) P := by
  intro b hb
  cases hb
  exact h

/-- What the first part ensures may be used for the second. -/
theorem Ensures.bind {x : Except F α} {f : α → Except F β} {P : α → Prop} {Q : β → Prop}
    (hx : Ensures x P) (hf : ∀ a, P a → Ensures (f a) Q) : Ensures (x >>= f) Q := by
  intro b hb
  obtain ⟨a, ha, hb⟩ := bind_eq_ok.mp hb
  exact hf a (hx a ha) b hb

/-- Sequencing where nothing is to be known of the first part. -/
theorem Ensures.skip {x : Except F α} {f : α → Except F β} {Q : β → Prop}
    (hf : ∀ a, Ensures (f a) Q) : Ensures (x >>= f) Q :=
  Ensures.bind (P := fun _ => True) (fun _ _ => trivial) fun a _ => hf a

theorem Ensures.ite {c : Prop} [Decidable c] {x y : Except F α} {P : α → Prop}
    (hx : Ensures x P) (hy : Ensures y P) : Ensures (if c then x else y) P := by
  by_cases hc : c
  · rwa [if_pos hc]
  · rwa [if_neg hc]

end Bind

/-! ## Runs -/

variable {C : Type u} {S : Type v} {F : Type w} (step : C → S → Except F S)

/-- Execute the commands one after another. -/
def run : List C → S → Except F S
  | [], s => .ok s
  | c :: cs, s =>
    match step c s with
    | .ok s' => run cs s'
    | .error e => .error e

@[simp] theorem run_nil (s : S) : run step [] s = .ok s := rfl

/-- A run that ends went through its first command. -/
theorem run_cons_ok {c : C} {cs : List C} {s s' : S} :
    run step (c :: cs) s = .ok s' ↔ ∃ t, step c s = .ok t ∧ run step cs t = .ok s' := by
  cases h : step c s <;> simp [run, h]

/-- A run that ends went through all states on the way. -/
theorem run_append_ok {cs ds : List C} {s s' : S} :
    run step (cs ++ ds) s = .ok s' ↔ ∃ t, run step cs s = .ok t ∧ run step ds t = .ok s' := by
  induction cs generalizing s with
  | nil => simp
  | cons c cs ih =>
    simp only [List.cons_append, run_cons_ok, ih]
    constructor
    · rintro ⟨t, ht, u, hu, hd⟩
      exact ⟨u, ⟨t, ht, hu⟩, hd⟩
    · rintro ⟨u, ⟨t, ht, hu⟩, hd⟩
      exact ⟨t, ht, u, hu, hd⟩

theorem run_snoc_ok {cs : List C} {c : C} {s s' : S} :
    run step (cs ++ [c]) s = .ok s' ↔ ∃ t, run step cs s = .ok t ∧ step c t = .ok s' := by
  simp [run_append_ok, run_cons_ok]

variable {step}

/-- **Invariants hold along runs.** -/
theorem run_invariant {Inv : S → Prop}
    (hstep : ∀ c s s', Inv s → step c s = .ok s' → Inv s') {cs : List C} {s s' : S}
    (h : Inv s) (hrun : run step cs s = .ok s') : Inv s' := by
  induction cs generalizing s with
  | nil =>
    cases hrun
    exact h
  | cons c cs ih =>
    obtain ⟨t, hc, hcs⟩ := (run_cons_ok step).mp hrun
    exact ih (hstep c s t h hc) hcs

/-- Each command of the run is allowed where it is executed. -/
def Along (step : C → S → Except F S) (allowed : C → S → Prop) : List C → S → Prop
  | [], _ => True
  | c :: cs, s => allowed c s ∧ ∀ t, step c s = .ok t → Along step allowed cs t

/-- Invariants that only the allowed commands keep. -/
theorem run_invariant_along {Inv : S → Prop} {allowed : C → S → Prop}
    (hstep : ∀ c s s', allowed c s → Inv s → step c s = .ok s' → Inv s') {cs : List C}
    {s s' : S} (h : Inv s) (hal : Along step allowed cs s) (hrun : run step cs s = .ok s') :
    Inv s' := by
  induction cs generalizing s with
  | nil =>
    cases hrun
    exact h
  | cons c cs ih =>
    obtain ⟨t, hc, hcs⟩ := (run_cons_ok step).mp hrun
    exact ih (hstep c s t hal.1 h hc) (hal.2 t hc) hcs

/-- What every step that succeeds says of the two states, if it can be put together, the
run says of its ends. -/
theorem run_relation (R : S → S → Prop) (Inv : S → Prop) (allowed : C → S → Prop)
    (hrefl : ∀ s, R s s) (htrans : ∀ s t u, R s t → R t u → R s u)
    (hstep : ∀ c s s', allowed c s → Inv s → step c s = .ok s' → R s s' ∧ Inv s')
    {cs : List C} {s s' : S} (h : Inv s) (hal : Along step allowed cs s)
    (hrun : run step cs s = .ok s') : R s s' ∧ Inv s' := by
  induction cs generalizing s with
  | nil =>
    cases hrun
    exact ⟨hrefl _, h⟩
  | cons c cs ih =>
    obtain ⟨t, hc, hcs⟩ := (run_cons_ok step).mp hrun
    obtain ⟨hst, ht⟩ := hstep c s t hal.1 h hc
    obtain ⟨htu, hu⟩ := ih ht (hal.2 t hc) hcs
    exact ⟨htrans s t s' hst htu, hu⟩

/-- Where every allowed command succeeds, a run of them does. -/
theorem run_total {Inv : S → Prop} {allowed : C → S → Prop}
    (hstep : ∀ c s, allowed c s → Inv s → ∃ s', step c s = .ok s' ∧ Inv s') {cs : List C} {s : S}
    (h : Inv s) (hal : Along step allowed cs s) : ∃ s', run step cs s = .ok s' ∧ Inv s' := by
  induction cs generalizing s with
  | nil => exact ⟨s, rfl, h⟩
  | cons c cs ih =>
    obtain ⟨t, hc, ht⟩ := hstep c s hal.1 h
    obtain ⟨s', hcs, hs'⟩ := ih ht (hal.2 t hc)
    exact ⟨s', (run_cons_ok step).mpr ⟨t, hc, hcs⟩, hs'⟩

/-- Machines that agree where an invariant holds have the same runs. -/
theorem run_congr {step' : C → S → Except F S} {Inv : S → Prop}
    (heq : ∀ c s, Inv s → step' c s = step c s)
    (hstep : ∀ c s s', Inv s → step c s = .ok s' → Inv s') {s : S} (h : Inv s) (cs : List C) :
    run step' cs s = run step cs s := by
  induction cs generalizing s with
  | nil => rfl
  | cons c cs ih =>
    simp only [run, heq c s h]
    cases hc : step c s with
    | error e => rfl
    | ok t => exact ih (hstep c s t h hc)

theorem Along.nil {allowed : C → S → Prop} {s : S} : Along step allowed [] s := trivial

/-- It is enough to look at the one state a step leads to. -/
theorem Along.cons {allowed : C → S → Prop} {c : C} {cs : List C} {s t : S}
    (hc : allowed c s) (hstep : step c s = .ok t) (h : Along step allowed cs t) :
    Along step allowed (c :: cs) s := by
  refine ⟨hc, fun u hu => ?_⟩
  obtain rfl : t = u := Except.ok.inj (hstep.symm.trans hu)
  exact h

/-- Commands that are allowed in every state are allowed along every run. -/
theorem Along.of_forall {allowed : C → S → Prop} {cs : List C} (s : S)
    (h : ∀ c ∈ cs, ∀ s, allowed c s) : Along step allowed cs s := by
  induction cs generalizing s with
  | nil => trivial
  | cons c cs ih =>
    exact ⟨h c (List.mem_cons_self ..) s,
      fun t _ => ih t fun d hd => h d (List.mem_cons_of_mem c hd)⟩

/-- Whether a run keeps to what is allowed can be computed. -/
instance Along.decidable {allowed : C → S → Prop} [∀ c s, Decidable (allowed c s)] :
    ∀ cs s, Decidable (Along step allowed cs s)
  | [], _ => isTrue trivial
  | c :: cs, s =>
    match h : step c s with
    | .error _ => decidable_of_iff (allowed c s)
        ⟨fun hc => ⟨hc, fun _ ht => absurd (h.symm.trans ht) nofun⟩, And.left⟩
    | .ok t =>
      have : Decidable (Along step allowed cs t) := Along.decidable cs t
      decidable_of_iff (allowed c s ∧ Along step allowed cs t)
        ⟨fun hc => Along.cons hc.1 h hc.2, fun hc => ⟨hc.1, hc.2 t h⟩⟩

/-- A faulting run faults at a step out of a state it reached. -/
theorem run_error {cs : List C} {s : S} {e : F} (hrun : run step cs s = .error e) :
    ∃ pre c post t, cs = pre ++ c :: post ∧ run step pre s = .ok t ∧ step c t = .error e := by
  induction cs generalizing s with
  | nil => cases hrun
  | cons c cs ih =>
    cases hc : step c s with
    | error e' =>
      simp only [run, hc] at hrun
      cases hrun
      exact ⟨[], c, cs, s, rfl, rfl, hc⟩
    | ok t =>
      simp only [run, hc] at hrun
      obtain ⟨pre, d, post, t', rfl, hpre, hd⟩ := ih hrun
      exact ⟨c :: pre, d, post, t', rfl, (run_cons_ok step).mpr ⟨t, hc, hpre⟩, hd⟩

end BstGenerator.Machine
