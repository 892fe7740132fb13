import BstGenerator.Singleton.History

/-!
# Programs with a singleton

`Inv` is what every state of a program keeps: its events are those of a singleton, and what is
scheduled for the end of the program is what the policy is for (`Scheduled`).
-/

namespace BstGenerator.Singleton

open Machine

variable {l : Lifetime} {fixed : Bool} {s t : State} {c : Creation} {n : Nat}

/-- The last thing that happened is that the object was destroyed. -/
def State.JustDestroyed (s : State) : Prop := ∃ n, s.log.getLast? = some (.destroyed n)

/-- `DestroySingleton` is scheduled just if there is an object. -/
def State.pending (s : State) : List Handler :=
  if s.pInstance = none then [] else [.DestroySingleton]

/-- What `DeletableSingleton` keeps of its members. -/
structure Deletable (fixed : Bool) (s : State) : Prop where
  isDead : s.isDead = true ↔ s.pInstance = none
  deleter : s.isDead = false → s.deleter = true
  handlers : s.handlers = [] ∨ s.handlers = [.atexitCallback]
  needCallback : s.needCallback = true → s.pInstance = none ∧ s.handlers = []
  firstPass : s.firstPass = true → s.needCallback = true
  renewed : fixed = true → s.handlers = [] → s.needCallback = true
  once : fixed = false → s.needCallback = true → s.firstPass = true

/-- What is scheduled for the end of the program. -/
def Scheduled : Lifetime → Bool → State → Prop
  | .DefaultLifetime, _, s => s.isDead = true ∧ s.handlers = s.pending
  | .PhoenixSingleton, true, s => s.isDead = true ∧ s.handlers = s.pending
  | .PhoenixSingleton, false, s =>
    s.isDead = true ∧ s.handlers = [] ∧ s.destroyedOnce = false ∧ s.destroyed = false
  | .DeletableSingleton, fixed, s => Deletable fixed s
  | .NoDestroy, _, s => s.isDead = true ∧ s.handlers = []

structure Inv (l : Lifetime) (fixed : Bool) (s : State) : Prop where
  history : History s.log s.pInstance s.created
  destroyed : s.destroyed = true ↔ s.JustDestroyed
  scheduled : Scheduled l fixed s

theorem Inv.init (l : Lifetime) (fixed : Bool) : Inv l fixed .init := by
  refine ⟨.init, by simp [State.JustDestroyed, State.init], ?_⟩
  cases l with
  | DefaultLifetime => exact ⟨rfl, rfl⟩
  | PhoenixSingleton =>
    cases fixed with
    | true => exact ⟨rfl, rfl⟩
    | false => exact ⟨rfl, rfl, rfl, rfl⟩
  | DeletableSingleton =>
    exact ⟨by decide, by decide, Or.inl rfl, fun _ => ⟨rfl, rfl⟩, fun _ => rfl, fun _ _ => rfl,
      fun _ _ => rfl⟩
  | NoDestroy => exact ⟨rfl, rfl⟩

/-! ## `Instance` -/

/-- What is scheduled does not depend on the events. -/
theorem Scheduled.log (h : Scheduled l fixed s) (es : List Event) :
    Scheduled l fixed { s with log := es } := by
  cases l with
  | DefaultLifetime => exact h
  | PhoenixSingleton => cases fixed <;> exact h
  | DeletableSingleton =>
    exact ⟨h.isDead, h.deleter, h.handlers, h.needCallback, h.firstPass, h.renewed, h.once⟩
  | NoDestroy => exact h

theorem Scheduled.reset (h : Scheduled l fixed s) :
    Scheduled l fixed { s with destroyed := false } := by
  cases l with
  | DefaultLifetime => exact h
  | PhoenixSingleton =>
    cases fixed with
    | true => exact h
    | false => exact ⟨h.1, h.2.1, h.2.2.1, rfl⟩
  | DeletableSingleton =>
    exact ⟨h.isDead, h.deleter, h.handlers, h.needCallback, h.firstPass, h.renewed, h.once⟩
  | NoDestroy => exact h

/-- A new object is scheduled for destruction as the policy has it. -/
theorem Scheduled.schedule (h : Scheduled l fixed s) (hnone : s.pInstance = none) (n k : Nat)
    (es : List Event) :
    Scheduled l fixed (scheduleDestruction l fixed
      { s with pInstance := some n, created := k, log := es }) := by
  cases l with
  | DefaultLifetime =>
    refine ⟨h.1, congrArg (Handler.DestroySingleton :: ·) ?_⟩
    exact h.2.trans (if_pos hnone)
  | PhoenixSingleton =>
    cases fixed with
    | true =>
      refine ⟨h.1, congrArg (Handler.DestroySingleton :: ·) ?_⟩
      exact h.2.trans (if_pos hnone)
    | false =>
      have honce : ¬ (false = true ∨ s.destroyedOnce = true) := by simp [h.2.2.1]
      simp only [scheduleDestruction, PhoenixSingleton.scheduleDestruction, if_neg honce]
      exact h
  | DeletableSingleton =>
    simp only [scheduleDestruction, DeletableSingleton.scheduleDestruction]
    by_cases hpass : s.firstPass = true ∨ s.needCallback = true
    · have hneed : s.needCallback = true := hpass.elim h.firstPass id
      rw [if_pos hpass]
      exact ⟨by simp [atexit], fun _ => rfl, Or.inr (by simp [atexit, (h.needCallback hneed).2]),
        nofun, nofun, nofun, nofun⟩
    · rw [if_neg hpass]
      rw [not_or, Bool.not_eq_true, Bool.not_eq_true] at hpass
      refine ⟨by simp, fun _ => rfl, h.handlers, ?_, ?_, h.renewed, h.once⟩
      · intro hneed
        rw [hpass.2] at hneed
        cases hneed
      · intro hfirst
        rw [hpass.1] at hfirst
        cases hfirst
  | NoDestroy => exact h

/-- Only `DefaultLifetime` throws where the object has been destroyed, and that once. -/
theorem Inv.checkDestroyed (h : Inv l fixed s) :
    checkDestroyed l fixed s =
      (if l = .DefaultLifetime ∧ s.destroyed = true then
        some (.logicError "Dead Reference Detected") else none, { s with destroyed := false }) := by
  unfold Singleton.checkDestroyed
  cases hd : s.destroyed with
  | false =>
    have hs : ({ s with destroyed := false } : State) = s := by rw [← hd]
    simp [hs]
  | true =>
    cases l with
    | PhoenixSingleton =>
      cases fixed with
      | true => rfl
      | false =>
        have := h.scheduled.2.2.2
        rw [hd] at this
        cases this
    | _ => rfl

/-- A policy has no say in the members of the holder. -/
theorem scheduleDestruction_holder (l : Lifetime) (fixed : Bool) (s : State) :
    (scheduleDestruction l fixed s).pInstance = s.pInstance ∧
      (scheduleDestruction l fixed s).destroyed = s.destroyed ∧
      (scheduleDestruction l fixed s).created = s.created ∧
      (scheduleDestruction l fixed s).log = s.log := by
  cases l with
  | DefaultLifetime => exact ⟨rfl, rfl, rfl, rfl⟩
  | PhoenixSingleton =>
    simp only [scheduleDestruction, PhoenixSingleton.scheduleDestruction]
    split <;> exact ⟨rfl, rfl, rfl, rfl⟩
  | DeletableSingleton =>
    simp only [scheduleDestruction, DeletableSingleton.scheduleDestruction]
    split <;> exact ⟨rfl, rfl, rfl, rfl⟩
  | NoDestroy => exact ⟨rfl, rfl, rfl, rfl⟩

/-- An event that is no destruction is the last one. -/
theorem not_justDestroyed (es : List Event) {e : Event} (he : e.isDestruction = false)
    (ht : t.log = es ++ [e]) : ¬ t.JustDestroyed := by
  rintro ⟨n, hn⟩
  rw [ht, List.getLast?_concat] at hn
  exact Event.ne_destroyed he n (Option.some.inj hn)

theorem Inv.not_destroyed (h : Inv l fixed s) (hp : s.pInstance = some n) :
    s.destroyed = false := by
  rw [← Bool.not_eq_true, h.destroyed]
  rintro ⟨k, hk⟩
  have hnone := h.history.eq_none hk
  rw [hp] at hnone
  cases hnone

/-- The object there is. -/
theorem Inv.instance_some (h : Inv l fixed s) (hp : s.pInstance = some n) (c : Creation) :
    Instance l fixed c s = .ok { s with log := s.log ++ [.returned n] } ∧
      Inv l fixed { s with log := s.log ++ [.returned n] } := by
  refine ⟨by simp [Instance, reference, hp], ?_, ?_, h.scheduled.log _⟩
  · have hhist := h.history
    rw [hp] at hhist
    simpa [hp] using hhist.returned
  · refine iff_of_false (by simp [h.not_destroyed hp]) ?_
    exact not_justDestroyed s.log (e := .returned n) rfl rfl

/-- There is no object, and an exception is thrown. -/
theorem Inv.raised (h : Inv l fixed s) (hp : s.pInstance = none) (e : Exception) :
    Inv l fixed { s with destroyed := false, log := s.log ++ [.raised e] } := by
  refine ⟨?_, ?_, h.scheduled.reset.log _⟩
  · have hhist := h.history
    rw [hp] at hhist
    simpa [hp] using hhist.raised e
  · exact iff_of_false Bool.false_ne_true (not_justDestroyed s.log (e := .raised e) rfl rfl)

/-- The exception of `OnDeadReference`. -/
theorem Inv.instance_dead (h : Inv l fixed s) (hp : s.pInstance = none)
    (hl : l = .DefaultLifetime) (hd : s.destroyed = true) (c : Creation) :
    Instance l fixed c s = .ok { s with
      destroyed := false
      log := s.log ++ [.raised (.logicError "Dead Reference Detected")] } := by
  simp only [Instance, makeInstance, if_pos hp, h.checkDestroyed, if_pos (And.intro hl hd)]

/-- The exception of `Create`. -/
theorem Inv.instance_throws (h : Inv l fixed s) (hp : s.pInstance = none)
    (hd : ¬ (l = .DefaultLifetime ∧ s.destroyed = true)) :
    Instance l fixed .throws s =
      .ok { s with destroyed := false, log := s.log ++ [.raised .create] } := by
  simp only [Instance, makeInstance, if_pos hp, h.checkDestroyed, if_neg hd, create]

/-- A new object. -/
theorem Inv.instance_object (h : Inv l fixed s) (hp : s.pInstance = none)
    (hd : ¬ (l = .DefaultLifetime ∧ s.destroyed = true)) :
    ∃ t, Instance l fixed .object s = .ok t ∧ Inv l fixed t ∧ t.pInstance = some s.created ∧
      t.log = s.log ++ [.created s.created, .returned s.created] := by
  let new : State := { s with
    pInstance := some s.created
    destroyed := false
    created := s.created + 1
    log := s.log ++ [.created s.created] }
  obtain ⟨hinst, hdest, hcreated, hlog⟩ := scheduleDestruction_holder l fixed new
  have hsched : Scheduled l fixed (scheduleDestruction l fixed new) :=
    h.scheduled.reset.schedule hp _ _ _
  refine ⟨{ scheduleDestruction l fixed new with
    log := (scheduleDestruction l fixed new).log ++ [.returned s.created] }, ?_,
    ⟨?_, ?_, hsched.log _⟩, hinst, ?_⟩
  · have hrun : makeInstance l fixed .object s = (none, scheduleDestruction l fixed new) := by
      simp only [makeInstance, if_pos hp, h.checkDestroyed, if_neg hd, create]
      rfl
    simp only [Instance, if_pos hp, hrun, reference, hinst]
    rfl
  · have hhist := h.history
    rw [hp] at hhist
    show History ((scheduleDestruction l fixed new).log ++ [.returned s.created])
      (scheduleDestruction l fixed new).pInstance (scheduleDestruction l fixed new).created
    rw [hinst, hcreated, hlog]
    exact hhist.created.returned
  · refine iff_of_false (by simp [hdest, new]) ?_
    exact not_justDestroyed _ (e := .returned s.created) rfl rfl
  · simp [hlog, new]

/-- `Instance` fails at nothing but a null pointer from `Create`. -/
theorem Inv.instance_ok (h : Inv l fixed s) (hc : c ≠ .null) :
    ∃ t, Instance l fixed c s = .ok t ∧ Inv l fixed t := by
  cases hp : s.pInstance with
  | some n =>
    obtain ⟨hrun, hinv⟩ := h.instance_some hp c
    exact ⟨_, hrun, hinv⟩
  | none =>
    by_cases hd : l = .DefaultLifetime ∧ s.destroyed = true
    · exact ⟨_, h.instance_dead hp hd.1 hd.2 c, h.raised hp _⟩
    · cases c with
      | object =>
        obtain ⟨t, hrun, hinv, -⟩ := h.instance_object hp hd
        exact ⟨t, hrun, hinv⟩
      | null => exact absurd rfl hc
      | throws => exact ⟨_, h.instance_throws hp hd, h.raised hp _⟩

/-! ## Destruction -/

/-- The state once object `n` has been destroyed. -/
def State.without (n : Nat) (s : State) : State :=
  { s with pInstance := none, destroyed := true, log := s.log ++ [.destroyed n] }

/-- Where there is an object it can be destroyed. -/
theorem destroySingleton_eq (hp : s.pInstance = some n) (hd : s.destroyed = false) :
    DestroySingleton s = .ok (s.without n) := by
  simp [DestroySingleton, assert, destroy, hp, hd, State.without]

/-- What is so once the object is destroyed, if what is scheduled is as it should be. -/
theorem Inv.destroyed_inv (h : Inv l fixed s) (hp : s.pInstance = some n)
    (ht : t.log = s.log ++ [.destroyed n]) (hinst : t.pInstance = none)
    (hcreated : t.created = s.created) (hdest : t.destroyed = true)
    (hsched : Scheduled l fixed t) : Inv l fixed t := by
  have hhist := h.history
  rw [hp] at hhist
  refine ⟨?_, iff_of_true hdest ⟨n, ?_⟩, hsched⟩
  · rw [ht, hinst, hcreated]
    exact hhist.destroyed
  · rw [ht, List.getLast?_concat]

theorem gracefulDelete_eq (hd : s.isDead = false) (hdeleter : s.deleter = true) :
    DeletableSingleton.gracefulDelete s = DestroySingleton { s with isDead := true } := by
  unfold DeletableSingleton.gracefulDelete
  rw [if_neg (by simp [hd]), if_pos hdeleter]

theorem Inv.gracefulDelete (h : Inv l fixed s) :
    ∃ t, DeletableSingleton.gracefulDelete s = .ok t ∧ Inv l fixed t ∧ t.handlers = s.handlers := by
  cases hd : s.isDead with
  | true => exact ⟨s, by simp [DeletableSingleton.gracefulDelete, hd], h, rfl⟩
  | false =>
    cases l with
    | DeletableSingleton =>
      have hsched : Deletable fixed s := h.scheduled
      cases hp : s.pInstance with
      | none =>
        rw [hsched.isDead.mpr hp] at hd
        cases hd
      | some n =>
        have hrun := destroySingleton_eq (s := { s with isDead := true }) hp (h.not_destroyed hp)
        refine ⟨State.without n { s with isDead := true },
          (gracefulDelete_eq hd (hsched.deleter hd)).trans hrun,
          h.destroyed_inv hp rfl rfl rfl rfl ?_, rfl⟩
        exact ⟨iff_of_true rfl rfl, nofun, hsched.handlers,
          fun hneed => ⟨rfl, (hsched.needCallback hneed).2⟩, hsched.firstPass, hsched.renewed,
          hsched.once⟩
    | PhoenixSingleton =>
      have hdead : s.isDead = true := by
        cases fixed with
        | true => exact h.scheduled.1
        | false => exact h.scheduled.1
      rw [hd] at hdead
      cases hdead
    | _ =>
      have hdead : s.isDead = true := h.scheduled.1
      rw [hd] at hdead
      cases hdead

/-- `DestroySingleton` is called at the end of the program, if there is an object. -/
theorem Inv.exit_pending (h : Inv l fixed s) (hpending : s.handlers = s.pending)
    (hsched : ∀ t : State, t.isDead = s.isDead → t.handlers = t.pending → Scheduled l fixed t) :
    ∃ t, step l fixed .exit s = .ok t ∧ Inv l fixed t ∧ t.handlers = [] := by
  cases hp : s.pInstance with
  | none =>
    have hnil : s.handlers = [] := hpending.trans (if_pos hp)
    exact ⟨s, by simp [step, hnil], h, hnil⟩
  | some n =>
    have hcons : s.handlers = [.DestroySingleton] := by
      rw [hpending, State.pending, hp]
      rfl
    have hrun := destroySingleton_eq (s := { s with handlers := [] }) hp (h.not_destroyed hp)
    refine ⟨State.without n { s with handlers := [] }, ?_,
      h.destroyed_inv hp rfl rfl rfl rfl (hsched _ rfl rfl), rfl⟩
    simp only [step, hcons, call]
    exact hrun

/-- `atexitCallback` is called at the end of the program, if there has been an object. -/
theorem Inv.exit_deletable (h : Inv .DeletableSingleton fixed s) :
    ∃ t, step .DeletableSingleton fixed .exit s = .ok t ∧ Inv .DeletableSingleton fixed t ∧
      t.handlers = [] := by
  have hsched : Deletable fixed s := h.scheduled
  rcases hsched.handlers with hnil | hcons
  · exact ⟨s, by simp [step, hnil], h, hnil⟩
  · have hneed : s.needCallback = false := by
      rw [← Bool.not_eq_true]
      intro hneed
      rw [(hsched.needCallback hneed).2] at hcons
      cases hcons
    have hfirst : s.firstPass = false := by
      rw [← Bool.not_eq_true]
      intro hfirst
      rw [hsched.firstPass hfirst] at hneed
      cases hneed
    -- the callback is scheduled again if `ATEXIT_FIXED` is defined, and never if not
    have hafter : ∀ t : State, (t.isDead = true ↔ t.pInstance = none) → t.isDead = true →
        t.firstPass = s.firstPass → t.needCallback = fixed → t.handlers = [] →
        Deletable fixed t := fun t hiff hd hf hn hnil => by
      refine ⟨hiff, fun hdead => ?_, Or.inl hnil, fun _ => ⟨hiff.mp hd, hnil⟩, fun hpass => ?_,
        fun hfixed _ => hn.trans hfixed, fun hfixed hneed => ?_⟩
      · rw [hd] at hdead
        cases hdead
      · rw [hf, hfirst] at hpass
        cases hpass
      · rw [hn, hfixed] at hneed
        cases hneed
    by_cases hd : s.isDead = true
    · refine ⟨{ s with handlers := [], needCallback := fixed }, ?_,
        ⟨h.history, h.destroyed, hafter _ hsched.isDead hd rfl rfl rfl⟩, rfl⟩
      simp [step, hcons, call, DeletableSingleton.atexitCallback,
        DeletableSingleton.gracefulDelete, hd]
    · rw [Bool.not_eq_true] at hd
      cases hp : s.pInstance with
      | none =>
        rw [hsched.isDead.mpr hp] at hd
        cases hd
      | some n =>
        have hrun := destroySingleton_eq
          (s := { s with handlers := [], needCallback := fixed, isDead := true }) hp
          (h.not_destroyed hp)
        refine ⟨State.without n { s with handlers := [], needCallback := fixed, isDead := true },
          ?_, h.destroyed_inv hp rfl rfl rfl rfl (hafter _ (iff_of_true rfl rfl) rfl rfl rfl rfl),
          rfl⟩
        rw [step, hcons]
        exact (gracefulDelete_eq (s := { s with handlers := [], needCallback := fixed }) hd
          (hsched.deleter hd)).trans hrun

/-- After the end of the program nothing is scheduled. -/
theorem Inv.exit (h : Inv l fixed s) :
    ∃ t, step l fixed .exit s = .ok t ∧ Inv l fixed t ∧ t.handlers = [] := by
  have hsched := h.scheduled
  cases l with
  | DefaultLifetime =>
    exact h.exit_pending hsched.2 fun t hdead ht => ⟨hdead.trans hsched.1, ht⟩
  | PhoenixSingleton =>
    cases fixed with
    | true => exact h.exit_pending hsched.2 fun t hdead ht => ⟨hdead.trans hsched.1, ht⟩
    | false => exact ⟨s, by simp [step, hsched.2.1], h, hsched.2.1⟩
  | DeletableSingleton => exact h.exit_deletable
  | NoDestroy => exact ⟨s, by simp [step, hsched.2], h, hsched.2⟩

/-- **Every step keeps the invariant**, if `Create` gives no null pointer. -/
theorem Inv.step {d : Command} (h : Inv l fixed s) (hd : d ≠ .Instance .null) :
    ∃ t, step l fixed d s = .ok t ∧ Inv l fixed t := by
  cases d with
  | Instance c => exact h.instance_ok fun hc => hd (congrArg Command.Instance hc)
  | GracefulDelete =>
    obtain ⟨t, hrun, hinv, -⟩ := h.gracefulDelete
    exact ⟨t, hrun, hinv⟩
  | exit =>
    obtain ⟨t, hrun, hinv, -⟩ := h.exit
    exact ⟨t, hrun, hinv⟩

end BstGenerator.Singleton
