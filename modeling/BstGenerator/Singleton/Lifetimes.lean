import BstGenerator.Singleton.Runs

/-!
# What the lifetime policies come to

- `run_history`: with every policy the events of a program are those of a singleton.
- `exit_destroys`: the policies that destroy every object, at the end of the program if not
  before.
- `run_phoenix`: `PhoenixSingleton` is `NoDestroy` where `ATEXIT_FIXED` is not defined.
- `deletable_not_renewed`: an object of `DeletableSingleton` that is created after its callback
  is not destroyed at the end of the program, where `ATEXIT_FIXED` is not defined.
- `deadReference_iff`: `DefaultLifetime` throws once for each object that was destroyed.
-/

namespace BstGenerator.Singleton

open Machine

variable {l : Lifetime} {fixed : Bool} {s t : State} {cs : List Command}

/-- A state that a program gets to in which `Create` gives no null pointer. -/
def Reached (l : Lifetime) (fixed : Bool) (s : State) : Prop :=
  ∃ cs, Command.Instance .null ∉ cs ∧ run (step l fixed) cs .init = .ok s

/-- A program whose `Create` does not return a null pointer goes through. -/
theorem run_inv (h : Inv l fixed s) (hcs : Command.Instance .null ∉ cs) :
    ∃ t, run (step l fixed) cs s = .ok t ∧ Inv l fixed t := by
  have hal : Along (step l fixed) (fun d _ => d ≠ .Instance .null) cs s :=
    Along.of_forall s fun d hd _ heq => hcs (heq ▸ hd)
  exact run_total (fun _ _ hd h => h.step hd) h hal

theorem Reached.inv (h : Reached l fixed s) : Inv l fixed s := by
  obtain ⟨cs, hcs, hrun⟩ := h
  obtain ⟨t, ht, hinv⟩ := run_inv (Inv.init l fixed) hcs
  rw [hrun] at ht
  cases ht
  exact hinv

/-- **Every program has a singleton**: whatever the policy is, no assertion fails and no null
pointer is used, there is one object at a time, and `Instance` gives a reference to that one.
Every object is created once, and destroyed once but for the one there still is. -/
theorem run_history (l : Lifetime) (fixed : Bool) (hcs : Command.Instance .null ∉ cs) :
    ∃ s, run (step l fixed) cs .init = .ok s ∧ History s.log s.pInstance s.created ∧
      ∀ k < s.created, s.log.count (.created k) = 1 ∧
        s.log.count (.destroyed k) = if s.pInstance = some k then 0 else 1 := by
  obtain ⟨s, hrun, h⟩ := run_inv (Inv.init l fixed) hcs
  refine ⟨s, hrun, h.history, fun k hk => ⟨?_, ?_⟩⟩
  · rw [h.history.count_created, if_pos hk]
  · rw [h.history.count_destroyed]
    by_cases hp : s.pInstance = some k
    · rw [if_neg (fun hc => hc.2 hp), if_pos hp]
    · rw [if_pos ⟨hk, hp⟩, if_neg hp]

/-- A program that uses its singleton once more after it has been destroyed. -/
def session : List Command := [.Instance .object, .exit, .Instance .object, .Instance .object]

theorem run_history_session :
    ∃ s, run (step .DefaultLifetime false) session .init = .ok s ∧
      History s.log s.pInstance s.created ∧
      ∀ k < s.created, s.log.count (.created k) = 1 ∧
        s.log.count (.destroyed k) = if s.pInstance = some k then 0 else 1 :=
  run_history .DefaultLifetime false (by decide)

/-- The policies under which no object is left. -/
def Destroys : Lifetime → Bool → Prop
  | .DefaultLifetime, _ => True
  | .PhoenixSingleton, fixed => fixed = true
  | .DeletableSingleton, fixed => fixed = true
  | .NoDestroy, _ => False

theorem Inv.none_of_handlers (h : Inv l fixed s) (hl : Destroys l fixed) (hnil : s.handlers = []) :
    s.pInstance = none := by
  have hpending : s.handlers = s.pending → s.pInstance = none := by
    intro heq
    by_contra hp
    rw [hnil, State.pending, if_neg hp] at heq
    cases heq
  have hsched := h.scheduled
  cases l with
  | DefaultLifetime => exact hpending hsched.2
  | PhoenixSingleton =>
    cases hl
    exact hpending hsched.2
  | DeletableSingleton =>
    have hdel : Deletable fixed s := hsched
    exact (hdel.needCallback (hdel.renewed hl hnil)).1
  | NoDestroy => cases hl

/-- **At the end of the program** one call is scheduled at most, and after it every object has
been destroyed once: with `DefaultLifetime`, and with `PhoenixSingleton` and
`DeletableSingleton` where `ATEXIT_FIXED` is defined. -/
theorem exit_destroys (h : Reached l fixed s) (hl : Destroys l fixed) :
    ∃ t, step l fixed .exit s = .ok t ∧ t.handlers = [] ∧ t.pInstance = none ∧
      ∀ k < t.created, t.log.count (.destroyed k) = 1 := by
  obtain ⟨t, hrun, hinv, hnil⟩ := h.inv.exit
  have hnone := hinv.none_of_handlers hl hnil
  refine ⟨t, hrun, hnil, hnone, fun k hk => ?_⟩
  rw [hinv.history.count_destroyed, if_pos ⟨hk, by simp [hnone]⟩]

theorem exit_destroys_session :
    ∃ s, run (step .DeletableSingleton true) session .init = .ok s ∧
      ∃ t, step .DeletableSingleton true .exit s = .ok t ∧ t.handlers = [] ∧
        t.pInstance = none ∧ ∀ k < t.created, t.log.count (.destroyed k) = 1 := by
  have hrun : run (step .DeletableSingleton true) session .init = .ok _ := rfl
  exact ⟨_, hrun, exit_destroys ⟨session, by decide, hrun⟩ rfl⟩

/-! ## `PhoenixSingleton` -/

/-- No object has been destroyed, nor will it be. -/
structure Undestroyed (s : State) : Prop where
  destroyed : s.destroyed = false
  destroyedOnce : s.destroyedOnce = false
  isDead : s.isDead = true
  handlers : s.handlers = []
  created : s.created = if s.pInstance = none then 0 else 1
  log : ∀ k, Event.destroyed k ∉ s.log

theorem Undestroyed.init : Undestroyed .init :=
  ⟨rfl, rfl, rfl, rfl, rfl, fun _ => List.not_mem_nil⟩

/-- What happens without a destruction leaves it so. -/
theorem Undestroyed.append (h : Undestroyed s) {e : Event} (he : e.isDestruction = false) :
    Undestroyed { s with log := s.log ++ [e] } := by
  refine ⟨h.destroyed, h.destroyedOnce, h.isDead, h.handlers, h.created, fun k hk => ?_⟩
  rcases List.mem_append.mp hk with hk | hk
  · exact h.log k hk
  · exact Event.ne_destroyed he k (List.mem_singleton.mp hk).symm

/-- Neither of the two policies does anything then. -/
theorem Undestroyed.makeInstance (h : Undestroyed s) (fixed : Bool) (c : Creation) :
    makeInstance .PhoenixSingleton false c s = makeInstance .NoDestroy fixed c s ∧
      Undestroyed (makeInstance .NoDestroy fixed c s).2 := by
  by_cases hp : s.pInstance = none
  · have hphoenix : checkDestroyed .PhoenixSingleton false s = (none, s) := by
      simp [checkDestroyed, h.destroyed]
    have hno : checkDestroyed .NoDestroy fixed s = (none, s) := by
      simp [checkDestroyed, h.destroyed]
    have hcreated : s.created = 0 := by rw [h.created, if_pos hp]
    simp only [Singleton.makeInstance, if_pos hp, hphoenix, hno]
    cases c with
    | object =>
      have hnew := h.append (e := .created s.created) rfl
      refine ⟨?_, hnew.destroyed, hnew.destroyedOnce, hnew.isDead, hnew.handlers, ?_, hnew.log⟩
      · simp [create, scheduleDestruction, PhoenixSingleton.scheduleDestruction, h.destroyedOnce]
      · simp [create, scheduleDestruction, hcreated]
    | null =>
      refine ⟨?_, h.destroyed, h.destroyedOnce, h.isDead, h.handlers, hcreated, h.log⟩
      simp [create, scheduleDestruction, PhoenixSingleton.scheduleDestruction, h.destroyedOnce]
    | throws => exact ⟨rfl, h⟩
  · simp only [Singleton.makeInstance, if_neg hp]
    exact ⟨trivial, h⟩

theorem Undestroyed.reference (h : Undestroyed s) (ht : reference s = .ok t) : Undestroyed t := by
  unfold Singleton.reference at ht
  cases hp : s.pInstance with
  | some n =>
    rw [hp] at ht
    cases ht
    exact hp ▸ h.append (e := .returned n) rfl
  | none =>
    rw [hp] at ht
    cases ht

theorem Undestroyed.instance (h : Undestroyed s) (c : Creation) :
    Instance .PhoenixSingleton false c s = Instance .NoDestroy fixed c s ∧
      ∀ t, Instance .NoDestroy fixed c s = .ok t → Undestroyed t := by
  obtain ⟨hsame, hmade⟩ := h.makeInstance fixed c
  unfold Instance
  rw [hsame]
  refine ⟨rfl, fun t ht => ?_⟩
  by_cases hp : s.pInstance = none
  · rw [if_pos hp] at ht
    cases hm : Singleton.makeInstance .NoDestroy fixed c s with
    | mk o made =>
      rw [hm] at ht hmade
      cases o with
      | some e =>
        cases ht
        exact Undestroyed.append hmade (e := .raised e) rfl
      | none => exact Undestroyed.reference hmade ht
  · rw [if_neg hp] at ht
    exact h.reference ht

/-- Nor does a step of either policy destroy anything, and the steps are the same. -/
theorem Undestroyed.step (h : Undestroyed s) (d : Command) :
    step .PhoenixSingleton false d s = step .NoDestroy fixed d s ∧
      ∀ t, step .NoDestroy fixed d s = .ok t → Undestroyed t := by
  cases d with
  | Instance c => exact h.instance c
  | GracefulDelete =>
    have hrun : DeletableSingleton.gracefulDelete s = .ok s := by
      simp [DeletableSingleton.gracefulDelete, h.isDead]
    refine ⟨rfl, fun t ht => ?_⟩
    cases hrun.symm.trans ht
    exact h
  | exit =>
    have hrun : ∀ l f, Singleton.step l f .exit s = .ok s := fun l f => by
      simp [Singleton.step, h.handlers]
    refine ⟨(hrun _ _).trans (hrun _ _).symm, fun t ht => ?_⟩
    cases (hrun _ _).symm.trans ht
    exact h

/-- **`PhoenixSingleton` is `NoDestroy`** where `ATEXIT_FIXED` is not defined: the programs
with the one and with the other have the same runs, in which there is one object at most,
which is never destroyed. As `destroyedOnce_` is set once an object has been destroyed, and
nothing is scheduled as long as it is not, nothing ever is. -/
theorem run_phoenix (fixed : Bool) (cs : List Command) :
    run (step .PhoenixSingleton false) cs .init = run (step .NoDestroy fixed) cs .init ∧
      ∀ s, run (step .PhoenixSingleton false) cs .init = .ok s →
        s.created ≤ 1 ∧ ∀ k, Event.destroyed k ∉ s.log := by
  have hsame : run (step .PhoenixSingleton false) cs .init = run (step .NoDestroy fixed) cs .init :=
    run_congr (fun d s h => (Undestroyed.step h d).1) (fun d s t h => (Undestroyed.step h d).2 t)
      Undestroyed.init cs
  refine ⟨hsame, fun s hrun => ?_⟩
  rw [hsame] at hrun
  have h := run_invariant (fun d s t h => (Undestroyed.step h d).2 t) Undestroyed.init hrun
  refine ⟨?_, h.log⟩
  rw [h.created]
  split <;> decide

theorem run_phoenix_session :
    run (step .PhoenixSingleton false) session .init =
        run (step .NoDestroy false) session .init ∧
      ∃ s, run (step .PhoenixSingleton false) session .init = .ok s ∧
        s.created ≤ 1 ∧ ∀ k, Event.destroyed k ∉ s.log := by
  have hrun : run (step .PhoenixSingleton false) session .init = .ok _ := rfl
  obtain ⟨hsame, hall⟩ := run_phoenix false session
  exact ⟨hsame, _, hrun, hall _ hrun⟩

/-! ## `DeletableSingleton` -/

/-- The callback has been called, and is not scheduled. -/
structure CalledBack (s : State) : Prop where
  handlers : s.handlers = []
  firstPass : s.firstPass = false
  needCallback : s.needCallback = false

/-- Nothing is scheduled any more. -/
theorem CalledBack.schedule (h : CalledBack s) (fixed : Bool) :
    scheduleDestruction .DeletableSingleton fixed s = { s with isDead := false, deleter := true } :=
  if_neg (by simp [h.firstPass, h.needCallback])

/-- What is destroyed does not change at another event. -/
theorem count_append {es : List Event} {e : Event} {k : Nat}
    (he : e.isDestruction = false) :
    (es ++ [e]).count (.destroyed k) = es.count (.destroyed k) := by
  rw [List.count_append, List.count_singleton, if_neg]
  · rfl
  · simpa using Event.ne_destroyed he k

/-- Without `GracefulDelete` no object is destroyed then. -/
theorem CalledBack.instance (h : CalledBack s) (hinv : Inv .DeletableSingleton fixed s)
    {c : Creation} (hc : c ≠ .null) : ∃ t, Instance .DeletableSingleton fixed c s = .ok t ∧
      CalledBack t ∧ ∀ k, t.log.count (.destroyed k) = s.log.count (.destroyed k) := by
  cases hp : s.pInstance with
  | some n =>
    refine ⟨_, (hinv.instance_some hp c).1, ⟨h.handlers, h.firstPass, h.needCallback⟩, fun k => ?_⟩
    exact count_append (e := .returned n) rfl
  | none =>
    have hd : ¬ (Lifetime.DeletableSingleton = .DefaultLifetime ∧ s.destroyed = true) := by
      rintro ⟨hl, -⟩
      cases hl
    cases c with
    | object =>
      have hcheck := hinv.checkDestroyed
      rw [if_neg hd] at hcheck
      have hsched := CalledBack.schedule (s := { s with
        destroyed := false, pInstance := some s.created, created := s.created + 1
        log := s.log ++ [.created s.created] }) ⟨h.handlers, h.firstPass, h.needCallback⟩ fixed
      refine ⟨{ s with
        destroyed := false, pInstance := some s.created, created := s.created + 1
        isDead := false, deleter := true
        log := s.log ++ [.created s.created] ++ [.returned s.created] }, ?_,
        ⟨h.handlers, h.firstPass, h.needCallback⟩, fun k => ?_⟩
      · simp only [Instance, makeInstance, if_pos hp, hcheck, create, hsched, reference]
      · exact (count_append (e := .returned s.created) rfl).trans
          (count_append (e := .created s.created) rfl)
    | null => exact absurd rfl hc
    | throws =>
      refine ⟨_, hinv.instance_throws hp hd, ⟨h.handlers, h.firstPass, h.needCallback⟩,
        fun k => count_append (e := .raised .create) rfl⟩

/-- `GracefulDelete` schedules nothing. -/
theorem gracefulDelete_keeps (h : DeletableSingleton.gracefulDelete s = .ok t) :
    t.handlers = s.handlers ∧ t.firstPass = s.firstPass ∧ t.needCallback = s.needCallback := by
  unfold DeletableSingleton.gracefulDelete at h
  split at h
  · cases h
    exact ⟨rfl, rfl, rfl⟩
  · dsimp only at h
    split at h
    · unfold DestroySingleton assert at h
      split at h
      · cases hp : s.pInstance with
        | some n =>
          simp only [hp, destroy, ok_bind, pure_eq_ok] at h
          cases h
          exact ⟨rfl, rfl, rfl⟩
        | none =>
          simp only [hp, destroy, ok_bind, error_bind] at h
          cases h
      · cases h
    · cases h

/-- From the callback on it stays so, whatever is done, and only `GracefulDelete` destroys an
object. -/
theorem CalledBack.step (h : CalledBack s) (hinv : Inv .DeletableSingleton fixed s)
    {d : Command} (hd : d ≠ .Instance .null) :
    ∃ t, Singleton.step .DeletableSingleton fixed d s = .ok t ∧
      (Inv .DeletableSingleton fixed t ∧ CalledBack t) ∧
      (d ≠ .GracefulDelete → ∀ k, t.log.count (.destroyed k) = s.log.count (.destroyed k)) := by
  obtain ⟨t, ht, htinv⟩ := hinv.step hd
  suffices hkeeps : CalledBack t ∧
      (d ≠ .GracefulDelete → ∀ k, t.log.count (.destroyed k) = s.log.count (.destroyed k)) from
    ⟨t, ht, ⟨htinv, hkeeps.1⟩, hkeeps.2⟩
  cases d with
  | Instance c =>
    obtain ⟨u, hu, hback, hcount⟩ := h.instance hinv fun hc => hd (congrArg Command.Instance hc)
    obtain rfl : t = u := Except.ok.inj (ht.symm.trans hu)
    exact ⟨hback, fun _ => hcount⟩
  | GracefulDelete =>
    obtain ⟨hhandlers, hpass, hneed⟩ := gracefulDelete_keeps ht
    exact ⟨⟨hhandlers.trans h.handlers, hpass.trans h.firstPass, hneed.trans h.needCallback⟩,
      fun hdelete => absurd rfl hdelete⟩
  | exit =>
    have hsame : Singleton.step .DeletableSingleton fixed .exit s = .ok s := by
      simp [Singleton.step, h.handlers]
    obtain rfl : t = s := Except.ok.inj (ht.symm.trans hsame)
    exact ⟨h, fun _ _ => rfl⟩

/-- **An object that is created after the callback** is not destroyed at the end of the
program, where `ATEXIT_FIXED` is not defined: once the callback has been called nothing is
scheduled any more, whatever is done, and no object is destroyed unless by
`GracefulDelete`. -/
theorem deletable_not_renewed (h : Reached .DeletableSingleton false s) (hnil : s.handlers = [])
    (hpass : s.firstPass = false) (hnull : Command.Instance .null ∉ cs) :
    ∃ t, run (step .DeletableSingleton false) cs s = .ok t ∧ t.handlers = [] ∧
      (Command.GracefulDelete ∉ cs →
        ∀ k, t.log.count (.destroyed k) = s.log.count (.destroyed k)) := by
  have hneed : s.needCallback = false := by
    rw [← Bool.not_eq_true]
    intro hneed
    have hdel : Deletable false s := h.inv.scheduled
    rw [hdel.once rfl hneed] at hpass
    cases hpass
  have hstart : Inv .DeletableSingleton false s ∧ CalledBack s := ⟨h.inv, hnil, hpass, hneed⟩
  have hstep : ∀ d t, d ≠ .Instance .null → (Inv .DeletableSingleton false t ∧ CalledBack t) →
      ∃ u, step .DeletableSingleton false d t = .ok u ∧
        (Inv .DeletableSingleton false u ∧ CalledBack u) := by
    rintro d t hd ⟨hinv, hback⟩
    obtain ⟨u, hu, hkept, -⟩ := hback.step hinv hd
    exact ⟨u, hu, hkept⟩
  obtain ⟨t, hrun, hkept⟩ := run_total hstep hstart
    (Along.of_forall s fun d hd _ heq => hnull (heq ▸ hd))
  refine ⟨t, hrun, hkept.2.handlers, fun hdelete => ?_⟩
  -- the counts are those of `s` all along the run
  have hquiet : ∀ d t u, d ≠ .Instance .null ∧ d ≠ .GracefulDelete →
      ((Inv .DeletableSingleton false t ∧ CalledBack t) ∧
        ∀ k, t.log.count (.destroyed k) = s.log.count (.destroyed k)) →
      step .DeletableSingleton false d t = .ok u →
      (Inv .DeletableSingleton false u ∧ CalledBack u) ∧
        ∀ k, u.log.count (.destroyed k) = s.log.count (.destroyed k) := by
    rintro d t u ⟨hnull, hdelete⟩ ⟨⟨hinv, hback⟩, hcount⟩ hu
    obtain ⟨u', hu', hkept, hsame⟩ := hback.step hinv hnull
    obtain rfl : u' = u := Except.ok.inj (hu'.symm.trans hu)
    exact ⟨hkept, fun k => (hsame hdelete k).trans (hcount k)⟩
  refine (run_invariant_along hquiet ⟨hstart, fun _ => rfl⟩ ?_ hrun).2
  exact Along.of_forall s fun d hd _ =>
    ⟨fun heq => hnull (heq ▸ hd), fun heq => hdelete (heq ▸ hd)⟩

theorem deletable_not_renewed_session :
    ∃ s, run (step .DeletableSingleton false) session .init = .ok s ∧
      (∃ t, run (step .DeletableSingleton false) [.GracefulDelete, .Instance .object, .exit] s =
        .ok t ∧ t.handlers = []) ∧
      ∃ t, run (step .DeletableSingleton false) [.Instance .object, .exit] s = .ok t ∧
        t.handlers = [] ∧ ∀ k, t.log.count (.destroyed k) = s.log.count (.destroyed k) := by
  have hrun : run (step .DeletableSingleton false) session .init = .ok _ := rfl
  have hreached : Reached .DeletableSingleton false _ := ⟨session, by decide, hrun⟩
  obtain ⟨t, ht, hnil, -⟩ := deletable_not_renewed hreached rfl rfl
    (show .Instance .null ∉ [.GracefulDelete, .Instance .object, Command.exit] by decide)
  obtain ⟨u, hu, hnil', hcount⟩ := deletable_not_renewed hreached rfl rfl
    (show .Instance .null ∉ [.Instance .object, Command.exit] by decide)
  exact ⟨_, hrun, ⟨t, ht, hnil⟩, u, hu, hnil', hcount (by decide)⟩

/-! ## Dead references -/

/-- **`Instance` throws** "Dead Reference Detected" just with `DefaultLifetime`, and just if the
last thing that happened is that the object was destroyed. So the next call throws it no
more: it makes a new object. -/
theorem deadReference_iff (h : Reached l fixed s) {c : Creation} (hc : c ≠ .null) :
    ∃ t, step l fixed (.Instance c) s = .ok t ∧
      (t.log = s.log ++ [.raised (.logicError "Dead Reference Detected")] ↔
        l = .DefaultLifetime ∧ s.JustDestroyed) ∧
      (l = .DefaultLifetime → s.JustDestroyed →
        ∃ u, step l fixed (.Instance .object) t = .ok u ∧ u.pInstance = some s.created ∧
          u.log = t.log ++ [.created s.created, .returned s.created]) := by
  have hinv := h.inv
  rw [← hinv.destroyed]
  cases hp : s.pInstance with
  | some n =>
    have hd := hinv.not_destroyed hp
    refine ⟨_, (hinv.instance_some hp c).1, ?_, fun _ hdest => ?_⟩
    · simp [hd]
    · rw [hd] at hdest
      cases hdest
  | none =>
    by_cases hd : l = .DefaultLifetime ∧ s.destroyed = true
    · have hnext := hinv.raised hp (.logicError "Dead Reference Detected")
      refine ⟨_, hinv.instance_dead hp hd.1 hd.2 c, iff_of_true rfl hd, fun _ _ => ?_⟩
      obtain ⟨u, hu, -, hnew, hlog⟩ := hnext.instance_object hp nofun
      exact ⟨u, hu, hnew, hlog⟩
    · cases c with
      | object =>
        obtain ⟨t, hrun, -, -, hlog⟩ := hinv.instance_object hp hd
        refine ⟨t, hrun, iff_of_false ?_ hd, fun hl hdest => absurd ⟨hl, hdest⟩ hd⟩
        simp [hlog]
      | null => exact absurd rfl hc
      | throws =>
        refine ⟨_, hinv.instance_throws hp hd, iff_of_false ?_ hd,
          fun hl hdest => absurd ⟨hl, hdest⟩ hd⟩
        simp

theorem deadReference_iff_session :
    ∃ s, run (step .DefaultLifetime false) [.Instance .object, .exit] .init = .ok s ∧
      ∃ t, step .DefaultLifetime false (.Instance .object) s = .ok t ∧
        (t.log = s.log ++ [.raised (.logicError "Dead Reference Detected")] ↔
          Lifetime.DefaultLifetime = .DefaultLifetime ∧ s.JustDestroyed) ∧
        (Lifetime.DefaultLifetime = .DefaultLifetime → s.JustDestroyed →
          ∃ u, step .DefaultLifetime false (.Instance .object) t = .ok u ∧
            u.pInstance = some s.created ∧
            u.log = t.log ++ [.created s.created, .returned s.created]) := by
  have hrun : run (step .DefaultLifetime false) [.Instance .object, .exit] .init = .ok _ := rfl
  exact ⟨_, hrun, deadReference_iff ⟨[.Instance .object, .exit], by decide, hrun⟩ (by decide)⟩

end BstGenerator.Singleton
