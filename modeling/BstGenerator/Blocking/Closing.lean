import BstGenerator.Blocking.Sides
import BstGenerator.Blocking.Order

/-!
# Completing and deactivating a collection

`complete_adding` is for good and `deactivate` lasts until `activate`. Both wake every
thread that waits, and as long as one of them is in force no thread goes to sleep
(`Shut`, `run_nobody_sleeps`), so that a call that waits ends when its thread next has the
lock (`wake_ends`).

- `run_after_completion`: after `complete_adding` nothing is added, by whatever calls that
  were waiting or are made later; and once the collection is completed as well, that is,
  empty, nothing moves.
- `run_while_deactivated`: until `activate`, nothing moves through a deactivated collection
  but what a flush takes.
-/

namespace BstGenerator.Blocking

open Machine BlockingCollection

variable {C T P Tid : Type} [ProducerConsumerCollection C T P] [DecidableEq Tid]
  {gen : ConditionVariableGenerator}

/-! ## Nobody sleeps in a collection that is shut -/

/-- The two flags of the collection, which only control calls change. -/
def flags (b : BlockingCollection C Tid gen) : BlockingCollectionState × Bool :=
  (b.state, b.isAddingCompleted)

/-- However a call ends, the flags stay. -/
theorem settle_flags (t pick : Tid) (c : Timed T P) (w : Wait) (s : System C T P Tid gen) :
    flags (s.settle t pick c w).collection = flags s.collection := by
  unfold flags
  cases w using Wait.ends with
  | sleep =>
    show ((block t c s.collection).state, (block t c s.collection).isAddingCompleted) = _
    rw [block_state, block_isAddingCompleted]
  | ok =>
    obtain ⟨d, hd⟩ := perform_spec pick c s.collection
    show ((perform pick c s.collection).collection.state, _) = _
    rw [hd.state]
    exact congrArg _ hd.isAddingCompleted
  | fails status hs => rw [settle_fails t pick c hs]

/-- How a step changes the flags: it keeps them, or it is a control call. -/
inductive Flagged : Label T P Tid → System C T P Tid gen → System C T P Tid gen → Prop
  | keep {l : Label T P Tid} {s s' : System C T P Tid gen}
    (h : flags s'.collection = flags s.collection) : Flagged l s s'
  | activate {t pick : Tid} {s s' : System C T P Tid gen}
    (h : s' = { s with collection := s.collection.activateI }) :
    Flagged (.call t .activate pick) s s'
  | deactivate {l : Label T P Tid} {s s' : System C T P Tid gen} (pulse : Bool)
    (hs : s.collection.state ≠ .deactivated)
    (h : s' = { s with collection := s.collection.deactivateI pulse }) : Flagged l s s'
  | complete {l : Label T P Tid} {s s' : System C T P Tid gen}
    (hs : s.collection.isAddingCompleted = false)
    (h : s' = { s with collection := s.collection.completeAdding }) : Flagged l s s'

theorem step_flagged {l : Label T P Tid} {s s' : System C T P Tid gen}
    (h : System.step l s = .ok s') : Flagged l s s' := by
  cases step_cases h with
  | none => exact Flagged.keep rfl
  | timed => exact Flagged.keep (settle_flags ..)
  | @control t pick c s hp hc =>
    have hdeactivate : ∀ pulse, Flagged (.call t c pick) s
        { s with collection := s.collection.deactivateI pulse } := by
      intro pulse
      by_cases hd : s.collection.state = .deactivated
      · refine Flagged.keep ?_
        show flags (deactivateI pulse s.collection) = _
        unfold deactivateI
        rw [if_neg (not_not.mpr hd)]
      · exact Flagged.deactivate pulse hd rfl
    cases c with
    | pulse => exact hdeactivate true
    | deactivate => exact hdeactivate false
    | activate => exact Flagged.activate rfl
    | completeAdding =>
      cases hadd : s.collection.isAddingCompleted with
      | false => exact Flagged.complete hadd rfl
      | true =>
        refine Flagged.keep ?_
        show flags s.collection.completeAdding = _
        unfold BlockingCollection.completeAdding
        rw [if_pos hadd]
    | _ => exact Flagged.keep rfl
  | wake =>
    refine Flagged.keep ((settle_flags ..).trans ?_)
    show ((unblock _ _ _ _).state, (unblock _ _ _ _).isAddingCompleted) = _
    rw [unblock_state, unblock_isAddingCompleted]
    rfl

/-- If the collection is shut, nobody is asleep. -/
def NobodySleeps (s : System C T P Tid gen) : Prop :=
  Shut s.collection → ∀ full, (condition full s.collection).asleep = []

section Runs

variable [LawfulCollection C T P]

/-- In a collection that is shut nobody goes to sleep, and what shuts it wakes all that sleep. -/
theorem step_nobodySleeps {l : Label T P Tid} {s s' : System C T P Tid gen}
    (h : NobodySleeps s) (hstep : System.step l s = .ok s') : NobodySleeps s' := by
  intro hshut full
  obtain ⟨v, sleeps, harrives, htouched⟩ := step_touched full hstep
  obtain rfl : sleeps = false := by
    cases sleeps with
    | false => rfl
    | true => exact absurd hshut (htouched.notShut rfl)
  cases step_flagged hstep with
  | keep hflags =>
    have hs : Shut s.collection := by
      obtain ⟨hstate, hadd⟩ := Prod.mk.inj hflags
      unfold Shut at hshut ⊢
      rwa [hstate, hadd] at hshut
    refine htouched.touch.asleep_eq_nil ?_
    rcases harrives with ⟨-, rfl⟩ | ⟨timedOut, pick, -, -, rfl⟩
    · exact h hs full
    · rw [ConditionVariable.resume_asleep, h hs full]
      rfl
  | activate hs' =>
    rw [hs'] at hshut ⊢
    rcases hshut with hadd | hstate
    · cases full with
      | true => exact h (Or.inl hadd) true
      | false => exact h (Or.inl hadd) false
    · cases hstate
  | deactivate pulse hs hs' =>
    rw [hs']
    show (condition full (deactivateI pulse s.collection)).asleep = []
    unfold deactivateI
    rw [if_pos hs]
    cases full <;> rfl
  | complete hs hs' =>
    rw [hs']
    show (condition full s.collection.completeAdding).asleep = []
    unfold BlockingCollection.completeAdding
    rw [hs, if_neg Bool.false_ne_true]
    cases full <;> rfl

/-- So whenever a run has shut the collection, nobody sleeps. -/
theorem run_nobodySleeps {n : Nat} {ls : List (Label T P Tid)} {s : System C T P Tid gen}
    (hrun : run System.step ls (.init n) = .ok s) : NobodySleeps s := by
  have hinit : NobodySleeps (.init n : System C T P Tid gen) := by
    intro _ full
    cases full <;> rfl
  exact run_invariant (fun _ _ _ => step_nobodySleeps) hinit hrun

/-- A step that leaves the collection shut ends the call it is in. -/
theorem step_ends {l : Label T P Tid} {s s' : System C T P Tid gen}
    (hstep : System.step l s = .ok s') (hshut : Shut s'.collection) :
    s'.pending l.thread = none := by
  cases hp : s'.pending l.thread with
  | none => rfl
  | some c =>
    obtain ⟨v, sleeps, -, htouched⟩ := step_touched c.adds hstep
    exact absurd hshut (htouched.notShut (htouched.waits.mp ⟨c, hp, rfl⟩))

/-! ## After `complete_adding` -/

omit [DecidableEq Tid] [LawfulCollection C T P] in
/-- No call that adds is let through any more. -/
theorem enter_of_completed {c : Timed T P} {b : BlockingCollection C Tid gen}
    (hadd : b.isAddingCompleted = true) (hc : c.adds = true) : enter c b ≠ .done .ok := by
  unfold enter waitNotFullCondition
  rw [hc, if_pos rfl, hadd]
  split <;> simp

omit [DecidableEq Tid] [LawfulCollection C T P] in
/-- Nor does one go on that has waited. -/
theorem goOn_of_completed {c : Timed T P} {timedOut : Bool} {b : BlockingCollection C Tid gen}
    (hadd : b.isAddingCompleted = true) (hc : c.adds = true) :
    goOn c timedOut b ≠ .done .ok := by
  unfold goOn resumeNotFull
  rw [hc, if_pos rfl, hadd]
  split <;> simp

theorem ins_eq_nil {ms : List (Move × T)} (h : ∀ e ∈ ms, e.1.isIn = false) : ins ms = [] := by
  unfold ins
  rw [List.map_eq_nil_iff, List.filter_eq_nil_iff]
  intro e he
  rw [h e he]
  exact Bool.false_ne_true

omit [LawfulCollection C T P] in
/-- A call whose wait did not end with `Ok` if it adds, adds nothing. -/
theorem settle_adds_nothing (t pick : Tid) (c : Timed T P) (w : Wait) (s : System C T P Tid gen)
    (hw : c.adds = true → w ≠ .done .ok) :
    ∃ es, Happened s (s.settle t pick c w) es ∧ ins (moves es) = [] := by
  obtain ⟨es, hes, hin, hnot⟩ := settle_happened t pick c w s
  refine ⟨es, hes, ?_⟩
  cases hc : c.adds with
  | false => exact ins_eq_nil fun e he => (hin e he).trans hc
  | true =>
    rcases hnot (hw hc) with rfl | ⟨status, rfl⟩
    · rfl
    · rfl

/-- What is true from `complete_adding` on. -/
def AddsNothing (s s' : System C T P Tid gen) : Prop :=
  s.collection.isAddingCompleted = true →
    s'.collection.isAddingCompleted = true ∧ ∃ es, Happened s s' es ∧ ins (moves es) = []

omit [LawfulCollection C T P] in
/-- A step adds nothing then, and does not take `complete_adding` back. -/
theorem step_addsNothing {l : Label T P Tid} {s s' : System C T P Tid gen}
    (hstep : System.step l s = .ok s') : AddsNothing s s' := by
  intro hadd
  constructor
  · cases step_flagged hstep with
    | keep hflags => exact (Prod.mk.inj hflags).2.trans hadd
    | activate hs' =>
      rw [hs']
      exact hadd
    | deactivate pulse hs hs' =>
      rw [hs']
      show (deactivateI pulse s.collection).isAddingCompleted = true
      unfold deactivateI
      split <;> exact hadd
    | complete hs hs' =>
      rw [hs] at hadd
      cases hadd
  · cases step_cases hstep with
    | none => exact ⟨_, ⟨rfl, Trace.nil _⟩, rfl⟩
    | timed => exact settle_adds_nothing _ _ _ _ _ (enter_of_completed hadd)
    | @control t pick c s =>
      obtain ⟨xs, hxs, -⟩ := control_happened t pick c s
      refine ⟨_, hxs, ?_⟩
      rw [moves_flushed]
      exact ins_eq_nil (by simp [Move.isIn])
    | @wake t pick timedOut c s =>
      obtain ⟨es, hes, hin⟩ := settle_adds_nothing t pick c _
        { s with collection := unblock t timedOut c s.collection }
        (fun hc => goOn_of_completed
          ((unblock_isAddingCompleted s.collection t c timedOut).trans hadd) hc)
      exact ⟨es, happened_unblock hes, hin⟩

/-- **After `complete_adding`** adding stays completed, nothing is added, nobody goes to
sleep and a call that waits ends at its next step, in any continuation of the run; and from
a collection that is completed nothing is taken either. -/
theorem run_after_completion {n : Nat} {ls ls' : List (Label T P Tid)}
    {s s' : System C T P Tid gen} (hrun : run System.step ls (.init n) = .ok s)
    (hadd : s.collection.isAddingCompleted = true) (hrun' : run System.step ls' s = .ok s') :
    s'.collection.isAddingCompleted = true ∧
      (∀ full, (condition full s'.collection).asleep = []) ∧
      (∀ l s'', System.step l s' = .ok s'' → s''.pending l.thread = none) ∧
      ∃ es, Happened s s' es ∧ ins (moves es) = [] ∧
        (s.collection.isCompleted = true → outs (moves es) = [] ∧
          s'.collection.isCompleted = true) := by
  have hR : AddsNothing s s' :=
    (run_relation AddsNothing (fun _ => True) (fun _ _ => True)
      (fun s h => ⟨h, [], Happened.refl s, rfl⟩)
      (by
        intro s t u hst htu h
        obtain ⟨ht, es, hes, hin⟩ := hst h
        obtain ⟨hu, fs, hfs, hin'⟩ := htu ht
        refine ⟨hu, es ++ fs, hes.trans hfs, ?_⟩
        rw [moves_append]
        unfold ins at hin hin' ⊢
        rw [List.filter_append, List.map_append, hin, hin']
        rfl)
      (fun _ _ _ _ _ h => ⟨step_addsNothing h, trivial⟩) trivial
      (Along.of_forall _ fun _ _ _ => trivial) hrun').1
  obtain ⟨hadd', es, hes, hin⟩ := hR hadd
  have hsleep : NobodySleeps s' :=
    run_nobodySleeps ((run_append_ok System.step).mpr ⟨s, hrun, hrun'⟩)
  have hends : ∀ l s'', System.step l s' = .ok s'' → s''.pending l.thread = none :=
    fun l s'' h => step_ends h (Or.inl (step_addsNothing h hadd').1)
  refine ⟨hadd', hsleep (Or.inl hadd'), hends, es, hes, hin, ?_⟩
  intro hcompleted
  -- what went out was there, or came in meanwhile
  have hempty : items s.collection.container = [] := by
    simp only [isCompleted, isEmpty, Bool.and_eq_true, decide_eq_true_eq] at hcompleted
    rw [← List.length_eq_zero_iff, ← LawfulCollection.size_eq]
    exact hcompleted.2
  have hperm := hes.2.conserves
  rw [hempty, hin, List.append_nil, List.nil_perm, List.append_eq_nil_iff] at hperm
  refine ⟨hperm.1, ?_⟩
  simp only [isCompleted, isEmpty, hadd', Bool.true_and, decide_eq_true_eq]
  rw [LawfulCollection.size_eq, hperm.2]
  rfl

/-- A producer that waits for room when adding is completed does not add its item: its call
ends with `CompleteAddingConcurrent`. -/
theorem run_after_completion_waiting : ∃ s s' : QueueSystem Nat Nat,
    run System.step [.call 0 (.add 7) 0, .call 1 (.add 8) 0, .call 2 .completeAdding 0]
      (.init 1) = .ok s ∧ s.pending 1 = some (.tryEmplaceTimed (-1) 8) ∧
    run System.step [.call 0 .take 0, .wake 1 false 0] s = .ok s' ∧
    s'.history = s.history ++ [.moved 0 .take 7, .returned 0 (.tryTake (-1)) .ok,
      .returned 1 (.tryEmplaceTimed (-1) 8) .completeAddingConcurrent] ∧
    s'.collection.isAddingCompleted = true ∧
    (∀ full, (condition full s'.collection).asleep = []) ∧
    (∀ l s'', System.step l s' = .ok s'' → s''.pending l.thread = none) ∧
    ∃ es, Happened s s' es ∧ ins (moves es) = [] := by
  have hrun : run System.step [.call 0 (.add 7) 0, .call 1 (.add 8) 0, .call 2 .completeAdding 0]
      (.init 1 : QueueSystem Nat Nat) = .ok _ := rfl
  refine ⟨_, _, hrun, rfl, rfl, rfl, ?_⟩
  obtain ⟨hadd, hasleep, hends, es, hes, hin, -⟩ := run_after_completion hrun rfl
    (show run System.step [.call 0 .take 0, .wake 1 false 0] _ = .ok _ from rfl)
  exact ⟨hadd, hasleep, hends, es, hes, hin⟩

/-! ## Between `deactivate` and `activate` -/

omit [DecidableEq Tid] [LawfulCollection C T P] in
/-- No call is let through to a deactivated collection. -/
theorem enter_of_deactivated {c : Timed T P} {b : BlockingCollection C Tid gen}
    (hstate : b.state = .deactivated) : enter c b ≠ .done .ok := by
  unfold enter waitNotFullCondition waitNotEmptyCondition
  rw [hstate, if_pos rfl, if_pos rfl, ite_self]
  nofun

omit [DecidableEq Tid] [LawfulCollection C T P] in
theorem goOn_of_deactivated {c : Timed T P} {timedOut : Bool} {b : BlockingCollection C Tid gen}
    (hstate : b.state = .deactivated) : goOn c timedOut b ≠ .done .ok := by
  unfold goOn resumeNotFull resumeNotEmpty
  rw [hstate]
  split_ifs <;> simp_all

/-- What is true while the collection is deactivated. -/
def MovesNothing (s s' : System C T P Tid gen) : Prop :=
  s.collection.state = .deactivated →
    s'.collection.state = .deactivated ∧
      ∃ es, Happened s s' es ∧ ∀ t m x, .moved t m x ∉ es

omit [LawfulCollection C T P] in
/-- A step other than `activate` leaves the collection deactivated, and no call moves an item. -/
theorem step_movesNothing {l : Label T P Tid} {s s' : System C T P Tid gen}
    (hl : ∀ t pick, l ≠ .call t .activate pick) (hstep : System.step l s = .ok s') :
    MovesNothing s s' := by
  intro hstate
  constructor
  · cases step_flagged hstep with
    | keep hflags => exact (Prod.mk.inj hflags).1.trans hstate
    | activate hs' => exact absurd rfl (hl _ _)
    | deactivate pulse hs hs' => exact absurd hstate hs
    | complete hs hs' =>
      rw [hs']
      show s.collection.completeAdding.state = _
      unfold BlockingCollection.completeAdding
      split <;> exact hstate
  · have hquiet : ∀ (t pick : Tid) (c : Timed T P) (w : Wait) (s : System C T P Tid gen),
        w ≠ .done .ok → ∃ es, Happened s (s.settle t pick c w) es ∧ ∀ t m x, .moved t m x ∉ es := by
      intro t pick c w s hw
      obtain ⟨es, hes, -, hnot⟩ := settle_happened t pick c w s
      refine ⟨es, hes, ?_⟩
      rcases hnot hw with rfl | ⟨status, rfl⟩ <;> simp
    cases step_cases hstep with
    | none => exact ⟨_, ⟨rfl, Trace.nil _⟩, by simp⟩
    | timed => exact hquiet _ _ _ _ _ (enter_of_deactivated hstate)
    | @control t pick c s =>
      obtain ⟨xs, hxs, -⟩ := control_happened t pick c s
      exact ⟨_, hxs, by simp⟩
    | @wake t pick timedOut c s =>
      obtain ⟨es, hes, hnone⟩ := hquiet t pick c _
        { s with collection := unblock t timedOut c s.collection }
        (goOn_of_deactivated ((unblock_state s.collection t c timedOut).trans hstate))
      exact ⟨es, happened_unblock hes, hnone⟩

/-- **While it is deactivated**, no call moves an item, nobody goes to sleep and a call that
waits ends at its next step, until `activate`; only a flush takes items out. -/
theorem run_while_deactivated {n : Nat} {ls ls' : List (Label T P Tid)}
    {s s' : System C T P Tid gen} (hrun : run System.step ls (.init n) = .ok s)
    (hstate : s.collection.state = .deactivated)
    (hls' : ∀ l ∈ ls', ∀ t pick, l ≠ .call t .activate pick)
    (hrun' : run System.step ls' s = .ok s') :
    s'.collection.state = .deactivated ∧
      (∀ full, (condition full s'.collection).asleep = []) ∧
      (∀ t timedOut pick s'', System.step (.wake t timedOut pick) s' = .ok s'' →
        s''.pending t = none) ∧
      ∃ es, Happened s s' es ∧ ∀ t m x, .moved t m x ∉ es := by
  have hR : MovesNothing s s' :=
    (run_relation MovesNothing (fun _ => True) (fun l _ => ∀ t pick, l ≠ .call t .activate pick)
      (fun s h => ⟨h, [], Happened.refl s, by simp⟩)
      (by
        intro s t u hst htu h
        obtain ⟨ht, es, hes, hnone⟩ := hst h
        obtain ⟨hu, fs, hfs, hnone'⟩ := htu ht
        refine ⟨hu, es ++ fs, hes.trans hfs, ?_⟩
        intro w m x hmem
        rcases List.mem_append.mp hmem with hmem | hmem
        · exact hnone w m x hmem
        · exact hnone' w m x hmem)
      (fun _ _ _ hl _ h => ⟨step_movesNothing hl h, trivial⟩) trivial
      (Along.of_forall _ fun l hl _ => hls' l hl) hrun').1
  obtain ⟨hstate', hes⟩ := hR hstate
  have hsleep : NobodySleeps s' :=
    run_nobodySleeps ((run_append_ok System.step).mpr ⟨s, hrun, hrun'⟩)
  refine ⟨hstate', hsleep (Or.inr hstate'), ?_, hes⟩
  intro t timedOut pick s'' h
  exact step_ends h (Or.inr (step_movesNothing nofun h hstate').1)

/-- A consumer that waits when the collection is deactivated takes nothing: its call ends
with `NotActivated`, and so does one to add. -/
theorem run_while_deactivated_waiting : ∃ s s' : QueueSystem Nat Nat,
    run System.step [.call 0 .take 0, .call 1 (.add 8) 0, .call 2 .deactivate 0] (.init 1) =
      .ok s ∧ s.pending 0 = some (.tryTake (-1)) ∧
    run System.step [.wake 0 false 0, .call 1 (.add 9) 0] s = .ok s' ∧
    s'.history = s.history ++ [.returned 0 (.tryTake (-1)) .notActivated,
      .returned 1 (.tryEmplaceTimed (-1) 9) .notActivated] ∧
    s'.collection.state = .deactivated ∧
    (∀ full, (condition full s'.collection).asleep = []) ∧
    (∀ t timedOut pick s'', System.step (.wake t timedOut pick) s' = .ok s'' →
      s''.pending t = none) ∧
    ∃ es, Happened s s' es ∧ ∀ t m x, .moved t m x ∉ es := by
  have hrun : run System.step [.call 0 .take 0, .call 1 (.add 8) 0, .call 2 .deactivate 0]
      (.init 1 : QueueSystem Nat Nat) = .ok _ := rfl
  refine ⟨_, _, hrun, rfl, rfl, rfl, ?_⟩
  exact run_while_deactivated hrun rfl (by simp [Call.add])
    (show run System.step [.wake 0 false 0, .call 1 (.add 9) 0] _ = .ok _ from rfl)

end Runs

end BstGenerator.Blocking
