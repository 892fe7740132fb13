import BstGenerator.Blocking.Model

/-!
# What a step does

Everything later modules need of the steps of a `System`:

- `Stepped`, `step_cases`: the four kinds of step, with what they require.
- `perform_spec`: a call whose wait is over moves items, and then sets the sizes of both
  condition variables and signals one of them, or leaves them alone.
- `Happened`, `step_happened`: what one step adds to the history, and that the items in it
  are exactly what moved through the container.
-/

namespace BstGenerator.Blocking

open Machine BlockingCollection

variable {C T P Tid : Type} [ProducerConsumerCollection C T P] [DecidableEq Tid]
  {gen : ConditionVariableGenerator}

/-! ## The kinds of step -/

/-- The steps, with what they require. -/
inductive Stepped : Label T P Tid → System C T P Tid gen → System C T P Tid gen → Prop
  | none {t pick : Tid} {c : Timed T P} {s : System C T P Tid gen} (hp : s.pending t = none)
    (hc : c.takesNone = true) :
    Stepped (.call t (.timed c) pick) s { s with history := s.history ++ [.returned t c .ok] }
  | timed {t pick : Tid} {c : Timed T P} {s : System C T P Tid gen} (hp : s.pending t = none)
    (hc : c.takesNone = false) :
    Stepped (.call t (.timed c) pick) s (s.settle t pick c (enter c s.collection))
  | control {t pick : Tid} {c : Call T P} {s : System C T P Tid gen} (hp : s.pending t = none)
    (hc : ∀ d, c ≠ .timed d) : Stepped (.call t c pick) s (s.control t pick c)
  | wake {t pick : Tid} {timedOut : Bool} {c : Timed T P} {s : System C T P Tid gen}
    (hp : s.pending t = some c) (ht : timedOut = true → 0 ≤ c.relTime) :
    Stepped (.wake t timedOut pick) s
      ({ s with collection := unblock t timedOut c s.collection }.settle t pick c
        (goOn c timedOut (unblock t timedOut c s.collection)))

/-- A step is of one of the four kinds. The thread of a call is in no other call, and a
time-out is reported only to a thread that set a time. -/
theorem step_cases {l : Label T P Tid} {s s' : System C T P Tid gen}
    (h : System.step l s = .ok s') : Stepped l s s' := by
  unfold System.step at h
  cases l with
  | call t c pick =>
    cases hp : s.pending t with
    | some d => simp [hp] at h
    | none =>
      simp only [hp] at h
      cases c with
      | timed c =>
        cases hc : c.takesNone with
        | true =>
          simp only [hc, if_true] at h
          cases h
          exact Stepped.none hp hc
        | false =>
          simp only [hc, Bool.false_eq_true, if_false] at h
          cases h
          exact Stepped.timed hp hc
      | _ =>
        cases h
        exact Stepped.control hp (by simp)
  | wake t timedOut pick =>
    cases hp : s.pending t with
    | none => simp [hp] at h
    | some c =>
      simp only [hp] at h
      by_cases ht : timedOut = true ∧ c.relTime < 0
      · rw [if_pos ht] at h
        cases h
      · rw [if_neg ht] at h
        cases h
        refine Stepped.wake hp ?_
        intro htrue
        by_contra hlt
        exact ht ⟨htrue, by omega⟩

/-! ## The parts of the collection a signal or a sleep leaves alone -/

section Fields

variable (b : BlockingCollection C Tid gen) (t pick : Tid) (c : Timed T P) (timedOut : Bool)

/-- A signal changes the condition variables and nothing else of the collection. -/
@[simp] theorem signal_state (f : Bool) : (signal f pick b).state = b.state := by
  unfold signal
  cases f <;> by_cases h : b.boundedCapacity = SIZE_MAX <;> simp [h]

/-- No item is moved by a signal. -/
@[simp] theorem signal_container (f : Bool) : (signal f pick b).container = b.container := by
  unfold signal
  cases f <;> by_cases h : b.boundedCapacity = SIZE_MAX <;> simp [h]

@[simp] theorem signal_boundedCapacity (f : Bool) :
    (signal f pick b).boundedCapacity = b.boundedCapacity := by
  unfold signal
  cases f <;> by_cases h : b.boundedCapacity = SIZE_MAX <;> simp [h]

@[simp] theorem signal_isAddingCompleted (f : Bool) :
    (signal f pick b).isAddingCompleted = b.isAddingCompleted := by
  unfold signal
  cases f <;> by_cases h : b.boundedCapacity = SIZE_MAX <;> simp [h]

omit [ProducerConsumerCollection C T P] [DecidableEq Tid] in
/-- Nor does a thread that begins to wait change anything else. -/
@[simp] theorem block_state : (block t c b).state = b.state := by
  unfold block
  cases c.adds <;> rfl

omit [ProducerConsumerCollection C T P] [DecidableEq Tid] in
/-- No item is moved by going to sleep. -/
@[simp] theorem block_container : (block t c b).container = b.container := by
  unfold block
  cases c.adds <;> rfl

omit [ProducerConsumerCollection C T P] [DecidableEq Tid] in
@[simp] theorem block_boundedCapacity : (block t c b).boundedCapacity = b.boundedCapacity := by
  unfold block
  cases c.adds <;> rfl

omit [ProducerConsumerCollection C T P] [DecidableEq Tid] in
@[simp] theorem block_isAddingCompleted :
    (block t c b).isAddingCompleted = b.isAddingCompleted := by
  unfold block
  cases c.adds <;> rfl

omit [ProducerConsumerCollection C T P] in
/-- Nor does one that gets the lock back. -/
@[simp] theorem unblock_state : (unblock t timedOut c b).state = b.state := by
  unfold unblock
  cases c.adds <;> rfl

omit [ProducerConsumerCollection C T P] in
/-- No item is moved by waking up. -/
@[simp] theorem unblock_container : (unblock t timedOut c b).container = b.container := by
  unfold unblock
  cases c.adds <;> rfl

omit [ProducerConsumerCollection C T P] in
@[simp] theorem unblock_boundedCapacity :
    (unblock t timedOut c b).boundedCapacity = b.boundedCapacity := by
  unfold unblock
  cases c.adds <;> rfl

omit [ProducerConsumerCollection C T P] in
@[simp] theorem unblock_isAddingCompleted :
    (unblock t timedOut c b).isAddingCompleted = b.isAddingCompleted := by
  unfold unblock
  cases c.adds <;> rfl

end Fields

/-! ## What a call moves -/

/-- A bulk take is as many single ones, one after the other. -/
theorem takeUpTo_trace {take : C → Option (T × C)} {m : Move}
    (htake : ∀ {c d : C} {x : T}, take c = some (x, d) → Moves c m x d) (n : Nat) (c : C) :
    Trace c ((takeUpTo take n c).1.map fun x => (m, x)) (takeUpTo take n c).2 := by
  induction n generalizing c with
  | zero => exact Trace.nil c
  | succ n ih =>
    unfold takeUpTo
    cases h : take c with
    | none => exact Trace.nil c
    | some e => exact Trace.cons (htake h) (ih e.2)

/-- A bulk add is as many single ones, one after the other. -/
theorem addAll_trace (xs : List T) (c : C) :
    Trace c ((addAll xs c).1.map fun x => (Move.add, x)) (addAll xs c).2 := by
  induction xs generalizing c with
  | nil => exact Trace.nil c
  | cons x xs ih =>
    unfold addAll
    cases h : tryAdd x c with
    | none => exact Trace.nil c
    | some d => exact Trace.cons (Moves.add h) (ih d)

/-- The calls that signal after they moved something. -/
def Timed.signals : Timed T P → Bool
  | .tryTakePrioBulk .. => false
  | _ => true

/-- What is left of a call once its wait is over with `Ok`. -/
structure Performed (pick : Tid) (c : Timed T P) (b : BlockingCollection C Tid gen)
    (r : Result C T Tid gen) (d : C) : Prop where
  trace : Trace b.container r.moves d
  isIn : ∀ e ∈ r.moves, e.1.isIn = c.adds
  signalled : r.collection = signal (!c.adds) pick { b with container := d } ∨
    r.collection = { b with container := d } ∧ (r.moves = [] ∨ c.signals = false)

/-- Each call's last part moves items one way only, and signals the other side, if it signals
at all. -/
theorem perform_spec (pick : Tid) (c : Timed T P) (b : BlockingCollection C Tid gen) :
    ∃ d, Performed pick c b (perform pick c b) d := by
  cases c with
  | tryEmplaceTimed r x =>
    show ∃ d, Performed pick _ b (tryEmplaceTimed x pick b) d
    unfold tryEmplaceTimed
    cases h : tryEmplace x b.container with
    | none => exact ⟨b.container, Trace.nil _, by simp, Or.inr ⟨rfl, Or.inl rfl⟩⟩
    | some d =>
      exact ⟨d, Trace.single (Moves.emplace h), by simp [Timed.adds, Move.isIn], Or.inl rfl⟩
  | tryAddBulk r xs =>
    show ∃ d, Performed pick _ b (tryAddBulk xs pick b) d
    unfold tryAddBulk
    by_cases h : xs.isEmpty
    · rw [if_pos h]
      exact ⟨b.container, Trace.nil _, by simp, Or.inr ⟨rfl, Or.inl rfl⟩⟩
    · rw [if_neg h]
      exact ⟨_, addAll_trace xs _, by simp [Timed.adds, Move.isIn], Or.inl rfl⟩
  | tryTake r =>
    show ∃ d, Performed pick _ b (tryTakeTimed pick b) d
    unfold tryTakeTimed
    cases h : tryTake b.container with
    | none => exact ⟨b.container, Trace.nil _, by simp, Or.inr ⟨rfl, Or.inl rfl⟩⟩
    | some e =>
      exact ⟨e.2, Trace.single (Moves.take h), by simp [Timed.adds, Move.isIn], Or.inl rfl⟩
  | tryTakeBulk r n =>
    exact ⟨_, takeUpTo_trace (fun h => Moves.take h) n _,
      by simp [Timed.adds, Move.isIn, perform, tryTakeBulk], Or.inl rfl⟩
  | tryTakePrio p r =>
    show ∃ d, Performed pick _ b (tryTakePrioTimed p pick b) d
    unfold tryTakePrioTimed
    cases h : tryTakePrio p b.container with
    | none => exact ⟨b.container, Trace.nil _, by simp, Or.inr ⟨rfl, Or.inl rfl⟩⟩
    | some e =>
      exact ⟨e.2, Trace.single (Moves.takePrio p h), by simp [Timed.adds, Move.isIn],
        Or.inl rfl⟩
  | tryTakePrioBulk p r n =>
    exact ⟨_, takeUpTo_trace (fun h => Moves.takePrio p h) n _,
      by simp [Timed.adds, Move.isIn, perform, tryTakePrioBulk], Or.inr ⟨rfl, Or.inr rfl⟩⟩

section Performed

variable {pick : Tid} {c : Timed T P} {b : BlockingCollection C Tid gen}
  {r : Result C T Tid gen} {d : C}

/-- The container is what the moves lead to: a signal does not change it. -/
theorem Performed.container (h : Performed pick c b r d) : r.collection.container = d := by
  rcases h.signalled with h | ⟨h, _⟩ <;> simp [h]

/-- A call activates or deactivates nothing. -/
theorem Performed.state (h : Performed pick c b r d) : r.collection.state = b.state := by
  rcases h.signalled with h | ⟨h, _⟩ <;> simp [h]

theorem Performed.boundedCapacity (h : Performed pick c b r d) :
    r.collection.boundedCapacity = b.boundedCapacity := by
  rcases h.signalled with h | ⟨h, _⟩ <;> simp [h]

theorem Performed.isAddingCompleted (h : Performed pick c b r d) :
    r.collection.isAddingCompleted = b.isAddingCompleted := by
  rcases h.signalled with h | ⟨h, _⟩ <;> simp [h]

end Performed

/-! ## The history -/

/-- What an event moves through the container. A flush takes its items. -/
def Event.move : Event T P Tid → Option (Move × T)
  | .moved _ m x => some (m, x)
  | .flushed _ x => some (.take, x)
  | .returned .. => none

/-- What has moved through the container, in order. -/
def moves (h : List (Event T P Tid)) : List (Move × T) := h.filterMap Event.move

omit [ProducerConsumerCollection C T P] [DecidableEq Tid] in
@[simp] theorem moves_append (h h' : List (Event T P Tid)) :
    moves (h ++ h') = moves h ++ moves h' := List.filterMap_append

omit [ProducerConsumerCollection C T P] [DecidableEq Tid] in
/-- A status that is returned moves nothing. -/
@[simp] theorem moves_returned (t : Tid) (c : Timed T P) (st : BlockingCollectionStatus) :
    moves [(.returned t c st : Event T P Tid)] = [] := rfl

omit [ProducerConsumerCollection C T P] [DecidableEq Tid] in
/-- The moves of a call are read back from the history as they were made. -/
@[simp] theorem moves_moved (t : Tid) (es : List (Move × T)) :
    moves (es.map fun e => (.moved t e.1 e.2 : Event T P Tid)) = es := by
  induction es with
  | nil => rfl
  | cons e es ih =>
    show (e.1, e.2) :: moves (es.map fun e => (.moved t e.1 e.2 : Event T P Tid)) = e :: es
    rw [ih]

omit [ProducerConsumerCollection C T P] [DecidableEq Tid] in
/-- In the history of moves a flush looks like so many takes. -/
@[simp] theorem moves_flushed (t : Tid) (xs : List T) :
    moves (xs.map (.flushed t : T → Event T P Tid)) = xs.map fun x => (Move.take, x) := by
  induction xs with
  | nil => rfl
  | cons x xs ih =>
    show (Move.take, x) :: moves (xs.map (.flushed t : T → Event T P Tid)) = _
    rw [ih]
    rfl

/-- What happened between two states: the events, and that the items in them went through
the container. -/
def Happened (s s' : System C T P Tid gen) (es : List (Event T P Tid)) : Prop :=
  s'.history = s.history ++ es ∧ Trace s.collection.container (moves es) s'.collection.container

omit [DecidableEq Tid] in
/-- Nothing happens between a state and itself. -/
theorem Happened.refl (s : System C T P Tid gen) : Happened s s [] :=
  ⟨(List.append_nil _).symm, Trace.nil _⟩

omit [DecidableEq Tid] in
/-- What happens in two steps is what happens in the first and then in the second. -/
theorem Happened.trans {s t u : System C T P Tid gen} {es fs : List (Event T P Tid)}
    (h : Happened s t es) (h' : Happened t u fs) : Happened s u (es ++ fs) := by
  constructor
  · rw [h'.1, h.1, List.append_assoc]
  · rw [moves_append]
    exact h.2.append h'.2

/-- A wait sends its thread to sleep, lets the call go ahead, or makes it fail. -/
@[elab_as_elim]
theorem Wait.ends {motive : Wait → Prop} (w : Wait) (sleep : motive .sleep)
    (ok : motive (.done .ok)) (fails : ∀ status, status ≠ .ok → motive (.done status)) :
    motive w := by
  cases w with
  | sleep => exact sleep
  | done status =>
    by_cases h : status = .ok
    · exact h ▸ ok
    · exact fails status h

/-- A call that fails only returns its status. -/
theorem settle_fails (t pick : Tid) (c : Timed T P) {status : BlockingCollectionStatus}
    (h : status ≠ .ok) (s : System C T P Tid gen) :
    s.settle t pick c (.done status) =
      { s with pending := fun u => if u = t then none else s.pending u
               history := s.history ++ [.returned t c status] } := by
  cases status with
  | ok => exact absurd rfl h
  | _ => rfl

/-- What the end of a call adds to the history: nothing while it sleeps, its moves and `Ok`
if its wait ended so, and else only its status. -/
theorem settle_happened (t pick : Tid) (c : Timed T P) (w : Wait) (s : System C T P Tid gen) :
    ∃ es, Happened s (s.settle t pick c w) es ∧ (∀ e ∈ moves es, e.1.isIn = c.adds) ∧
      (w ≠ .done .ok → es = [] ∨ ∃ status, es = [.returned t c status]) := by
  cases w using Wait.ends with
  | sleep =>
    refine ⟨[], ⟨(List.append_nil _).symm, ?_⟩, nofun, fun _ => Or.inl rfl⟩
    show Trace s.collection.container [] (block t c s.collection).container
    rw [block_container]
    exact Trace.nil _
  | ok =>
    obtain ⟨d, hd⟩ := perform_spec pick c s.collection
    refine ⟨_, ⟨rfl, ?_⟩, ?_, fun h => absurd rfl h⟩
    · show Trace _ (moves (_ ++ _)) (perform pick c s.collection).collection.container
      rw [moves_append, moves_moved, moves_returned, List.append_nil, hd.container]
      exact hd.trace
    · rw [moves_append, moves_moved, moves_returned, List.append_nil]
      exact hd.isIn
  | fails status hs =>
    rw [settle_fails t pick c hs]
    exact ⟨_, ⟨rfl, Trace.nil _⟩, nofun, fun _ => Or.inr ⟨_, rfl⟩⟩

/-- The calls that never wait move nothing, but for a flush. -/
theorem control_happened (t pick : Tid) (c : Call T P) (s : System C T P Tid gen) :
    ∃ xs : List T, Happened s (s.control t pick c) (xs.map (.flushed t)) ∧
      (c ≠ .flush → xs = []) := by
  have hnone : ∀ {s' : System C T P Tid gen}, s'.history = s.history →
      s'.collection.container = s.collection.container →
      ∃ xs : List T, Happened s s' (xs.map (.flushed t)) ∧ (c ≠ .flush → xs = []) := by
    intro s' hh hc
    refine ⟨[], ⟨?_, ?_⟩, fun _ => rfl⟩
    · rw [hh]
      exact (List.append_nil _).symm
    · rw [hc]
      exact Trace.nil _
  cases c with
  | flush =>
    refine ⟨_, ⟨rfl, ?_⟩, fun h => absurd rfl h⟩
    rw [moves_flushed]
    exact takeUpTo_trace (fun h => Moves.take h) _ _
  | pulse | deactivate =>
    refine hnone rfl ?_
    show (deactivateI _ s.collection).container = _
    unfold deactivateI
    split <;> rfl
  | completeAdding =>
    refine hnone rfl ?_
    show s.collection.completeAdding.container = _
    unfold BlockingCollection.completeAdding
    split <;> rfl
  | _ => exact hnone rfl rfl

/-- A thread that gets the lock back moves nothing by that. -/
theorem happened_unblock {t : Tid} {timedOut : Bool} {c : Timed T P}
    {s s' : System C T P Tid gen} {es : List (Event T P Tid)}
    (h : Happened { s with collection := unblock t timedOut c s.collection } s' es) :
    Happened s s' es := by
  refine ⟨h.1, ?_⟩
  have htr := h.2
  rwa [unblock_container] at htr

/-- The step lemma for the history. -/
theorem step_happened {l : Label T P Tid} {s s' : System C T P Tid gen}
    (h : System.step l s = .ok s') : ∃ es, Happened s s' es := by
  cases step_cases h with
  | none => exact ⟨_, rfl, Trace.nil _⟩
  | @timed t pick c s =>
    obtain ⟨es, hes, -⟩ := settle_happened t pick c (enter c s.collection) s
    exact ⟨es, hes⟩
  | @control t pick c s =>
    obtain ⟨xs, hxs, -⟩ := control_happened t pick c s
    exact ⟨_, hxs⟩
  | @wake t pick timedOut c s =>
    obtain ⟨es, hes, -⟩ := settle_happened t pick c
      (goOn c timedOut (unblock t timedOut c s.collection))
      { s with collection := unblock t timedOut c s.collection }
    exact ⟨es, happened_unblock hes⟩

/-- **What a run adds to the history is what went through the container.** -/
theorem run_happened {ls : List (Label T P Tid)} {s s' : System C T P Tid gen}
    (hrun : run System.step ls s = .ok s') : ∃ es, Happened s s' es :=
  (run_relation (fun s s' => ∃ es, Happened s s' es) (fun _ => True) (fun _ _ => True)
    (fun s => ⟨[], Happened.refl s⟩)
    (fun _ _ _ ⟨es, h⟩ ⟨fs, h'⟩ => ⟨es ++ fs, h.trans h'⟩)
    (fun _ _ _ _ _ h => ⟨step_happened h, trivial⟩) trivial
    (Along.of_forall _ fun _ _ _ => trivial) hrun).1

/-- From an unused collection the whole history is what went through its container. -/
theorem run_trace {ls : List (Label T P Tid)} {n : Nat} {s : System C T P Tid gen}
    (hrun : run System.step ls (.init n) = .ok s) :
    Trace (bounded n : C) (moves s.history) s.collection.container := by
  obtain ⟨es, hes, htr⟩ := run_happened hrun
  obtain rfl : s.history = es := hes
  exact htr

end BstGenerator.Blocking
