import BstGenerator.Blocking.Steps
import BstGenerator.Blocking.Throttle

/-!
# The two sides of a collection

Producers wait for `not_full_condition_var_` and consumers for `not_empty_condition_var_`,
and what is true of one side is true of the other. A side is named by a flag: `true` for
the producers'.

- `condition`, `supplied`: the condition variable of a side, and whether the side's threads
  have what they wait for.
- `Touched`, `step_touched`: what a step does to one side. The thread that runs leaves its
  wait, if it was in one here; it goes back to sleep only if the side is not supplied; and
  if the side becomes supplied it is signalled, except by the two calls that do not signal.
-/

namespace BstGenerator.Blocking

open BlockingCollection

/-- The strategy of a side's condition variable. -/
def ConditionVariableGenerator.strategy (gen : ConditionVariableGenerator) : Bool → SignalStrategy
  | true => gen.notFull
  | false => gen.notEmpty

variable {C T P Tid : Type} [ProducerConsumerCollection C T P] [DecidableEq Tid]
  {gen : ConditionVariableGenerator}

namespace BlockingCollection

def condition (full : Bool) (b : BlockingCollection C Tid gen) :
    ConditionVariable Tid (gen.strategy full) :=
  match full with
  | true => b.notFull
  | false => b.notEmpty

/-- The loop condition of the side's wait is false. -/
def supplied (full : Bool) (b : BlockingCollection C Tid gen) : Bool :=
  match full with
  | true => !b.isFull
  | false => !b.isEmpty

/-- Adding is completed, or the collection is deactivated. -/
def Shut (b : BlockingCollection C Tid gen) : Prop :=
  b.isAddingCompleted = true ∨ b.state = .deactivated

end BlockingCollection

/-- Thread `t` is in a call that waits on the side. -/
def WaitsOn (full : Bool) (s : System C T P Tid gen) (t : Tid) : Prop :=
  ∃ c, s.pending t = some c ∧ c.adds = full

/-- The thread whose step it is. -/
def Label.thread : Label T P Tid → Tid
  | .call t _ _ | .wake t _ _ => t

/-- A `flush`, or a step in a call that does not signal. -/
def Silent (l : Label T P Tid) (s : System C T P Tid gen) : Prop :=
  match l with
  | .call _ .flush _ => True
  | .call _ (.timed c) _ => c.signals = false
  | .call .. => False
  | .wake t _ _ => ∃ c, s.pending t = some c ∧ c.signals = false

/-! ## The condition variable of a side -/

section Condition

variable (full : Bool) (b : BlockingCollection C Tid gen) (t pick : Tid) (c : Timed T P)

/-- A signal to either side sets the sizes of both. -/
theorem condition_signal (f : Bool) :
    condition full (signal f pick b) = (condition full b).size (size b.container) ∨
      condition full (signal f pick b) =
        ((condition full b).size (size b.container)).signal pick := by
  unfold signal
  cases f with
  | false =>
    cases full with
    | true => exact Or.inl rfl
    | false => exact Or.inr rfl
  | true =>
    by_cases h : b.boundedCapacity = SIZE_MAX
    · cases full <;> simp only [h, ne_eq, not_true_eq_false, if_true, if_false] <;>
        exact Or.inl rfl
    · cases full with
      | true =>
        simp only [h, ne_eq, not_false_eq_true, if_true]
        exact Or.inr rfl
      | false =>
        simp only [h, ne_eq, not_false_eq_true, if_true]
        exact Or.inl rfl

/-- A signal to a side reaches it, unless it is the producers' and the collection has no
bound. -/
theorem condition_signal_self (h : full = true → b.boundedCapacity ≠ SIZE_MAX) :
    condition full (signal full pick b) =
      ((condition full b).size (size b.container)).signal pick := by
  unfold signal
  cases full with
  | false => rfl
  | true =>
    simp only [h rfl, ne_eq, not_false_eq_true, if_true]
    rfl

/-- A signal to the other side only sets the size. -/
theorem condition_signal_other {f : Bool} (hf : f ≠ full) :
    condition full (signal f pick b) = (condition full b).size (size b.container) := by
  unfold signal
  cases full with
  | true =>
    obtain rfl : f = false := by simpa using hf
    rfl
  | false =>
    obtain rfl : f = true := by simpa using hf
    simp only [if_true]
    split <;> rfl

omit [ProducerConsumerCollection C T P] [DecidableEq Tid] in
theorem condition_block :
    condition full (block t c b) =
      if c.adds = full then (condition full b).wait t else condition full b := by
  unfold block
  cases full <;> cases c.adds <;> rfl

omit [ProducerConsumerCollection C T P] in
theorem condition_unblock (timedOut : Bool) :
    condition full (unblock t timedOut c b) =
      if c.adds = full then (condition full b).resume t timedOut else condition full b := by
  unfold unblock
  cases full <;> cases c.adds <;> rfl

end Condition

/-! ## The sizes -/

section Sizes

variable [LawfulCollection C T P]

theorem Trace.size_in {c d : C} {es : List (Move × T)} (h : Trace c es d)
    (hin : ∀ e ∈ es, e.1.isIn = true) : size d = size c + es.length := by
  induction h with
  | nil => rfl
  | @cons c d c' m x es hm hs ih =>
    have hperm := (LawfulCollection.moves_in hm (hin (m, x) (List.mem_cons_self ..))).length_eq
    have hsize := ih fun e he => hin e (List.mem_cons_of_mem _ he)
    rw [LawfulCollection.size_eq d] at hsize
    rw [LawfulCollection.size_eq c]
    rw [List.length_cons] at hperm ⊢
    omega

theorem Trace.size_out {c d : C} {es : List (Move × T)} (h : Trace c es d)
    (hout : ∀ e ∈ es, e.1.isIn = false) : size c = size d + es.length := by
  induction h with
  | nil => rfl
  | @cons c d c' m x es hm hs ih =>
    have hperm := (LawfulCollection.moves_out hm (hout (m, x) (List.mem_cons_self ..))).length_eq
    have hsize := ih fun e he => hout e (List.mem_cons_of_mem _ he)
    rw [LawfulCollection.size_eq d] at hsize
    rw [LawfulCollection.size_eq c]
    rw [List.length_cons] at hperm ⊢
    omega

omit [DecidableEq Tid] [LawfulCollection C T P] in
/-- Whether a side is supplied depends on the bound and on the size. -/
theorem supplied_of_size {full : Bool} {b b' : BlockingCollection C Tid gen}
    (hcap : b'.boundedCapacity = b.boundedCapacity)
    (hsize : if full then size b.container ≤ size b'.container
      else size b'.container ≤ size b.container)
    (h : supplied full b' = true) : supplied full b = true := by
  cases full with
  | true =>
    rw [if_pos rfl] at hsize
    simp only [supplied, isFull, hcap, Bool.not_eq_true', Bool.and_eq_false_iff,
      decide_eq_false_iff_not] at h ⊢
    rcases h with h | h
    · exact Or.inl h
    · exact Or.inr (by omega)
  | false =>
    rw [if_neg Bool.false_ne_true] at hsize
    simp only [supplied, isEmpty, Bool.not_eq_true', decide_eq_false_iff_not] at h ⊢
    omega

end Sizes

/-! ## Sleeping -/

omit [DecidableEq Tid] in
theorem waitLoop_sleep {full : Bool} {r : Int} {b : BlockingCollection C Tid gen}
    (h : (if full then waitNotFullLoop r b else waitNotEmptyLoop r b) = .sleep) :
    supplied full b = false ∧ b.isAddingCompleted = false := by
  cases full with
  | true =>
    simp only [if_true, waitNotFullLoop] at h
    split_ifs at h with hfull hr hadd
    exact ⟨by simp [supplied, hfull], by simpa using hadd⟩
  | false =>
    simp only [Bool.false_eq_true, if_false, waitNotEmptyLoop] at h
    split_ifs at h with hempty hr hadd
    exact ⟨by simp [supplied, hempty], by simpa using hadd⟩

omit [DecidableEq Tid] in
/-- A thread goes to sleep only where its side is not supplied and the collection is not
shut. -/
theorem enter_sleep {c : Timed T P} {b : BlockingCollection C Tid gen}
    (h : enter c b = .sleep) : supplied c.adds b = false ∧ ¬ Shut b := by
  unfold enter waitNotFullCondition waitNotEmptyCondition at h
  have hloop : (if c.adds then waitNotFullLoop c.relTime b else waitNotEmptyLoop c.relTime b) =
      .sleep ∧ b.state ≠ .deactivated := by
    split_ifs at h ⊢ <;> exact ⟨h, by assumption⟩
  obtain ⟨hsupplied, hadd⟩ := waitLoop_sleep hloop.1
  refine ⟨hsupplied, ?_⟩
  rintro (h | h)
  · rw [hadd] at h
    cases h
  · exact hloop.2 h

omit [DecidableEq Tid] in
theorem goOn_sleep {c : Timed T P} {timedOut : Bool} {b : BlockingCollection C Tid gen}
    (h : goOn c timedOut b = .sleep) : supplied c.adds b = false ∧ ¬ Shut b := by
  unfold goOn resumeNotFull resumeNotEmpty at h
  have hloop : (if c.adds then waitNotFullLoop c.relTime b else waitNotEmptyLoop c.relTime b) =
      .sleep ∧ b.state = .activated := by
    split_ifs at h ⊢ <;> exact ⟨h, by simp_all⟩
  obtain ⟨hsupplied, hadd⟩ := waitLoop_sleep hloop.1
  refine ⟨hsupplied, ?_⟩
  rintro (h | h)
  · rw [hadd] at h
    cases h
  · rw [hloop.2] at h
    cases h

/-! ## What a step does to a side -/

/-- What a critical section of `t` does to a side. `v` is the side's condition variable
when `t` has got the lock, and `sleeps` says whether `t` goes to sleep on it. -/
structure Touched (full : Bool) (t : Tid) (silent : Prop) (sleeps : Bool)
    (v : ConditionVariable Tid (gen.strategy full)) (s s' : System C T P Tid gen) : Prop where
  touch : v.Touch t sleeps (condition full s'.collection)
  waits : WaitsOn full s' t ↔ sleeps = true
  unsupplied : sleeps = true → supplied full s'.collection = false
  notShut : sleeps = true → ¬ Shut s'.collection
  others (u : Tid) (hu : u ≠ t) : s'.pending u = s.pending u
  supply : supplied full s'.collection = true → supplied full s.collection = true ∨
    (∃ n pick, condition full s'.collection = (v.size n).signal pick) ∨ full = true ∧ silent

omit [ProducerConsumerCollection C T P] [DecidableEq Tid] in
theorem not_waitsOn_of_none {full : Bool} {s : System C T P Tid gen} {t : Tid}
    (h : s.pending t = none) : ¬ WaitsOn full s t := by
  rintro ⟨c, hc, -⟩
  rw [h] at hc
  cases hc

section Step

variable [LawfulCollection C T P] {full : Bool} {t pick : Tid} {c : Timed T P}
  {s : System C T P Tid gen}

/-- A call whose wait is over supplies the other side, and signals it. -/
theorem Performed.supply {b : BlockingCollection C Tid gen} {r : Result C T Tid gen} {d : C}
    (h : Performed pick c b r d) (hsup : supplied full r.collection = true) :
    supplied full b = true ∨
      (∃ n pick', condition full r.collection = ((condition full b).size n).signal pick') ∨
      full = true ∧ c.signals = false := by
  by_cases hfull : c.adds = full
  · -- the call's own side only loses
    refine Or.inl (supplied_of_size h.boundedCapacity ?_ hsup)
    rw [h.container]
    cases full with
    | true =>
      have := h.trace.size_in fun e he => (h.isIn e he).trans hfull
      exact Nat.le.intro this.symm
    | false =>
      have := h.trace.size_out fun e he => (h.isIn e he).trans hfull
      exact Nat.le.intro this.symm
  · have hother : (!c.adds) = full := by
      cases full <;> simpa using hfull
    rcases h.signalled with hcol | ⟨hcol, hquiet⟩
    · by_cases hcap : full = true ∧ b.boundedCapacity = SIZE_MAX
      · -- without a bound the producers are always supplied
        obtain ⟨rfl, hcap⟩ := hcap
        refine Or.inl ?_
        simp [supplied, isFull, hcap]
      · refine Or.inr (Or.inl ⟨size d, pick, ?_⟩)
        rw [hcol, hother]
        refine condition_signal_self full _ pick ?_
        intro hf hb
        exact hcap ⟨hf, hb⟩
    · rcases hquiet with hnil | hquiet
      · have hd : d = b.container := by
          have htr := h.trace
          rw [hnil] at htr
          cases htr
          rfl
        rw [hcol, hd] at hsup
        exact Or.inl hsup
      · refine Or.inr (Or.inr ⟨?_, hquiet⟩)
        cases c <;> simp_all [Timed.signals, Timed.adds]

omit [LawfulCollection C T P] in
theorem Performed.touch {b : BlockingCollection C Tid gen} {r : Result C T Tid gen} {d : C}
    (h : Performed pick c b r d) :
    (condition full b).Touch t false (condition full r.collection) := by
  rcases h.signalled with hcol | ⟨hcol, -⟩
  · rw [hcol]
    rcases condition_signal full { b with container := d } pick (!c.adds) with heq | heq
    · rw [heq]
      exact ConditionVariable.Touch.size ..
    · rw [heq]
      exact ConditionVariable.Touch.signal ..
  · rw [hcol]
    exact ConditionVariable.Touch.same _

theorem settle_touched (full : Bool) (t pick : Tid) (c : Timed T P) (s : System C T P Tid gen)
    {w : Wait} (hw : w = .sleep → supplied c.adds s.collection = false ∧ ¬ Shut s.collection) :
    ∃ sleeps, Touched full t (c.signals = false) sleeps (condition full s.collection) s
      (s.settle t pick c w) := by
  -- a call that ends leaves `t` in no wait
  have hnot : ∀ s' : System C T P Tid gen, s'.pending t = none →
      (WaitsOn full s' t ↔ false = true) := by
    intro s' hs'
    simp [not_waitsOn_of_none hs']
  cases w using Wait.ends with
  | sleep =>
    refine ⟨decide (c.adds = full), ?_, ?_, ?_, ?_, ?_, ?_⟩
    · show (condition full s.collection).Touch t _ (condition full (block t c s.collection))
      rw [condition_block]
      by_cases hfull : c.adds = full
      · rw [if_pos hfull, decide_eq_true hfull]
        exact ConditionVariable.Touch.wait _
      · rw [if_neg hfull, decide_eq_false hfull]
        exact ConditionVariable.Touch.same _
    · rw [decide_eq_true_iff]
      show (∃ d, (if t = t then some c else s.pending t) = some d ∧ d.adds = full) ↔ _
      simp
    · intro hsleep
      have hfull : c.adds = full := of_decide_eq_true hsleep
      refine Bool.eq_false_iff.mpr fun hsup => ?_
      have := supplied_of_size (b := s.collection) (by simp [System.settle])
        (by simp [System.settle]) hsup
      rw [← hfull, (hw rfl).1] at this
      cases this
    · intro _ hshut
      refine (hw rfl).2 ?_
      simpa [Shut, System.settle] using hshut
    · intro u hu
      exact if_neg hu
    · intro hsup
      exact Or.inl (supplied_of_size (by simp [System.settle]) (by simp [System.settle]) hsup)
  | ok =>
    obtain ⟨d, hd⟩ := perform_spec pick c s.collection
    refine ⟨false, hd.touch, hnot _ (if_pos rfl), nofun, nofun, ?_, hd.supply⟩
    intro u hu
    exact if_neg hu
  | fails status hs =>
    rw [settle_fails t pick c hs]
    exact ⟨false, ConditionVariable.Touch.same _, hnot _ (if_pos rfl), nofun, nofun,
      fun u hu => if_neg hu, Or.inl⟩

omit [LawfulCollection C T P] in
/-- A call that never waits and moves nothing. -/
theorem touched_of_same {silent : Prop} {s' : System C T P Tid gen} (hp : s.pending t = none)
    (hpending : s'.pending = s.pending)
    (hcontainer : s'.collection.container = s.collection.container)
    (hcap : s'.collection.boundedCapacity = s.collection.boundedCapacity)
    (htouch : (condition full s.collection).Touch t false (condition full s'.collection)) :
    Touched full t silent false (condition full s.collection) s s' := by
  refine ⟨htouch, ?_, nofun, nofun, fun u _ => congrFun hpending u, ?_⟩
  · simp [not_waitsOn_of_none (hpending ▸ hp : s'.pending t = none)]
  · intro hsup
    refine Or.inl (supplied_of_size hcap ?_ hsup)
    rw [hcontainer]
    split <;> exact Nat.le_refl _

theorem control_touched (full : Bool) (pick : Tid) (c : Call T P) (hp : s.pending t = none) :
    Touched full t (c = .flush) false (condition full s.collection) s (s.control t pick c) := by
  have hbroadcast : ∀ pulse, Touched full t (c = .flush) false (condition full s.collection) s
      { s with collection := s.collection.deactivateI pulse } := by
    intro pulse
    unfold deactivateI
    split
    · refine touched_of_same hp rfl rfl rfl ?_
      cases full <;> exact ConditionVariable.Touch.broadcast _
    · exact touched_of_same hp rfl rfl rfl (ConditionVariable.Touch.same _)
  cases c with
  | timed c => exact touched_of_same hp rfl rfl rfl (ConditionVariable.Touch.same _)
  | flush =>
    refine ⟨?_, ?_, nofun, nofun, fun u _ => rfl, ?_⟩
    · cases full <;> exact ConditionVariable.Touch.size 0 _
    · exact iff_of_false (not_waitsOn_of_none (s := s.control t pick .flush) hp) nofun
    · intro hsup
      cases full with
      | true => exact Or.inr (Or.inr ⟨rfl, rfl⟩)
      | false =>
        have hsize : size s.collection.flush.2.container ≤ size s.collection.container :=
          Nat.le.intro ((takeUpTo_trace (fun h => Moves.take h) _ _).size_out
            (by simp [Move.isIn])).symm
        refine Or.inl (supplied_of_size ?_ ?_ hsup)
        · rfl
        · exact hsize
  | pulse => exact hbroadcast true
  | deactivate => exact hbroadcast false
  | activate =>
    refine touched_of_same hp rfl rfl rfl ?_
    cases full <;> exact ConditionVariable.Touch.same _
  | completeAdding =>
    show Touched full t _ false _ s { s with collection := s.collection.completeAdding }
    unfold BlockingCollection.completeAdding
    split
    · exact touched_of_same hp rfl rfl rfl (ConditionVariable.Touch.same _)
    · refine touched_of_same hp rfl rfl rfl ?_
      cases full <;> exact ConditionVariable.Touch.broadcast _
  | attachConsumer =>
    refine touched_of_same hp rfl rfl rfl ?_
    cases full with
    | true => exact ConditionVariable.Touch.same _
    | false => exact ConditionVariable.Touch.attach _
  | detachConsumer =>
    refine touched_of_same hp rfl rfl rfl ?_
    cases full with
    | true => exact ConditionVariable.Touch.same _
    | false => exact ConditionVariable.Touch.detach pick _
  | attachProducer =>
    refine touched_of_same hp rfl rfl rfl ?_
    cases full with
    | true => exact ConditionVariable.Touch.attach _
    | false => exact ConditionVariable.Touch.same _
  | detachProducer =>
    refine touched_of_same hp rfl rfl rfl ?_
    cases full with
    | true => exact ConditionVariable.Touch.detach pick _
    | false => exact ConditionVariable.Touch.same _

/-- How the thread of a step comes to the lock: it is in no wait on this side, or its wait
here ends. -/
def Arrives (full : Bool) (l : Label T P Tid) (s : System C T P Tid gen)
    (v : ConditionVariable Tid (gen.strategy full)) : Prop :=
  ¬ WaitsOn full s l.thread ∧ v = condition full s.collection ∨
    ∃ timedOut pick, l = .wake l.thread timedOut pick ∧ WaitsOn full s l.thread ∧
      v = (condition full s.collection).resume l.thread timedOut

/-- **The step lemma of a side.** -/
theorem step_touched {l : Label T P Tid} {s s' : System C T P Tid gen} (full : Bool)
    (h : System.step l s = .ok s') :
    ∃ v sleeps, Arrives full l s v ∧ Touched full l.thread (Silent l s) sleeps v s s' := by
  cases step_cases h with
  | none hp =>
    exact ⟨_, false, Or.inl ⟨not_waitsOn_of_none hp, rfl⟩,
      touched_of_same hp rfl rfl rfl (ConditionVariable.Touch.same _)⟩
  | @timed t pick c s hp hc =>
    obtain ⟨sleeps, ht⟩ := settle_touched full t pick c s enter_sleep
    exact ⟨_, sleeps, Or.inl ⟨not_waitsOn_of_none hp, rfl⟩, ht⟩
  | @control t pick c s hp hc =>
    refine ⟨_, false, Or.inl ⟨not_waitsOn_of_none hp, rfl⟩, ?_⟩
    have ht : Touched full t (c = .flush) false _ s _ := control_touched full pick c hp
    refine { ht with supply := fun hsup => ?_ }
    rcases ht.supply hsup with h | h | ⟨hf, rfl⟩
    · exact Or.inl h
    · exact Or.inr (Or.inl h)
    · exact Or.inr (Or.inr ⟨hf, trivial⟩)
  | @wake t pick timedOut c s hp ht =>
    obtain ⟨sleeps, htouch⟩ := settle_touched full t pick c
      { s with collection := unblock t timedOut c s.collection } goOn_sleep
    have hsup : ∀ b, supplied full (unblock t timedOut c b : BlockingCollection C Tid gen) =
        true → supplied full b = true := by
      intro b
      exact supplied_of_size (by simp) (by simp)
    refine ⟨_, sleeps, ?_, { htouch with supply := ?_ }⟩
    · show Arrives full _ s (condition full (unblock t timedOut c s.collection))
      rw [condition_unblock]
      by_cases hfull : c.adds = full
      · rw [if_pos hfull]
        exact Or.inr ⟨timedOut, pick, rfl, ⟨c, hp, hfull⟩, rfl⟩
      · rw [if_neg hfull]
        refine Or.inl ⟨?_, rfl⟩
        rintro ⟨d, hd, hdfull⟩
        obtain rfl : c = d := Option.some.inj (hp.symm.trans hd)
        exact hfull hdfull
    · intro h
      rcases htouch.supply h with h | h | ⟨hf, hs⟩
      · exact Or.inl (hsup _ h)
      · exact Or.inr (Or.inl h)
      · exact Or.inr (Or.inr ⟨hf, c, hp, hs⟩)

end Step

end BstGenerator.Blocking
