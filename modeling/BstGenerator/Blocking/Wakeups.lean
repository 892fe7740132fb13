import BstGenerator.Blocking.Bounds
import BstGenerator.Blocking.Closing

/-!
# No wake-up is lost

A collection leaves out signals on purpose, so that it has to be shown that nobody sleeps
who could go on. A side is orderly in a run if its threads are attached when they begin to
wait, a `wait_for` that was notified does not report a time-out, and, for the producers,
nobody flushes the collection or calls `try_take_prio_bulk`, which do not signal.

- `orderly_someAwake`: as long as a side is orderly and supplied, not all of its attached
  threads sleep.
- `consumers_awake`, `producers_awake`: so items never lie in a collection all of whose
  attached consumers are asleep, and there is never room in a bounded collection all of
  whose attached producers are.

A program that attaches nobody, like the one the repository has, gets a signal for every
item. A side is plain in a run if none of its threads attaches itself or calls `add_bulk`
with an empty range, the calls of the other side move at most one item each and signal it,
and there is no `pulse` and no late time-out. The producers' side is plain only in a
collection with a bound that nobody flushes.

- `plain_notified`: then, as long as some thread of a plain side sleeps, at least as many of
  its threads have been notified as there are items, or free places, for them.
-/

namespace BstGenerator.Blocking

open Machine BlockingCollection

variable {C T P Tid : Type} [ProducerConsumerCollection C T P] [LawfulCollection C T P]
  [DecidableEq Tid] {gen : ConditionVariableGenerator} {full : Bool}

/-- The call leaves its thread waiting. -/
def Timed.Sleeps (c : Timed T P) (b : BlockingCollection C Tid gen) : Prop :=
  c.takesNone = false ∧ enter c b = .sleep

instance (c : Timed T P) (b : BlockingCollection C Tid gen) : Decidable (c.Sleeps b) :=
  inferInstanceAs (Decidable (_ ∧ _))

omit [LawfulCollection C T P] in
/-- A thread that waits after its step waited before it, or has begun to. -/
theorem step_waitsOn {l : Label T P Tid} {s s' : System C T P Tid gen}
    (h : System.step l s = .ok s') (hw : WaitsOn full s' l.thread) :
    WaitsOn full s l.thread ∨
      ∃ c pick, l = .call l.thread (.timed c) pick ∧ c.adds = full ∧ c.Sleeps s.collection := by
  have hsettle : ∀ {t pick : Tid} {c : Timed T P} {w : Wait} {s : System C T P Tid gen},
      WaitsOn full (s.settle t pick c w) t → c.adds = full ∧ w = .sleep := by
    rintro t pick c w s ⟨d, hd, hfull⟩
    cases w using Wait.ends with
    | sleep =>
      obtain rfl : c = d := by simpa [System.settle] using hd
      exact ⟨hfull, rfl⟩
    | ok => simp [System.settle] at hd
    | fails status hs => simp [settle_fails t pick c hs] at hd
  cases step_cases h with
  | none hp => exact absurd hw (not_waitsOn_of_none hp)
  | timed hp hc =>
    obtain ⟨hfull, hsleep⟩ := hsettle hw
    exact Or.inr ⟨_, _, rfl, hfull, hc, hsleep⟩
  | @control t pick c s hp hc =>
    refine absurd hw (not_waitsOn_of_none ?_)
    cases c <;> exact hp
  | wake hp => exact Or.inl ⟨_, hp, (hsettle hw).1⟩

/-! ## An orderly side -/

/-- What an orderly side asks of a step. -/
def Orderly (full : Bool) (l : Label T P Tid) (s : System C T P Tid gen) : Prop :=
  (match l with
    | .call t (.timed c) _ =>
      c.adds = full → c.Sleeps s.collection → t ∈ (condition full s.collection).threadId
    | .call .. => True
    | .wake t timedOut _ =>
      timedOut = true → WaitsOn full s t → t ∈ (condition full s.collection).asleep) ∧
  (full = true → ¬ Silent l s)

/-- What an orderly side keeps. -/
structure Throttling (full : Bool) (s : System C T P Tid gen) : Prop where
  throttled : (condition full s.collection).Throttled
  awake (h : supplied full s.collection = true) : (condition full s.collection).SomeAwake

/-- A step on an orderly side keeps both: who goes to sleep is attached, and what becomes
supplied is signalled. -/
theorem step_throttling (hσ : ConditionVariable.Prompt (gen.strategy full)) {n : Nat}
    {l : Label T P Tid} {s s' : System C T P Tid gen} (hl : Orderly full l s) (hk : Kept n s)
    (h : Throttling full s) (hstep : System.step l s = .ok s') : Throttling full s' := by
  obtain ⟨v, sleeps, harrives, htouched⟩ := step_touched full hstep
  have hwaits := hk.waits full
  -- the condition variable when the thread has the lock
  have hv : v.Throttled ∧ v.CountsAttached ∧ v.waiting.Nodup ∧ l.thread ∉ v.waiting ∧
      v.threadId = (condition full s.collection).threadId ∧
      ((condition full s.collection).SomeAwake → v.SomeAwake) := by
    rcases harrives with ⟨hnot, rfl⟩ | ⟨timedOut, pick, heq, hw, rfl⟩
    · exact ⟨h.throttled, hk.counts full, hwaits.nodup,
        fun hmem => hnot ((hwaits.iff _).mp hmem), rfl, id⟩
    · have hasleep : timedOut = true → l.thread ∈ (condition full s.collection).asleep := by
        intro ht
        have hl := hl.1
        rw [heq] at hl
        exact hl ht hw
      have hres := hwaits.resume l.thread timedOut
      refine ⟨h.throttled.resume _ _ hasleep, (hk.counts full).resume _ _, hres.nodup,
        fun hmem => ((hres.iff _).mp hmem).1 rfl, ?_, fun ha => ha.resume _ _⟩
      cases timedOut <;> rfl
  obtain ⟨hthr, hcnt, hnodup, hnot, htid, hawake⟩ := hv
  -- only an attached thread goes to sleep here
  have hattached : sleeps = true → l.thread ∈ v.threadId := by
    intro hsleeps
    rw [htid]
    rcases step_waitsOn hstep (htouched.waits.mpr hsleeps) with
      hw | ⟨c, pick, heq, hfull, hsleep⟩
    · exact h.throttled.attached _ ((hwaits.iff _).mpr hw)
    · have hl := hl.1
      rw [heq] at hl
      exact hl hfull hsleep
  refine ⟨htouched.touch.throttled hthr hcnt hnodup hnot hattached, ?_⟩
  intro hsup
  obtain rfl : sleeps = false := by
    cases sleeps with
    | false => rfl
    | true =>
      rw [htouched.unsupplied rfl] at hsup
      cases hsup
  rcases htouched.supply hsup with hsup | ⟨m, pick, heq⟩ | ⟨hf, hsilent⟩
  · exact htouched.touch.someAwake hσ hthr hcnt hnodup hnot (hawake (h.awake hsup))
  · rw [heq]
    exact hthr.signal_wakes hσ m pick
  · exact absurd hsilent (hl.2 hf)

omit [LawfulCollection C T P] [DecidableEq Tid] in
theorem Throttling.init (n : Nat) : Throttling full (.init n : System C T P Tid gen) := by
  cases full with
  | true => exact ⟨ConditionVariable.Throttled.init n, fun _ hne => absurd rfl hne⟩
  | false => exact ⟨ConditionVariable.Throttled.init n, fun _ hne => absurd rfl hne⟩

/-- **A supplied side has an attached thread that does not sleep**, if it has any. -/
theorem orderly_someAwake (full : Bool)
    (hσ : ConditionVariable.Prompt (gen.strategy full)) {n : Nat}
    {ls : List (Label T P Tid)} {s : System C T P Tid gen}
    (hal : Along System.step (Orderly full) ls (.init n : System C T P Tid gen))
    (hrun : run System.step ls (.init n) = .ok s)
    (hsup : supplied full s.collection = true)
    (hne : (condition full s.collection).threadId ≠ []) :
    ∃ t ∈ (condition full s.collection).threadId,
      ¬ WaitsOn full s t ∨ t ∈ (condition full s.collection).woken := by
  have hstep : ∀ l (s s' : System C T P Tid gen), Orderly full l s →
      Kept n s ∧ Throttling full s → System.step l s = .ok s' →
      Kept n s' ∧ Throttling full s' :=
    fun _ _ _ hl h hstep => ⟨step_kept h.1 hstep, step_throttling hσ hl h.1 h.2 hstep⟩
  have hinv := run_invariant_along hstep ⟨Kept.init n, Throttling.init n⟩ hal hrun
  obtain ⟨t, ht, hnot⟩ := (hinv.2.awake hsup).exists (hinv.1.counts full) hne
  refine ⟨t, ht, ?_⟩
  by_cases hw : WaitsOn full s t
  · have hmem := ((hinv.1.waits full).iff t).mpr hw
    exact Or.inr ((List.mem_append.mp hmem).resolve_left hnot)
  · exact Or.inl hw

/-- **No stranded items.** With the standard strategies and orderly consumers, when there
are items in the collection and consumers are attached, one of these is in no `take` that
waits, or has been notified. -/
theorem consumers_awake {n : Nat} {ls : List (Label T P Tid)}
    {s : System C T P Tid stdConditionVariableGenerator}
    (hal : Along System.step (Orderly false) ls
      (.init n : System C T P Tid stdConditionVariableGenerator))
    (hrun : run System.step ls (.init n) = .ok s)
    (hitems : items s.collection.container ≠ []) (hne : s.collection.notEmpty.threadId ≠ []) :
    ∃ t ∈ s.collection.notEmpty.threadId,
      ¬ WaitsOn false s t ∨ t ∈ s.collection.notEmpty.woken := by
  have hσ : ConditionVariable.Prompt (stdConditionVariableGenerator.strategy false) :=
    ConditionVariable.prompt_notEmpty 16
  refine orderly_someAwake false hσ hal hrun ?_ hne
  simpa [supplied, isEmpty, LawfulCollection.size_eq] using hitems

/-- Two attached consumers wait, and a thread that is not attached only tries. One of the
two has been notified of the item. -/
theorem consumers_awake_run : ∃ s : QueueSystem Nat Nat,
    run System.step [.call 0 .attachConsumer 0, .call 1 .attachConsumer 0,
      .call 3 .tryTakeNow 0, .call 0 .take 0, .call 1 .take 0, .call 2 (.add 7) 0]
      (.init 2) = .ok s ∧
    ∃ t ∈ [1, 0], ¬ WaitsOn false s t ∨ t ∈ [0] := by
  have hrun : run System.step [.call 0 .attachConsumer 0, .call 1 .attachConsumer 0,
      .call 3 .tryTakeNow 0, .call 0 .take 0, .call 1 .take 0, .call 2 (.add 7) 0]
      (.init 2 : QueueSystem Nat Nat) = .ok _ := rfl
  refine ⟨_, hrun, consumers_awake ?_ hrun (by decide) (by decide)⟩
  refine .cons ⟨trivial, nofun⟩ rfl (.cons ⟨trivial, nofun⟩ rfl ?_)
  refine .cons ⟨fun _ hsleeps => absurd hsleeps (by decide), nofun⟩ rfl ?_
  refine .cons ⟨fun _ _ => by decide, nofun⟩ rfl (.cons ⟨fun _ _ => by decide, nofun⟩ rfl ?_)
  exact .cons ⟨nofun, nofun⟩ rfl .nil

/-- **No stranded room.** The same for orderly producers, when the collection has fewer
items than its bound. -/
theorem producers_awake {n : Nat} {ls : List (Label T P Tid)}
    {s : System C T P Tid stdConditionVariableGenerator}
    (hal : Along System.step (Orderly true) ls
      (.init n : System C T P Tid stdConditionVariableGenerator))
    (hrun : run System.step ls (.init n) = .ok s)
    (hroom : (items s.collection.container).length < n)
    (hne : s.collection.notFull.threadId ≠ []) :
    ∃ t ∈ s.collection.notFull.threadId,
      ¬ WaitsOn true s t ∨ t ∈ s.collection.notFull.woken := by
  have hσ : ConditionVariable.Prompt (stdConditionVariableGenerator.strategy true) :=
    ConditionVariable.prompt_notFull 16
  refine orderly_someAwake true hσ hal hrun ?_ hne
  have hbound := (run_kept hrun).fits.bound
  have hlt : size s.collection.container < s.collection.boundedCapacity := by
    rw [LawfulCollection.size_eq, hbound]
    exact hroom
  simp [supplied, isFull, hlt]

/-- A producer that waits for room is notified when an item is taken. -/
theorem producers_awake_run : ∃ s : QueueSystem Nat Nat,
    run System.step [.call 0 .attachProducer 0, .call 0 (.add 7) 0, .call 0 (.add 8) 0,
      .call 1 .take 0] (.init 1) = .ok s ∧
    ∃ t ∈ [0], ¬ WaitsOn true s t ∨ t ∈ [0] := by
  have hrun : run System.step [.call 0 .attachProducer 0, .call 0 (.add 7) 0,
      .call 0 (.add 8) 0, .call 1 .take 0] (.init 1 : QueueSystem Nat Nat) = .ok _ := rfl
  refine ⟨_, hrun, producers_awake ?_ hrun (by decide) (by decide)⟩
  refine .cons ⟨trivial, fun _ h => h.elim⟩ rfl ?_
  refine .cons ⟨fun _ _ => by decide, fun _ => nofun⟩ rfl ?_
  refine .cons ⟨fun _ _ => by decide, fun _ => nofun⟩ rfl ?_
  exact .cons ⟨nofun, fun _ => nofun⟩ rfl .nil

/-- A time-out reported by a thread that was notified strands an item: both consumers sleep,
and one of them is counted as active. -/
example : ∃ s : QueueSystem Nat Nat,
    run System.step [.call 0 .attachConsumer 0, .call 1 .attachConsumer 0,
      .call 0 (.timed (.tryTake 5)) 0, .call 1 .take 0, .call 2 (.add 7) 0, .wake 0 true 0,
      .call 0 .take 0, .call 0 .take 0, .call 2 (.add 8) 0] (.init 9) = .ok s ∧
    s.collection.container.container = [8] ∧ s.collection.notEmpty.asleep = [0, 1] ∧
    s.collection.notEmpty.woken = [] :=
  ⟨_, rfl, rfl, rfl, rfl⟩

/-! ## A plain side -/

/-- How much a side is supplied with: the items there are, or the places that are free. -/
def slack (full : Bool) (b : BlockingCollection C Tid gen) : Nat :=
  match full with
  | true => b.boundedCapacity - size b.container
  | false => size b.container

/-- The calls that move at most one item, and signal when they do. -/
def Timed.single : Timed T P → Bool
  | .tryEmplaceTimed .. | .tryTake _ | .tryTakePrio .. => true
  | .tryAddBulk _ items => items.length ≤ 1
  | .tryTakeBulk _ count => count ≤ 1
  | .tryTakePrioBulk .. => false

/-- The calls that move something when their wait ends with `Ok`. -/
def Timed.moving : Timed T P → Bool
  | .tryAddBulk _ [] => false
  | _ => true

/-- The calls of a plain program: those of the side's own threads move something, and
those of the other side's at most one item. -/
def PlainCall (full : Bool) (c : Timed T P) : Prop :=
  if c.adds = full then c.moving = true ∧ c.takesNone = false else c.single = true

instance (c : Timed T P) : Decidable (PlainCall full c) :=
  inferInstanceAs (Decidable (if c.adds = full then _ else _))

/-- What a plain side asks of a step. -/
def Plain (full : Bool) (l : Label T P Tid) (s : System C T P Tid gen) : Prop :=
  match l with
  | .call _ (.timed c) _ => c.takesNone = true ∨ PlainCall full c
  | .call _ .pulse _ => False
  | .call _ .flush _ | .call _ .attachProducer _ => full = false
  | .call _ .attachConsumer _ => full = true
  | .call .. => True
  | .wake t timedOut _ =>
    timedOut = true → WaitsOn full s t → t ∈ (condition full s.collection).asleep

/-- The size of a side's supply, as long as one of its threads sleeps, with `k` to spare. -/
def Notified (full : Bool) (k : Nat) (b : BlockingCollection C Tid gen) : Prop :=
  (condition full b).asleep ≠ [] → slack full b ≤ (condition full b).woken.length + k

/-- Such a call moves one item at most. -/
theorem perform_single (pick : Tid) {c : Timed T P} (b : BlockingCollection C Tid gen)
    (hc : c.single = true) : (perform pick c b).moves.length ≤ 1 := by
  cases c with
  | tryEmplaceTimed r x =>
    show (tryEmplaceTimed x pick b).moves.length ≤ 1
    unfold tryEmplaceTimed
    split <;> simp
  | tryAddBulk r xs =>
    have hone : xs.length ≤ 1 := of_decide_eq_true hc
    show (tryAddBulk xs pick b).moves.length ≤ 1
    unfold tryAddBulk
    split
    · exact Nat.zero_le 1
    · show ((addAll xs b.container).1.map _).length ≤ 1
      rw [List.length_map]
      exact Nat.le_trans (prefix_addAll xs b.container).length_le hone
  | tryTake r =>
    show (tryTakeTimed pick b).moves.length ≤ 1
    unfold tryTakeTimed
    split <;> simp
  | tryTakeBulk r n =>
    have hone : n ≤ 1 := of_decide_eq_true hc
    show ((takeUpTo tryTake n b.container).1.map _).length ≤ 1
    rw [List.length_map, takeUpTo_length (m := .take) rfl (fun h => Moves.take h)
      (fun h => LawfulCollection.tryTake_eq_none.mp h)]
    exact Nat.le_trans (Nat.min_le_left ..) hone
  | tryTakePrio p r =>
    show (tryTakePrioTimed p pick b).moves.length ≤ 1
    unfold tryTakePrioTimed
    split <;> simp
  | tryTakePrioBulk p r n => cases hc

omit [LawfulCollection C T P] in
theorem perform_status (pick : Tid) (c : Timed T P) (b : BlockingCollection C Tid gen) :
    (perform pick c b).status = .ok ∨ (perform pick c b).status = .internalError ∨
      (perform pick c b).status = .invalidIterators := by
  cases c with
  | tryEmplaceTimed r x =>
    unfold perform tryEmplaceTimed
    dsimp only
    split <;> simp
  | tryAddBulk r xs =>
    unfold perform tryAddBulk
    dsimp only
    split <;> simp
  | tryTake r =>
    unfold perform tryTakeTimed
    dsimp only
    split <;> simp
  | tryTakePrio p r =>
    unfold perform tryTakePrioTimed
    dsimp only
    split <;> simp
  | tryTakeBulk r k => exact Or.inl rfl
  | tryTakePrioBulk p r k => exact Or.inl rfl

/-- A call of the side's own threads that may go ahead moves something, so its thread was
notified to some purpose. -/
theorem perform_moving {n : Nat} {b : BlockingCollection C Tid gen} (h : Fits n b) (pick : Tid)
    {c : Timed T P} (hn : c.adds = true → n ≠ SIZE_MAX) (hsup : supplied c.adds b = true)
    (hc : c.moving = true) (hc' : c.takesNone = false) :
    0 < (perform pick c b).moves.length := by
  have hcontract := perform_contract h pick c hsup
  rcases perform_status pick c b with hs | hs | hs
  · rw [hs] at hcontract
    cases c with
    | tryEmplaceTimed r x =>
      have hms : (perform pick _ b).moves = [(.emplace, x)] := hcontract
      rw [hms]
      exact Nat.one_pos
    | tryAddBulk r xs =>
      obtain ⟨-, -, hne | ⟨hnone, -⟩⟩ := hcontract
      · exact List.length_pos_iff.mpr hne
      · exact absurd hnone (hn rfl)
    | tryTake r =>
      obtain ⟨x, hms⟩ := hcontract
      rw [hms]
      exact Nat.one_pos
    | tryTakePrio p r =>
      obtain ⟨x, hms⟩ := hcontract
      rw [hms]
      exact Nat.one_pos
    | tryTakeBulk r k =>
      obtain ⟨ys, hms, -, hne⟩ := hcontract
      rw [hms, List.length_map]
      refine List.length_pos_iff.mpr (hne ?_)
      rintro rfl
      cases hc'
    | tryTakePrioBulk p r k =>
      obtain ⟨ys, hms, -, hne⟩ := hcontract
      rw [hms, List.length_map]
      refine List.length_pos_iff.mpr (hne ?_)
      rintro rfl
      cases hc'
  · rw [hs] at hcontract
    obtain ⟨hnone, -, ⟨r, x, rfl⟩, -⟩ := hcontract
    exact absurd hnone (hn rfl)
  · rw [hs] at hcontract
    obtain ⟨⟨r, rfl⟩, -⟩ := hcontract
    cases hc

/-- What a call takes from the supply of its own side, or adds to that of the other. -/
theorem Performed.slack (full : Bool) {n : Nat} {b : BlockingCollection C Tid gen}
    (hb : Fits n b) {pick : Tid} {c : Timed T P} {r : Result C T Tid gen} {d : C}
    (h : Performed pick c b r d) :
    if c.adds = full then slack full b = slack full r.collection + r.moves.length
      else slack full r.collection = slack full b + r.moves.length := by
  have hle : size b.container ≤ b.boundedCapacity := hb.bound.symm ▸ hb.le
  have hcap : size d ≤ b.boundedCapacity := by
    have := h.trace.size_le_capacity (hb.container.symm ▸ hb.le)
    rwa [h.trace.capacity_eq, hb.container, ← hb.bound] at this
  have hd : r.collection.container = d := h.container
  have hbound : r.collection.boundedCapacity = b.boundedCapacity := h.boundedCapacity
  have hin : c.adds = true → size d = size b.container + r.moves.length :=
    fun hc => h.trace.size_in fun e he => (h.isIn e he).trans hc
  have hout : c.adds = false → size b.container = size d + r.moves.length :=
    fun hc => h.trace.size_out fun e he => (h.isIn e he).trans hc
  cases hc : c.adds with
  | true =>
    have hsize := hin hc
    cases full with
    | true =>
      show b.boundedCapacity - _ = r.collection.boundedCapacity - size r.collection.container + _
      rw [hd, hbound]
      omega
    | false =>
      show size r.collection.container = size b.container + _
      rw [hd, hsize]
  | false =>
    have hsize := hout hc
    cases full with
    | true =>
      show r.collection.boundedCapacity - size r.collection.container = b.boundedCapacity - _ + _
      rw [hd, hbound]
      omega
    | false =>
      show size b.container = size r.collection.container + _
      rw [hd, hsize]

omit [DecidableEq Tid] [LawfulCollection C T P] in
theorem slack_eq_zero {b : BlockingCollection C Tid gen} (h : supplied full b = false) :
    slack full b = 0 := by
  cases full with
  | true =>
    simp only [supplied, isFull, Bool.not_eq_false', Bool.and_eq_true, decide_eq_true_eq] at h
    exact Nat.sub_eq_zero_of_le h.2
  | false =>
    simpa [supplied, isEmpty, slack] using h

omit [LawfulCollection C T P] in
theorem settle_threadId (t pick : Tid) (c : Timed T P) (w : Wait) (s : System C T P Tid gen) :
    (condition full (s.settle t pick c w).collection).threadId =
      (condition full s.collection).threadId := by
  cases w using Wait.ends with
  | sleep =>
    show (condition full (block t c s.collection)).threadId = _
    rw [condition_block]
    split <;> rfl
  | ok =>
    obtain ⟨d, hd⟩ := perform_spec pick c s.collection
    show (condition full (perform pick c s.collection).collection).threadId = _
    rcases hd.signalled with hcol | ⟨hcol, -⟩
    · rw [hcol]
      rcases condition_signal full { s.collection with container := d } pick (!c.adds) with
        heq | heq
      · rw [heq]
        rfl
      · rw [heq, ConditionVariable.signal_threadId]
        rfl
    · rw [hcol]
      rfl
  | fails status hs => rw [settle_fails t pick c hs]

/-- A call of the side's own threads takes from its supply, which makes up for one thread
that is counted no longer. -/
theorem Performed.notified_own {n k : Nat} {b : BlockingCollection C Tid gen} (hb : Fits n b)
    {pick : Tid} {c : Timed T P} {r : Result C T Tid gen} {d : C} (h : Performed pick c b r d)
    (hfull : c.adds = full) (hpos : 0 < r.moves.length) (hk : k ≤ 1)
    (hnot : Notified full k b) : Notified full 0 r.collection := by
  have hslack := h.slack full hb
  rw [if_pos hfull] at hslack
  have hcond : (condition full r.collection).asleep = (condition full b).asleep ∧
      (condition full r.collection).woken = (condition full b).woken := by
    rcases h.signalled with hcol | ⟨hcol, -⟩
    · have hother : (!c.adds) ≠ full := by
        rw [hfull]
        cases full <;> decide
      rw [hcol, condition_signal_other full _ pick hother]
      exact ⟨rfl, rfl⟩
    · rw [hcol]
      exact ⟨rfl, rfl⟩
  intro hasleep
  rw [hcond.1] at hasleep
  rw [hcond.2]
  have := hnot hasleep
  omega

/-- A call of the other side adds one item or place to the supply, and notifies a thread if
one sleeps. -/
theorem Performed.notified_other {n : Nat} (hn : full = true → n ≠ SIZE_MAX)
    {b : BlockingCollection C Tid gen} (hb : Fits n b)
    (hnobody : (condition full b).totalWorkers = 0) {pick : Tid} {c : Timed T P}
    {r : Result C T Tid gen} {d : C} (h : Performed pick c b r d) (hfull : c.adds ≠ full)
    (hsingle : c.single = true) (hone : r.moves.length ≤ 1) (hnot : Notified full 0 b) :
    Notified full 0 r.collection := by
  have hslack := h.slack full hb
  rw [if_neg hfull] at hslack
  intro hasleep
  rcases h.signalled with hcol | ⟨hcol, hquiet⟩
  · have hother : (!c.adds) = full := by
      cases full <;> simpa using hfull
    have hcond : condition full r.collection =
        ((condition full b).size (size d)).signal pick := by
      rw [hcol, hother]
      refine condition_signal_self full _ pick fun hf => ?_
      exact hb.bound ▸ hn hf
    rw [hcond] at hasleep ⊢
    obtain ⟨hslept, hwoken⟩ := ConditionVariable.signal_notifies pick
      (v := (condition full b).size (size d)) hnobody hasleep
    rw [hwoken]
    show _ ≤ (condition full b).woken.length + 1 + 0
    have := hnot hslept
    omega
  · -- a single call that gives no signal has moved nothing
    have hnil : r.moves = [] := by
      refine hquiet.resolve_right ?_
      cases c <;> simp_all [Timed.single, Timed.signals]
    have hcond : condition full r.collection = condition full b := by
      rw [hcol]
      rfl
    rw [hcond] at hasleep ⊢
    simpa [hslack, hnil] using hnot hasleep

/-- The end of a call on a plain side. The thread may have been one that was notified and
is no longer counted (`k = 1`), if it goes on to move something or to sleep. -/
theorem settle_notified {n k : Nat} (hn : full = true → n ≠ SIZE_MAX) (t pick : Tid)
    {c : Timed T P} {w : Wait} {s : System C T P Tid gen} (hfits : Fits n s.collection)
    (hnobody : (condition full s.collection).totalWorkers = 0) (hcall : PlainCall full c)
    (hk : k ≤ 1) (hk' : c.adds ≠ full → k = 0) (hnot : Notified full k s.collection)
    (hsleep : w = .sleep → supplied c.adds s.collection = false)
    (hok : w = .done .ok → supplied c.adds s.collection = true)
    (hfail : ∀ status, w = .done status → status ≠ .ok → Notified full 0 s.collection) :
    Notified full 0 (s.settle t pick c w).collection := by
  cases w using Wait.ends with
  | sleep =>
    intro hasleep
    have hslack : slack full (block t c s.collection) = slack full s.collection := by
      cases full <;> simp [slack]
    show slack full (block t c s.collection) ≤ _
    rw [hslack]
    by_cases hfull : c.adds = full
    · rw [slack_eq_zero (hfull ▸ hsleep rfl)]
      exact Nat.zero_le _
    · have hcond : condition full (block t c s.collection) = condition full s.collection := by
        rw [condition_block, if_neg hfull]
      have hasleep : (condition full (block t c s.collection)).asleep ≠ [] := hasleep
      show _ ≤ (condition full (block t c s.collection)).woken.length + 0
      rw [hcond] at hasleep ⊢
      have := hnot hasleep
      rwa [hk' hfull] at this
  | ok =>
    obtain ⟨d, hd⟩ := perform_spec pick c s.collection
    show Notified full 0 (perform pick c s.collection).collection
    unfold PlainCall at hcall
    by_cases hfull : c.adds = full
    · rw [if_pos hfull] at hcall
      have hpos := perform_moving hfits pick (fun hc => hn (hfull ▸ hc)) (hok rfl) hcall.1 hcall.2
      exact hd.notified_own hfits hfull hpos hk hnot
    · rw [if_neg hfull] at hcall
      rw [hk' hfull] at hnot
      exact hd.notified_other hn hfits hnobody hfull hcall
        (perform_single pick s.collection hcall) hnot
  | fails status hs =>
    rw [settle_fails t pick c hs]
    exact hfail status rfl hs

omit [LawfulCollection C T P] in
/-- A thread that gets the lock back counts no longer, if it was among the notified. -/
theorem notified_unblock {k : Nat} {b : BlockingCollection C Tid gen} (h : Notified full 0 b)
    (t : Tid) (timedOut : Bool) (c : Timed T P)
    (hk : c.adds = full → t ∈ (condition full b).woken → k = 1) :
    Notified full k (unblock t timedOut c b) := by
  have hslack : slack full (unblock t timedOut c b) = slack full b := by
    cases full <;> simp [slack]
  have hcond := condition_unblock full b t c timedOut
  intro hasleep
  by_cases hfull : c.adds = full
  · rw [if_pos hfull] at hcond
    rw [hcond, ConditionVariable.resume_asleep] at hasleep
    rw [hslack, hcond, ConditionVariable.resume_woken]
    have hslept : (condition full b).asleep ≠ [] := by
      rintro hnil
      rw [hnil] at hasleep
      exact hasleep rfl
    have hle := h hslept
    by_cases hwoken : t ∈ (condition full b).woken
    · have hpos := List.length_pos_of_mem hwoken
      rw [List.length_erase_of_mem hwoken, hk hfull hwoken]
      omega
    · rw [List.erase_of_not_mem hwoken]
      omega
  · rw [if_neg hfull] at hcond
    rw [hcond] at hasleep ⊢
    rw [hslack]
    exact Nat.le_trans (h hasleep) (Nat.le_add_right ..)

/-- What a plain side keeps. -/
structure PlainSide (full : Bool) (s : System C T P Tid gen) : Prop where
  nobody : (condition full s.collection).threadId = []
  notPulsed : s.collection.state ≠ .pulsed
  calls (t : Tid) (c : Timed T P) (h : s.pending t = some c) : PlainCall full c
  notified : Notified full 0 s.collection

omit [DecidableEq Tid] [LawfulCollection C T P] in
/-- Why a wait that is resumed ends otherwise than with `Ok`. -/
theorem goOn_fails {c : Timed T P} {timedOut : Bool} {b : BlockingCollection C Tid gen}
    {status : BlockingCollectionStatus} (h : goOn c timedOut b = .done status)
    (hs : status ≠ .ok) :
    timedOut = true ∨ Shut b ∨ b.state = .pulsed ∨ supplied c.adds b = false := by
  unfold goOn resumeNotFull waitNotFullLoop resumeNotEmpty waitNotEmptyLoop at h
  cases hstate : b.state with
  | deactivated => exact Or.inr (Or.inl (Or.inr hstate))
  | pulsed => exact Or.inr (Or.inr (Or.inl rfl))
  | activated =>
    rw [hstate] at h
    split_ifs at h <;> cases h <;> simp_all [supplied, Shut]

omit [LawfulCollection C T P] in
theorem settle_pending {t pick : Tid} {c : Timed T P} {w : Wait} {s : System C T P Tid gen}
    {u : Tid} {d : Timed T P} (h : (s.settle t pick c w).pending u = some d) :
    d = c ∨ s.pending u = some d := by
  by_cases hu : u = t
  · subst hu
    cases w using Wait.ends with
    | sleep => exact Or.inl (by simpa [System.settle, eq_comm] using h)
    | ok => simp [System.settle] at h
    | fails status hs => simp [settle_fails u pick c hs] at h
  · cases w using Wait.ends with
    | sleep => exact Or.inr (by simpa [System.settle, hu] using h)
    | ok => exact Or.inr (by simpa [System.settle, hu] using h)
    | fails status hs => exact Or.inr (by simpa [settle_fails t pick c hs, hu] using h)

theorem settle_plain {n k : Nat} (hn : full = true → n ≠ SIZE_MAX) (t pick : Tid)
    {c : Timed T P} {w : Wait} {s : System C T P Tid gen} (hfits : Fits n s.collection)
    (hcounts : (condition full s.collection).CountsAttached)
    (hnobody : (condition full s.collection).threadId = [])
    (hpulsed : s.collection.state ≠ .pulsed)
    (hcalls : ∀ t c, s.pending t = some c → PlainCall full c) (hcall : PlainCall full c)
    (hk : k ≤ 1) (hk' : c.adds ≠ full → k = 0) (hnot : Notified full k s.collection)
    (hsleep : w = .sleep → supplied c.adds s.collection = false)
    (hok : w = .done .ok → supplied c.adds s.collection = true)
    (hfail : ∀ status, w = .done status → status ≠ .ok → Notified full 0 s.collection) :
    PlainSide full (s.settle t pick c w) := by
  refine ⟨?_, ?_, ?_, ?_⟩
  · rw [settle_threadId, hnobody]
  · have hflags := settle_flags t pick c w s
    rw [(Prod.mk.inj hflags).1]
    exact hpulsed
  · intro u d hd
    rcases settle_pending hd with rfl | hd
    · exact hcall
    · exact hcalls u d hd
  · refine settle_notified hn t pick hfits ?_ hcall hk hk' hnot hsleep hok hfail
    rw [hcounts.total, hnobody]
    rfl

theorem control_plain {n : Nat} {t pick : Tid} {c : Call T P} {s : System C T P Tid gen}
    (hl : Plain full (.call t c pick) s) (hkept : Kept n s) (h : PlainSide full s) :
    PlainSide full (s.control t pick c) := by
  have hdetach : ∀ t pick, (condition full s.collection).detach t pick =
      condition full s.collection := by
    intro t pick
    have htotal : (condition full s.collection).totalWorkers = 0 := by
      rw [(hkept.counts full).total, h.nobody]
      rfl
    unfold ConditionVariable.detach
    rw [h.nobody, if_neg List.not_mem_nil]
    exact if_neg fun hcond => absurd htotal (Nat.ne_of_gt hcond.1)
  cases c with
  | timed c => exact h
  | flush =>
    obtain rfl : full = false := hl
    refine ⟨h.nobody, h.notPulsed, h.calls, ?_⟩
    intro hasleep
    have hle : size s.collection.flush.2.container ≤ size s.collection.container :=
      Nat.le.intro ((takeUpTo_trace (fun h => Moves.take h) _ _).size_out
        (by simp [Move.isIn])).symm
    exact Nat.le_trans hle (h.notified hasleep)
  | pulse => exact hl.elim
  | deactivate =>
    show PlainSide full { s with collection := s.collection.deactivateI false }
    unfold deactivateI
    split
    · refine ⟨?_, BlockingCollectionState.noConfusion, h.calls, ?_⟩
      · have hb := (ConditionVariable.broadcast_threadId _).trans h.nobody
        cases full <;> exact hb
      · cases full <;> exact fun hne => absurd rfl hne
    · exact h
  | activate =>
    refine ⟨?_, BlockingCollectionState.noConfusion, h.calls, ?_⟩
    · cases full <;> exact h.nobody
    · cases full <;> exact h.notified
  | completeAdding =>
    show PlainSide full { s with collection := s.collection.completeAdding }
    unfold BlockingCollection.completeAdding
    split
    · exact h
    · refine ⟨?_, h.notPulsed, h.calls, ?_⟩
      · have hb := (ConditionVariable.broadcast_threadId _).trans h.nobody
        cases full <;> exact hb
      · cases full <;> exact fun hne => absurd rfl hne
  | attachConsumer =>
    obtain rfl : full = true := hl
    exact ⟨h.nobody, h.notPulsed, h.calls, h.notified⟩
  | attachProducer =>
    obtain rfl : full = false := hl
    exact ⟨h.nobody, h.notPulsed, h.calls, h.notified⟩
  | detachConsumer =>
    cases full with
    | true => exact ⟨h.nobody, h.notPulsed, h.calls, h.notified⟩
    | false =>
      have hsame : s.collection.notEmpty.detach t pick = s.collection.notEmpty := hdetach t pick
      show PlainSide false { s with
        collection := { s.collection with notEmpty := s.collection.notEmpty.detach t pick } }
      rw [hsame]
      exact h
  | detachProducer =>
    cases full with
    | false => exact ⟨h.nobody, h.notPulsed, h.calls, h.notified⟩
    | true =>
      have hsame : s.collection.notFull.detach t pick = s.collection.notFull := hdetach t pick
      show PlainSide true { s with
        collection := { s.collection with notFull := s.collection.notFull.detach t pick } }
      rw [hsame]
      exact h

/-- A step keeps a plain side plain: by its kind, from what its call does to the supply and to
those notified. -/
theorem step_plain {n : Nat} (hn : full = true → n ≠ SIZE_MAX) {l : Label T P Tid}
    {s s' : System C T P Tid gen} (hl : Plain full l s) (hkept : Kept n s)
    (hsleeps : NobodySleeps s) (h : PlainSide full s)
    (hstep : System.step l s = .ok s') : PlainSide full s' := by
  cases step_cases hstep with
  | none hp hc => exact ⟨h.nobody, h.notPulsed, h.calls, h.notified⟩
  | @timed t pick c s hp hc =>
    have hcall : PlainCall full c := by
      have hl : c.takesNone = true ∨ PlainCall full c := hl
      rw [hc] at hl
      exact hl.resolve_left Bool.false_ne_true
    exact settle_plain hn t pick hkept.fits (hkept.counts full) h.nobody h.notPulsed h.calls
      hcall (Nat.zero_le 1) (fun _ => rfl) h.notified (fun hw => (enter_sleep hw).1)
      (fun hw => (enter_done hw).1 rfl) fun _ _ _ => h.notified
  | @control t pick c s hp hc => exact control_plain hl hkept h
  | @wake t pick timedOut c s hp ht =>
    have hcall := h.calls t c hp
    have hfits := fits_unblock hkept.fits t timedOut c
    have hcond := condition_unblock full s.collection t c timedOut
    have hcounts : (condition full (unblock t timedOut c s.collection)).CountsAttached := by
      rw [hcond]
      split
      · exact (hkept.counts full).resume t timedOut
      · exact hkept.counts full
    have hnobody : (condition full (unblock t timedOut c s.collection)).threadId = [] := by
      rw [hcond]
      split
      · cases timedOut <;> exact h.nobody
      · exact h.nobody
    have hpulsed : (unblock t timedOut c s.collection).state ≠ .pulsed := by
      rw [unblock_state]
      exact h.notPulsed
    by_cases hfull : c.adds = full
    · refine settle_plain (k := 1) hn t pick hfits hcounts hnobody hpulsed h.calls hcall
        (Nat.le_refl 1) (fun hne => absurd hfull hne)
        (notified_unblock h.notified t timedOut c fun _ _ => rfl) (fun hw => (goOn_sleep hw).1)
        (fun hw => (goOn_done hw).1 rfl) ?_
      intro status hw hs
      rcases goOn_fails hw hs with htimed | hshut | hpulse | hsup
      · -- it was asleep, so that it was not among the notified
        have hasleep := hl htimed ⟨c, hp, hfull⟩
        refine notified_unblock h.notified t timedOut c fun _ hwoken => ?_
        have hnodup := (hkept.waits full).nodup
        exact absurd rfl ((List.nodup_append.mp hnodup).2.2 t hasleep t hwoken)
      · intro hasleep
        have hshut : Shut s.collection := by simpa [Shut] using hshut
        rw [hcond, if_pos hfull, ConditionVariable.resume_asleep, hsleeps hshut full] at hasleep
        exact absurd rfl hasleep
      · exact absurd hpulse hpulsed
      · intro _
        rw [slack_eq_zero (hfull ▸ hsup)]
        exact Nat.zero_le _
    · have hsame : Notified full 0 (unblock t timedOut c s.collection) :=
        notified_unblock h.notified t timedOut c fun heq => absurd heq hfull
      exact settle_plain hn t pick hfits hcounts hnobody hpulsed h.calls hcall (Nat.zero_le 1)
        (fun _ => rfl) hsame (fun hw => (goOn_sleep hw).1) (fun hw => (goOn_done hw).1 rfl)
        fun _ _ _ => hsame

/-- **Nobody who could go on sleeps unnotified on a plain side**: while one of its threads
sleeps, at least as many have been notified as there are items, or free places, for them. -/
theorem plain_notified (full : Bool) {n : Nat} (hn : full = true → n ≠ SIZE_MAX)
    {ls : List (Label T P Tid)} {s : System C T P Tid gen}
    (hal : Along System.step (Plain full) ls (.init n : System C T P Tid gen))
    (hrun : run System.step ls (.init n) = .ok s)
    (hasleep : (condition full s.collection).asleep ≠ []) :
    slack full s.collection ≤ (condition full s.collection).woken.length := by
  have hstep : ∀ l (s s' : System C T P Tid gen), Plain full l s →
      Kept n s ∧ NobodySleeps s ∧ PlainSide full s → System.step l s = .ok s' →
      Kept n s' ∧ NobodySleeps s' ∧ PlainSide full s' :=
    fun _ _ _ hl h hstep => ⟨step_kept h.1 hstep, step_nobodySleeps h.2.1 hstep,
      step_plain hn hl h.1 h.2.1 h.2.2 hstep⟩
  have hinit : Kept n (.init n : System C T P Tid gen) ∧
      NobodySleeps (.init n : System C T P Tid gen) ∧
      PlainSide full (.init n : System C T P Tid gen) := by
    refine ⟨Kept.init n, ?_, ?_, nofun, nofun, ?_⟩
    · intro _ full
      cases full <;> rfl
    · cases full <;> rfl
    · cases full <;> exact fun h => absurd rfl h
  exact (run_invariant_along hstep hinit hal hrun).2.2.notified hasleep

/-- Two consumers sleep and an item is added: one of them has been notified. -/
theorem plain_notified_run : ∃ s : QueueSystem Nat Nat,
    run System.step [.call 0 .take 0, .call 1 .take 0, .call 2 (.add 7) 1] (.init 2) = .ok s ∧
    s.collection.notEmpty.asleep = [0] ∧
    slack false s.collection ≤ s.collection.notEmpty.woken.length := by
  have hrun : run System.step [.call 0 .take 0, .call 1 .take 0, .call 2 (.add 7) 1]
      (.init 2 : QueueSystem Nat Nat) = .ok _ := rfl
  refine ⟨_, hrun, rfl, plain_notified false nofun ?_ hrun (by decide)⟩
  refine .cons (Or.inr (by decide)) rfl (.cons (Or.inr (by decide)) rfl ?_)
  exact .cons (Or.inr (by decide)) rfl .nil

/-- A `pulse` loses a wake-up: the consumer that was notified gives up, the other sleeps on
and the item stays. -/
example : ∃ s : QueueSystem Nat Nat,
    run System.step [.call 9 .pulse 0, .call 0 .take 0, .call 1 .take 0, .call 2 (.add 7) 0,
      .wake 0 false 0] (.init 2) = .ok s ∧
    s.collection.container.container = [7] ∧ s.collection.notEmpty.asleep = [1] ∧
    s.collection.notEmpty.woken = [] :=
  ⟨_, rfl, rfl, rfl, rfl⟩

end BstGenerator.Blocking
