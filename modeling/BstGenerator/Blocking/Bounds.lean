import BstGenerator.Blocking.Sides
import BstGenerator.Blocking.Order

/-!
# What every run keeps

- `Kept`, `run_kept`: in every state a run reaches, the collection is within its bound, and
  on both sides the counters count the attached threads and the threads in a wait are those
  whose calls wait there.
- `addAll_eq`, `takeUpTo_length`: the bulk calls move as many items as fit, or as there
  are.
- `Contract`, `run_accounted`: a call reports `Ok` when it has moved exactly what it was
  asked to, and has moved no item when it reports anything else. A bulk add moves what there
  is room for. `InternalError`, and a bulk add of nothing, come about only where an unbounded
  collection holds `SIZE_MAX` items.
-/

namespace BstGenerator.Blocking

open Machine BlockingCollection

variable {C T P Tid : Type} [ProducerConsumerCollection C T P] [LawfulCollection C T P]
  [DecidableEq Tid] {gen : ConditionVariableGenerator}

/-! ## The bound -/

omit [DecidableEq Tid] in
/-- Whatever is moved, the container's bound stays. -/
theorem Trace.capacity_eq {c d : C} {es : List (Move × T)} (h : Trace c es d) :
    capacity d = capacity c := by
  induction h with
  | nil => rfl
  | cons hm _ ih => rw [ih, LawfulCollection.moves_capacity hm]

/-- An item is put in only where there is room for it. -/
theorem Moves.size_lt {c d : C} {m : Move} {x : T} (h : Moves c m x d) (hm : m.isIn = true)
    (hc : size c ≤ capacity c) : size c < capacity c := by
  refine Nat.lt_of_le_of_ne hc ?_
  intro hfull
  rw [LawfulCollection.size_eq] at hfull
  cases h with
  | emplace h =>
    rw [LawfulCollection.tryEmplace_eq_none.mpr hfull] at h
    cases h
  | add h =>
    rw [LawfulCollection.tryAdd_eq_none.mpr hfull] at h
    cases h
  | take => cases hm
  | takePrio => cases hm

/-- A move counts for one item. -/
theorem Moves.size_eq {c d : C} {m : Move} {x : T} (h : Moves c m x d) :
    if m.isIn then size d = size c + 1 else size c = size d + 1 := by
  rw [LawfulCollection.size_eq, LawfulCollection.size_eq]
  cases hm : m.isIn with
  | true => exact (LawfulCollection.moves_in h hm).length_eq
  | false => exact (LawfulCollection.moves_out h hm).length_eq

/-- So no moves lead beyond the bound. -/
theorem Trace.size_le_capacity {c d : C} {es : List (Move × T)} (h : Trace c es d)
    (hc : size c ≤ capacity c) : size d ≤ capacity d := by
  induction h with
  | nil => exact hc
  | @cons c d c' m x es hm _ ih =>
    refine ih ?_
    have hsize := hm.size_eq
    rw [LawfulCollection.moves_capacity hm]
    cases hd : m.isIn with
    | true =>
      have := hm.size_lt hd hc
      rw [hd, if_pos rfl] at hsize
      omega
    | false =>
      rw [hd, if_neg Bool.false_ne_true] at hsize
      omega

/-! ## The invariant -/

/-- The collection has the bound `n`, and no more items. -/
structure Fits (n : Nat) (b : BlockingCollection C Tid gen) : Prop where
  bound : b.boundedCapacity = n
  container : capacity b.container = n
  le : size b.container ≤ n

/-- A thread that gets the lock back leaves the collection within its bound. -/
theorem fits_unblock {n : Nat} {b : BlockingCollection C Tid gen} (h : Fits n b) (t : Tid)
    (timedOut : Bool) (c : Timed T P) : Fits n (unblock t timedOut c b) where
  bound := (unblock_boundedCapacity b t c timedOut).trans h.bound
  container := by
    rw [unblock_container]
    exact h.container
  le := by
    rw [unblock_container]
    exact h.le

/-- What holds between any two critical sections. -/
structure Kept (n : Nat) (s : System C T P Tid gen) : Prop where
  fits : Fits n s.collection
  conditionBound (full : Bool) : (condition full s.collection).boundedCapacity = n
  counts (full : Bool) : (condition full s.collection).CountsAttached
  waits (full : Bool) : (condition full s.collection).Waits (WaitsOn full s)

omit [DecidableEq Tid] in
theorem Kept.init (n : Nat) : Kept n (.init n : System C T P Tid gen) where
  fits := by
    refine ⟨rfl, LawfulCollection.capacity_bounded n, ?_⟩
    show size (bounded n : C) ≤ n
    rw [LawfulCollection.size_eq, LawfulCollection.items_bounded]
    exact Nat.zero_le n
  conditionBound full := by cases full <;> rfl
  counts full := by
    cases full <;> exact ConditionVariable.CountsAttached.init n
  waits full := by
    have hnone : ∀ t, ¬ WaitsOn full (.init n : System C T P Tid gen) t :=
      fun t => not_waitsOn_of_none rfl
    cases full <;> exact ⟨List.nodup_nil, fun t => iff_of_false List.not_mem_nil (hnone t)⟩

omit [LawfulCollection C T P] in
theorem settle_boundedCapacity (t pick : Tid) (c : Timed T P) (w : Wait)
    (s : System C T P Tid gen) :
    (s.settle t pick c w).collection.boundedCapacity = s.collection.boundedCapacity := by
  cases w using Wait.ends with
  | sleep => exact block_boundedCapacity ..
  | ok =>
    obtain ⟨d, hd⟩ := perform_spec pick c s.collection
    exact hd.boundedCapacity
  | fails status hs => rw [settle_fails t pick c hs]

omit [LawfulCollection C T P] in
theorem step_boundedCapacity {l : Label T P Tid} {s s' : System C T P Tid gen}
    (h : System.step l s = .ok s') :
    s'.collection.boundedCapacity = s.collection.boundedCapacity := by
  cases step_cases h with
  | none => rfl
  | timed => exact settle_boundedCapacity ..
  | @control t pick c s hp hc =>
    cases c with
    | pulse | deactivate =>
      show (deactivateI _ s.collection).boundedCapacity = _
      unfold deactivateI
      split <;> rfl
    | completeAdding =>
      show s.collection.completeAdding.boundedCapacity = _
      unfold BlockingCollection.completeAdding
      split <;> rfl
    | _ => rfl
  | wake =>
    rw [settle_boundedCapacity]
    exact unblock_boundedCapacity ..

/-- Every step keeps it: the container by what was moved, and either side by what the step
does to its condition variable. -/
theorem step_kept {n : Nat} {l : Label T P Tid} {s s' : System C T P Tid gen}
    (h : Kept n s) (hstep : System.step l s = .ok s') : Kept n s' := by
  obtain ⟨es, -, htrace⟩ := step_happened hstep
  have hcap := htrace.capacity_eq
  refine ⟨⟨?_, hcap.trans h.fits.container, ?_⟩, ?_, ?_, ?_⟩
  · rw [step_boundedCapacity hstep, h.fits.bound]
  · have := htrace.size_le_capacity (h.fits.container.symm ▸ h.fits.le)
    rwa [hcap, h.fits.container] at this
  all_goals
    intro full
    obtain ⟨v, sleeps, harrives, htouched⟩ := step_touched full hstep
  · rw [htouched.touch.boundedCapacity]
    rcases harrives with ⟨-, rfl⟩ | ⟨timedOut, pick, -, -, rfl⟩
    · exact h.conditionBound full
    · rw [ConditionVariable.resume_boundedCapacity]
      exact h.conditionBound full
  · refine htouched.touch.countsAttached ?_
    rcases harrives with ⟨-, rfl⟩ | ⟨timedOut, pick, -, -, rfl⟩
    · exact h.counts full
    · exact (h.counts full).resume l.thread timedOut
  · -- the threads in a wait: `t` as the step leaves it, and the others as they were
    have hrest : v.Waits fun u => u ≠ l.thread ∧ WaitsOn full s u := by
      rcases harrives with ⟨hnot, rfl⟩ | ⟨timedOut, pick, -, -, rfl⟩
      · refine ⟨(h.waits full).nodup, fun u => ?_⟩
        rw [(h.waits full).iff u]
        refine ⟨fun hu => ⟨?_, hu⟩, And.right⟩
        rintro rfl
        exact hnot hu
      · exact (h.waits full).resume l.thread timedOut
    have hwaits := htouched.touch.waits hrest fun ht => ht.1 rfl
    refine ⟨hwaits.nodup, fun u => ?_⟩
    rw [hwaits.iff u]
    by_cases hu : u = l.thread
    · subst hu
      rw [htouched.waits]
      simp
    · simp only [hu, false_and, false_or, ne_eq, not_false_eq_true, true_and]
      unfold WaitsOn
      rw [htouched.others u hu]

/-- **Every state a run reaches is kept.** -/
theorem run_kept {n : Nat} {ls : List (Label T P Tid)} {s : System C T P Tid gen}
    (hrun : run System.step ls (.init n) = .ok s) : Kept n s :=
  run_invariant (fun _ _ _ => step_kept) (Kept.init n) hrun

theorem run_kept_handover : ∃ s : QueueSystem Nat Nat,
    run System.step handover (.init 2) = .ok s ∧ Kept 2 s := by
  have hrun : run System.step handover (.init 2 : QueueSystem Nat Nat) = .ok _ := rfl
  exact ⟨_, hrun, run_kept hrun⟩

/-! ## The bulk calls -/

/-- `try_add_bulk` adds the first items of its range, as many as fit. -/
theorem addAll_eq (xs : List T) (c : C) (hc : size c ≤ capacity c) :
    (addAll xs c).1 = xs.take (capacity c - size c) := by
  induction xs generalizing c with
  | nil => simp [addAll]
  | cons x xs ih =>
    unfold addAll
    cases h : tryAdd x c with
    | none =>
      have hfull := LawfulCollection.tryAdd_eq_none.mp h
      rw [← LawfulCollection.size_eq] at hfull
      rw [hfull, Nat.sub_self]
      rfl
    | some d =>
      have hmove : Moves c .add x d := Moves.add h
      have hsize : size d = size c + 1 := hmove.size_eq
      have hcap : capacity d = capacity c := LawfulCollection.moves_capacity hmove
      have hlt := hmove.size_lt rfl hc
      have hd : size d ≤ capacity d := by omega
      have hroom : capacity c - size c = (capacity d - size d) + 1 := by omega
      rw [hroom, List.take_succ_cons, ← ih d hd]

omit [LawfulCollection C T P] in
/-- It adds no others. -/
theorem prefix_addAll (xs : List T) (c : C) : (addAll xs c).1 <+: xs := by
  induction xs generalizing c with
  | nil => exact List.prefix_refl []
  | cons x xs ih =>
    unfold addAll
    cases h : tryAdd x c with
    | none => exact List.nil_prefix
    | some d => exact List.cons_prefix_cons.mpr ⟨rfl, ih d⟩

/-- A bulk take takes as many items as there are, up to its count. -/
theorem takeUpTo_length {take : C → Option (T × C)} {m : Move} (hm : m.isIn = false)
    (htake : ∀ {c d : C} {x : T}, take c = some (x, d) → Moves c m x d)
    (hnone : ∀ {c : C}, take c = none → items c = []) (n : Nat) (c : C) :
    (takeUpTo take n c).1.length = min n (size c) := by
  induction n generalizing c with
  | zero => simp [takeUpTo]
  | succ n ih =>
    unfold takeUpTo
    cases h : take c with
    | none =>
      rw [LawfulCollection.size_eq, hnone h]
      rfl
    | some e =>
      have hsize := (htake h).size_eq
      rw [hm, if_neg Bool.false_ne_true] at hsize
      show (takeUpTo take n e.2).1.length + 1 = min (n + 1) (size c)
      rw [ih, hsize]
      omega

/-! ## What a call promises -/

/-- How many items are in the collection after a history. -/
def present (h : List (Event T P Tid)) : Nat := (ins (moves h)).length - (outs (moves h)).length

omit [DecidableEq Tid] in
/-- What has gone through the container tells how many items it holds. -/
theorem Trace.size_eq_present {n : Nat} {h : List (Event T P Tid)} {c : C}
    (htrace : Trace (bounded n : C) (moves h) c) : size c = present h := by
  have hlen := htrace.conserves.length_eq
  rw [LawfulCollection.items_bounded, List.nil_append, List.length_append,
    ← LawfulCollection.size_eq] at hlen
  unfold present
  omega

/-- The moves a call on a collection of bound `n` has made when it returns a status, `k`
being the number of items there were. Without a bound there is no room for `SIZE_MAX + 1`
items either: then `try_emplace_timed` fails, and `try_add_bulk` adds nothing and succeeds. -/
def Contract (n k : Nat) (c : Timed T P) (status : BlockingCollectionStatus)
    (ms : List (Move × T)) : Prop :=
  match status with
  | .ok =>
    match c with
    | .tryEmplaceTimed _ x => ms = [(.emplace, x)]
    | .tryAddBulk _ xs =>
      xs ≠ [] ∧ ms = ((xs.take (n - k)).map fun x => (.add, x)) ∧
        (ms ≠ [] ∨ n = SIZE_MAX ∧ k = SIZE_MAX)
    | .tryTake _ => ∃ x, ms = [(.take, x)]
    | .tryTakeBulk _ count =>
      ∃ ys, ms = ys.map (fun x => (.take, x)) ∧ ys.length = min count k ∧
        (count ≠ 0 → ys ≠ [])
    | .tryTakePrio _ _ => ∃ x, ms = [(.takePrio, x)]
    | .tryTakePrioBulk _ _ count =>
      ∃ ys, ms = ys.map (fun x => (.takePrio, x)) ∧ ys.length = min count k ∧
        (count ≠ 0 → ys ≠ [])
  | .internalError =>
    n = SIZE_MAX ∧ k = SIZE_MAX ∧ (∃ r x, c = .tryEmplaceTimed r x) ∧ ms = []
  | .invalidIterators => (∃ r, c = .tryAddBulk r []) ∧ ms = []
  | _ => ms = []

omit [DecidableEq Tid] [LawfulCollection C T P] in
/-- A call that does not wait is let through only where its side is supplied. -/
theorem enter_done {c : Timed T P} {b : BlockingCollection C Tid gen}
    {status : BlockingCollectionStatus} (h : enter c b = .done status) :
    (status = .ok → supplied c.adds b = true) ∧ status ≠ .internalError ∧
      status ≠ .invalidIterators := by
  unfold enter waitNotFullCondition waitNotFullLoop waitNotEmptyCondition waitNotEmptyLoop at h
  split_ifs at h <;> cases h <;> simp_all [supplied]

omit [DecidableEq Tid] [LawfulCollection C T P] in
/-- So is one that has waited. -/
theorem goOn_done {c : Timed T P} {timedOut : Bool} {b : BlockingCollection C Tid gen}
    {status : BlockingCollectionStatus} (h : goOn c timedOut b = .done status) :
    (status = .ok → supplied c.adds b = true) ∧ status ≠ .internalError ∧
      status ≠ .invalidIterators := by
  unfold goOn resumeNotFull waitNotFullLoop resumeNotEmpty waitNotEmptyLoop at h
  split_ifs at h <;> cases h <;> simp_all [supplied]

omit [DecidableEq Tid] in
/-- On a side that is supplied there is room, if the bound is one, or an item. -/
theorem Fits.room {n : Nat} {b : BlockingCollection C Tid gen} (h : Fits n b) {full : Bool}
    (hsup : supplied full b = true) :
    if full then n = SIZE_MAX ∨ size b.container < n else 0 < size b.container := by
  cases full with
  | true =>
    rw [if_pos rfl]
    simp only [supplied, isFull, h.bound, Bool.not_eq_true', Bool.and_eq_false_iff,
      decide_eq_false_iff_not, not_not] at hsup
    exact hsup.imp id Nat.lt_of_not_le
  | false =>
    simp only [supplied, isEmpty, Bool.not_eq_true', decide_eq_false_iff_not] at hsup
    rw [if_neg Bool.false_ne_true]
    omega

/-- A call whose wait ends with `Ok` keeps its promise. -/
theorem perform_contract {n : Nat} {b : BlockingCollection C Tid gen} (h : Fits n b)
    (pick : Tid) (c : Timed T P) (hsup : supplied c.adds b = true) :
    Contract n (size b.container) c (perform pick c b).status (perform pick c b).moves := by
  have hroom := h.room hsup
  cases c with
  | tryEmplaceTimed r x =>
    have hroom : n = SIZE_MAX ∨ size b.container < n := hroom
    show Contract n _ _ (tryEmplaceTimed x pick b).status (tryEmplaceTimed x pick b).moves
    unfold tryEmplaceTimed
    cases he : tryEmplace x b.container with
    | none =>
      have hfull := LawfulCollection.tryEmplace_eq_none.mp he
      rw [← LawfulCollection.size_eq, h.container] at hfull
      have hn : n = SIZE_MAX := hroom.resolve_right (by omega)
      exact ⟨hn, hfull.trans hn, ⟨r, x, rfl⟩, rfl⟩
    | some d => rfl
  | tryAddBulk r xs =>
    have hroom : n = SIZE_MAX ∨ size b.container < n := hroom
    show Contract n _ _ (tryAddBulk xs pick b).status (tryAddBulk xs pick b).moves
    unfold tryAddBulk
    by_cases hxs : xs.isEmpty
    · rw [if_pos hxs]
      exact ⟨⟨r, by rw [List.isEmpty_iff.mp hxs]⟩, rfl⟩
    · rw [if_neg hxs]
      have hne : xs ≠ [] := by simpa using hxs
      have hadded : (addAll xs b.container).1 = xs.take (n - size b.container) := by
        rw [addAll_eq xs _ (h.container.symm ▸ h.le), h.container]
      refine ⟨hne, congrArg (List.map _) hadded, ?_⟩
      show (addAll xs b.container).1.map _ ≠ [] ∨ _
      rw [hadded]
      by_cases hfull : size b.container = n
      · -- there is no room, and no bound
        have hn : n = SIZE_MAX := hroom.resolve_right (by omega)
        exact Or.inr ⟨hn, hfull.trans hn⟩
      · refine Or.inl (List.ne_nil_of_length_pos ?_)
        have hpos : 0 < xs.length := List.length_pos_iff.mpr hne
        have := h.le
        rw [List.length_map, List.length_take]
        omega
  | tryTake r =>
    have hpos : 0 < size b.container := hroom
    show Contract n _ _ (tryTakeTimed pick b).status (tryTakeTimed pick b).moves
    unfold tryTakeTimed
    cases he : tryTake b.container with
    | none =>
      rw [LawfulCollection.size_eq, LawfulCollection.tryTake_eq_none.mp he] at hpos
      exact absurd hpos (Nat.lt_irrefl 0)
    | some e => exact ⟨e.1, rfl⟩
  | tryTakeBulk r k =>
    have hpos : 0 < size b.container := hroom
    have hlen := takeUpTo_length (m := .take) rfl (fun h => Moves.take h)
      (fun h => LawfulCollection.tryTake_eq_none.mp h) k b.container
    refine ⟨_, rfl, hlen, fun hk => ?_⟩
    refine List.length_pos_iff.mp ?_
    omega
  | tryTakePrio p r =>
    have hpos : 0 < size b.container := hroom
    show Contract n _ _ (tryTakePrioTimed p pick b).status (tryTakePrioTimed p pick b).moves
    unfold tryTakePrioTimed
    cases he : tryTakePrio p b.container with
    | none =>
      rw [LawfulCollection.size_eq, LawfulCollection.tryTakePrio_eq_none.mp he] at hpos
      exact absurd hpos (Nat.lt_irrefl 0)
    | some e => exact ⟨e.1, rfl⟩
  | tryTakePrioBulk p r k =>
    have hpos : 0 < size b.container := hroom
    have hlen := takeUpTo_length (m := .takePrio) rfl (fun h => Moves.takePrio p h)
      (fun h => LawfulCollection.tryTakePrio_eq_none.mp h) k b.container
    refine ⟨_, rfl, hlen, fun hk => ?_⟩
    refine List.length_pos_iff.mp ?_
    omega

/-- A history in which every call keeps its promise. -/
inductive Accounted (n : Nat) : List (Event T P Tid) → Prop
  | nil : Accounted n []
  | call {h : List (Event T P Tid)} {t : Tid} {c : Timed T P}
    {status : BlockingCollectionStatus} {ms : List (Move × T)} (hh : Accounted n h)
    (hc : Contract n (present h) c status ms) :
    Accounted n (h ++ (ms.map (fun e => .moved t e.1 e.2) ++ [.returned t c status]))
  | flush {h : List (Event T P Tid)} {t : Tid} (xs : List T) (hh : Accounted n h) :
    Accounted n (h ++ xs.map (.flushed t))

theorem settle_accounted {n : Nat} (t pick : Tid) {c : Timed T P} {w : Wait}
    {s : System C T P Tid gen} (h : Fits n s.collection) (ha : Accounted n s.history)
    (hpresent : size s.collection.container = present s.history)
    (hw : ∀ status, w = .done status →
      (status = .ok → supplied c.adds s.collection = true) ∧ status ≠ .internalError ∧
        status ≠ .invalidIterators) :
    Accounted n (s.settle t pick c w).history := by
  cases w using Wait.ends with
  | sleep => exact ha
  | ok => exact ha.call (hpresent ▸ perform_contract h pick c ((hw _ rfl).1 rfl))
  | fails status hs =>
    rw [settle_fails t pick c hs]
    have hnone : Contract n (present s.history) c status [] := by
      obtain ⟨-, hinternal, hinvalid⟩ := hw _ rfl
      cases status with
      | ok => exact absurd rfl hs
      | internalError => exact absurd rfl hinternal
      | invalidIterators => exact absurd rfl hinvalid
      | addingCompleted | timedOut | notActivated | completed | completeAddingConcurrent =>
        exact rfl
    exact ha.call hnone

theorem step_accounted {n : Nat} {l : Label T P Tid} {s s' : System C T P Tid gen}
    (h : Kept n s) (ha : Accounted n s.history)
    (hpresent : size s.collection.container = present s.history)
    (hstep : System.step l s = .ok s') : Accounted n s'.history := by
  cases step_cases hstep with
  | @none t pick c s hp hc =>
    suffices hzero : Contract n (present s.history) c .ok [] from ha.call hzero
    -- the count is zero
    cases c with
    | tryTakeBulk r k =>
      cases k with
      | zero => exact ⟨[], rfl, (Nat.zero_min _).symm, fun h => absurd rfl h⟩
      | succ k => cases hc
    | tryTakePrioBulk p r k =>
      cases k with
      | zero => exact ⟨[], rfl, (Nat.zero_min _).symm, fun h => absurd rfl h⟩
      | succ k => cases hc
    | _ => cases hc
  | timed hp hc => exact settle_accounted _ _ h.fits ha hpresent fun _ => enter_done
  | @control t pick c s hp hc =>
    cases c with
    | flush => exact ha.flush _
    | _ => exact ha
  | @wake t pick timedOut c s hp ht =>
    have hfits := fits_unblock h.fits t timedOut c
    have hpresent' : size (unblock t timedOut c s.collection).container = present s.history := by
      rw [unblock_container]
      exact hpresent
    exact settle_accounted t pick
      (s := { s with collection := unblock t timedOut c s.collection }) hfits ha hpresent'
      fun _ => goOn_done

/-- **Every call keeps its promise in every run.** -/
theorem run_accounted {n : Nat} {ls : List (Label T P Tid)} {s : System C T P Tid gen}
    (hrun : run System.step ls (.init n) = .ok s) : Accounted n s.history := by
  let Inv (s : System C T P Tid gen) : Prop := Kept n s ∧ Accounted n s.history ∧
    Trace (bounded n : C) (moves s.history) s.collection.container
  have hinv : ∀ l (s s' : System C T P Tid gen), Inv s → System.step l s = .ok s' → Inv s' := by
    rintro l s s' ⟨hkept, hacc, htrace⟩ hstep
    obtain ⟨es, hhistory, hes⟩ := step_happened hstep
    refine ⟨step_kept hkept hstep, step_accounted hkept hacc htrace.size_eq_present hstep, ?_⟩
    rw [hhistory, moves_append]
    exact htrace.append hes
  exact (run_invariant hinv ⟨Kept.init n, Accounted.nil, Trace.nil _⟩ hrun).2.1

theorem run_accounted_handover : ∃ s : QueueSystem Nat Nat,
    run System.step handover (.init 2) = .ok s ∧ Accounted 2 s.history := by
  have hrun : run System.step handover (.init 2 : QueueSystem Nat Nat) = .ok _ := rfl
  exact ⟨_, hrun, run_accounted hrun⟩

end BstGenerator.Blocking
