import BstGenerator.Blocking.ConditionVariable
import Mathlib.Data.List.Perm.Subperm

/-!
# The throttled signals

What the counters of a condition variable mean, and why leaving out signals is safe.

- `CountsAttached`: the counters count the attached threads, and no more of them are active
  than there are. Every operation keeps this (`Touch.countsAttached`).
- `Waits`: which threads are in a `wait`.
- `Throttled`: when only attached threads sleep here, the threads counted as active and the
  threads asleep are together no more than the threads attached. Every operation keeps this
  (`Touch.throttled`), but a `wait_for` that reports a time-out after it was notified does
  not.
- `Throttled.signal_wakes`: so a signal given while some threads are attached leaves at
  least one of them awake, if it is given by a strategy that signals when no worker is
  active.
-/

namespace BstGenerator.Blocking.ConditionVariable

variable {Tid : Type} [DecidableEq Tid] {σ : SignalStrategy}
  {v v' : ConditionVariable Tid σ} {t : Tid} {sleeps : Bool}

/-! ## The threads that wait -/

/-- The threads in a `wait` are those `w` holds of, each once. -/
structure Waits (v : ConditionVariable Tid σ) (w : Tid → Prop) : Prop where
  nodup : v.waiting.Nodup
  iff (t : Tid) : t ∈ v.waiting ↔ w t

/-- A signal keeps who waits. -/
theorem signal_waiting (pick : Tid) (v : ConditionVariable Tid σ) :
    (v.signal pick).waiting.Perm v.waiting := by
  unfold signal
  split_ifs
  · exact notifyOne_waiting ..
  · exact notifyOne_waiting ..
  · exact List.Perm.refl _

/-- A detach keeps who waits, even if it notifies somebody. -/
theorem detach_waiting (t pick : Tid) (v : ConditionVariable Tid σ) :
    (v.detach t pick).waiting.Perm v.waiting := by
  unfold detach
  by_cases ht : t ∈ v.threadId
  · simp only [ht, if_true]
    split
    · exact notifyOne_waiting ..
    · exact List.Perm.refl _
  · simp only [ht, if_false]
    split
    · exact notifyOne_waiting ..
    · exact List.Perm.refl _

theorem attach_waiting (t : Tid) (v : ConditionVariable Tid σ) :
    (v.attach t).waiting = v.waiting := by
  unfold attach
  split <;> rfl

omit [DecidableEq Tid] in
/-- A broadcast keeps who waits: its threads are in a `wait` till they get the lock. -/
theorem broadcast_waiting (v : ConditionVariable Tid σ) : v.broadcast.waiting = v.waiting := by
  unfold broadcast
  split <;> rfl

omit [DecidableEq Tid] in
/-- Nor does it attach or detach anybody. -/
theorem broadcast_threadId (v : ConditionVariable Tid σ) : v.broadcast.threadId = v.threadId := by
  unfold broadcast
  split <;> rfl

/-- So only going to sleep adds to those who wait, and it adds its own thread. -/
theorem Touch.waiting (h : Touch t sleeps v v') :
    v'.waiting.Perm (if sleeps then t :: v.waiting else v.waiting) := by
  cases h with
  | same => exact List.Perm.refl _
  | size => exact List.Perm.refl _
  | signal n pick => exact signal_waiting pick (v.size n)
  | broadcast => rw [broadcast_waiting, if_neg Bool.false_ne_true]
  | attach => rw [attach_waiting, if_neg Bool.false_ne_true]
  | detach pick => exact detach_waiting t pick v
  | wait => exact List.Perm.refl _

/-- Who waits after an operation, if its thread did not wait before. -/
theorem Touch.waits {w : Tid → Prop} (h : Touch t sleeps v v') (hv : Waits v w) (ht : ¬ w t) :
    Waits v' fun u => (u = t ∧ sleeps = true) ∨ w u := by
  have hperm := h.waiting
  have hnot : t ∉ v.waiting := fun hmem => ht ((hv.iff t).mp hmem)
  cases sleeps with
  | false =>
    rw [if_neg Bool.false_ne_true] at hperm
    refine ⟨hperm.nodup_iff.mpr hv.nodup, ?_⟩
    intro u
    rw [hperm.mem_iff, hv.iff u]
    simp
  | true =>
    rw [if_pos rfl] at hperm
    refine ⟨hperm.nodup_iff.mpr (List.nodup_cons.mpr ⟨hnot, hv.nodup⟩), ?_⟩
    intro u
    rw [hperm.mem_iff, List.mem_cons, hv.iff u]
    simp

/-- A thread that goes on is gone from those that sleep. -/
theorem resume_asleep (t : Tid) (timedOut : Bool) (v : ConditionVariable Tid σ) :
    (v.resume t timedOut).asleep = v.asleep.erase t := by
  cases timedOut <;> rfl

theorem resume_woken (t : Tid) (timedOut : Bool) (v : ConditionVariable Tid σ) :
    (v.resume t timedOut).woken = v.woken.erase t := by
  cases timedOut <;> rfl

/-- When a thread goes on, the others wait as before. -/
theorem Waits.resume {w : Tid → Prop} (hv : Waits v w) (t : Tid) (timedOut : Bool) :
    Waits (v.resume t timedOut) fun u => u ≠ t ∧ w u := by
  obtain ⟨hasleep, hwoken, hdisj⟩ := List.nodup_append.mp hv.nodup
  have heq : (v.resume t timedOut).waiting = v.asleep.erase t ++ v.woken.erase t := by
    rw [ConditionVariable.waiting, resume_asleep, resume_woken]
  constructor
  · rw [heq]
    refine List.nodup_append.mpr ⟨hasleep.erase t, hwoken.erase t, ?_⟩
    intro a ha b hb
    exact hdisj a (List.mem_of_mem_erase ha) b (List.mem_of_mem_erase hb)
  · intro u
    rw [heq, List.mem_append, hasleep.mem_erase_iff, hwoken.mem_erase_iff, ← hv.iff u,
      ConditionVariable.waiting, List.mem_append]
    tauto

/-- No operation changes the bound that the strategy is told. -/
theorem Touch.boundedCapacity (h : Touch t sleeps v v') :
    v'.boundedCapacity = v.boundedCapacity := by
  cases h with
  | same | size | wait => rfl
  | signal n pick =>
    unfold ConditionVariable.signal
    split_ifs
    · exact notifyOne_boundedCapacity ..
    · exact notifyOne_boundedCapacity ..
    · rfl
  | broadcast =>
    unfold ConditionVariable.broadcast
    split <;> rfl
  | attach =>
    unfold ConditionVariable.attach
    split <;> rfl
  | detach pick =>
    unfold ConditionVariable.detach
    by_cases ht : t ∈ v.threadId
    · simp only [ht, if_true]
      split
      · exact notifyOne_boundedCapacity ..
      · rfl
    · simp only [ht, if_false]
      split
      · exact notifyOne_boundedCapacity ..
      · rfl

theorem resume_boundedCapacity (t : Tid) (timedOut : Bool) (v : ConditionVariable Tid σ) :
    (v.resume t timedOut).boundedCapacity = v.boundedCapacity := by
  cases timedOut <;> rfl

/-- Where nobody sleeps, only going to sleep changes that. -/
theorem Touch.asleep_eq_nil (h : Touch t false v v') (hv : v.asleep = []) : v'.asleep = [] := by
  have hnotify : ∀ (u : ConditionVariable Tid σ) (pick : Tid), u.asleep = [] →
      (u.notifyOne pick).asleep = [] := by
    intro u pick hu
    rw [← List.length_eq_zero_iff, notifyOne_asleep_length, hu]
    rfl
  cases h with
  | same | size => exact hv
  | signal n pick =>
    unfold ConditionVariable.signal
    split_ifs
    · exact hnotify _ pick hv
    · exact hnotify _ pick hv
    · exact hv
  | broadcast => rfl
  | attach =>
    unfold ConditionVariable.attach
    split <;> exact hv
  | detach pick =>
    unfold ConditionVariable.detach
    by_cases ht : t ∈ v.threadId
    · simp only [ht, if_true]
      split
      · exact hnotify _ pick hv
      · exact hv
    · simp only [ht, if_false]
      split
      · exact hnotify _ pick hv
      · exact hv

/-! ## The counters -/

/-- `total_workers_` counts the attached threads; no more of them are active. -/
structure CountsAttached (v : ConditionVariable Tid σ) : Prop where
  total : v.totalWorkers = v.threadId.length
  nodup : v.threadId.Nodup
  active : v.activeWorkers ≤ v.totalWorkers

omit [DecidableEq Tid] in
theorem CountsAttached.init (n : Nat) : CountsAttached (.init n : ConditionVariable Tid σ) :=
  ⟨rfl, List.nodup_nil, Nat.le_refl 0⟩

theorem CountsAttached.notifyOne (hv : CountsAttached v) (pick : Tid) :
    CountsAttached (v.notifyOne pick) := by
  refine ⟨?_, ?_, ?_⟩
  · rw [notifyOne_totalWorkers, notifyOne_threadId, hv.total]
  · rw [notifyOne_threadId]
    exact hv.nodup
  · rw [notifyOne_activeWorkers, notifyOne_totalWorkers]
    exact hv.active

omit [DecidableEq Tid] in
/-- The number of active workers is cut off at that of attached ones. -/
theorem CountsAttached.incrementActive (hv : CountsAttached v) :
    CountsAttached v.incrementActive := by
  refine ⟨hv.total, hv.nodup, ?_⟩
  rw [incrementActive_activeWorkers]
  exact Nat.min_le_right ..

omit [DecidableEq Tid] in
theorem CountsAttached.decrementActive (hv : CountsAttached v) :
    CountsAttached v.decrementActive := by
  refine ⟨hv.total, hv.nodup, ?_⟩
  rw [decrementActive_activeWorkers]
  exact Nat.le_trans (Nat.sub_le ..) hv.active

/-- A thread that attaches itself twice is counted once. -/
theorem CountsAttached.attach (hv : CountsAttached v) (t : Tid) : CountsAttached (v.attach t) := by
  unfold ConditionVariable.attach
  split
  · exact hv
  next ht =>
    refine CountsAttached.incrementActive ⟨?_, List.nodup_cons.mpr ⟨ht, hv.nodup⟩, ?_⟩
    · exact congrArg (· + 1) hv.total
    · exact Nat.le_succ_of_le hv.active

/-- The first half of `detach`: the thread and its count are gone. -/
theorem CountsAttached.remove (hv : CountsAttached v) (ht : t ∈ v.threadId) :
    CountsAttached (v.removeThread t).decrementTotal.decrementActive := by
  refine ⟨?_, hv.nodup.erase t, ?_⟩
  · show (v.removeThread t).decrementTotal.totalWorkers = _
    rw [decrementTotal_totalWorkers]
    show v.totalWorkers - 1 = (v.threadId.erase t).length
    rw [List.length_erase_of_mem ht, hv.total]
  · rw [decrementActive_activeWorkers]
    show v.activeWorkers - 1 ≤ (v.removeThread t).decrementTotal.totalWorkers
    rw [decrementTotal_totalWorkers]
    exact Nat.sub_le_sub_right hv.active 1

/-- A thread that is not attached can detach itself: then the counts of attached threads are
kept, though one more worker may be counted as active. -/
theorem CountsAttached.detach (hv : CountsAttached v) (t pick : Tid) :
    CountsAttached (v.detach t pick) := by
  unfold ConditionVariable.detach
  by_cases ht : t ∈ v.threadId
  · simp only [ht, if_true]
    split
    · exact (hv.remove ht).incrementActive.notifyOne pick
    · exact hv.remove ht
  · simp only [ht, if_false]
    split
    · exact hv.incrementActive.notifyOne pick
    · exact hv

/-- A signal may count one more worker as active, but no more than are attached. -/
theorem CountsAttached.signal (hv : CountsAttached v) (pick : Tid) :
    CountsAttached (v.signal pick) := by
  unfold ConditionVariable.signal
  split_ifs
  · exact hv.notifyOne pick
  · exact hv.incrementActive.notifyOne pick
  · exact hv

omit [DecidableEq Tid] in
/-- A broadcast counts all attached threads as active. -/
theorem CountsAttached.broadcast (hv : CountsAttached v) : CountsAttached v.broadcast := by
  unfold ConditionVariable.broadcast
  split
  · refine ⟨hv.total, hv.nodup, ?_⟩
    show (if v.totalWorkers > v.totalWorkers then v.totalWorkers else v.totalWorkers) ≤ _
    rw [ite_self]
    exact Nat.le_refl _
  · exact ⟨hv.total, hv.nodup, hv.active⟩

/-- **The counters count the attached threads** after every operation. -/
theorem Touch.countsAttached (h : Touch t sleeps v v') (hv : CountsAttached v) :
    CountsAttached v' := by
  cases h with
  | same => exact hv
  | size n => exact ⟨hv.total, hv.nodup, hv.active⟩
  | signal n pick =>
    exact CountsAttached.signal (v := v.size n) ⟨hv.total, hv.nodup, hv.active⟩ pick
  | broadcast => exact hv.broadcast
  | attach => exact hv.attach t
  | detach pick => exact hv.detach t pick
  | wait => exact ⟨hv.total, hv.nodup, hv.decrementActive.active⟩

/-- They do when a thread goes on, too. -/
theorem CountsAttached.resume (hv : CountsAttached v) (t : Tid) (timedOut : Bool) :
    CountsAttached (v.resume t timedOut) := by
  cases timedOut with
  | false => exact ⟨hv.total, hv.nodup, hv.active⟩
  | true => exact CountsAttached.incrementActive (v := v.leave t) ⟨hv.total, hv.nodup, hv.active⟩

/-! ## With nobody attached -/

theorem signal_threadId (pick : Tid) (v : ConditionVariable Tid σ) :
    (v.signal pick).threadId = v.threadId := by
  unfold ConditionVariable.signal
  split_ifs
  · exact notifyOne_threadId ..
  · exact notifyOne_threadId ..
  · rfl

/-- With nobody attached every signal is given: a thread that slept is notified. -/
theorem signal_notifies (pick : Tid) (hv : v.totalWorkers = 0) (h : (v.signal pick).asleep ≠ []) :
    v.asleep ≠ [] ∧ (v.signal pick).woken.length = v.woken.length + 1 := by
  unfold ConditionVariable.signal at h ⊢
  rw [if_pos hv] at h ⊢
  rcases notifyOne_eq v pick with ⟨heq, hnil⟩ | ⟨u, hu, heq⟩
  · rw [heq] at h
    exact absurd hnil h
  · rw [heq]
    exact ⟨List.ne_nil_of_mem hu, rfl⟩

/-! ## Throttling -/

/-- Only attached threads wait, and those active and those asleep are together no more than
those attached. -/
structure Throttled (v : ConditionVariable Tid σ) : Prop where
  attached (t : Tid) (ht : t ∈ v.waiting) : t ∈ v.threadId
  active : v.activeWorkers + v.asleep.length ≤ v.totalWorkers

omit [DecidableEq Tid] in
theorem Throttled.init (n : Nat) : Throttled (.init n : ConditionVariable Tid σ) :=
  ⟨fun _ ht => absurd ht List.not_mem_nil, Nat.le_refl 0⟩

/-- To notify a thread can only make fewer threads sleep. -/
theorem Throttled.notifyOne (hv : Throttled v) (pick : Tid) : Throttled (v.notifyOne pick) := by
  constructor
  · intro t ht
    rw [notifyOne_threadId]
    exact hv.attached t ((notifyOne_waiting v pick).mem_iff.mp ht)
  · rw [notifyOne_activeWorkers, notifyOne_asleep_length, notifyOne_totalWorkers]
    have := hv.active
    omega

/-- A signal that is given makes up for the worker it counts as active. -/
theorem Throttled.wakeOne (hv : Throttled v) (pick : Tid) :
    Throttled (v.incrementActive.notifyOne pick) := by
  constructor
  · intro t ht
    rw [notifyOne_threadId]
    exact hv.attached t ((notifyOne_waiting v.incrementActive pick).mem_iff.mp ht)
  · rw [notifyOne_activeWorkers, notifyOne_asleep_length, notifyOne_totalWorkers,
      incrementActive_activeWorkers]
    show min (v.activeWorkers + 1) v.totalWorkers + (v.asleep.length - 1) ≤ v.totalWorkers
    have := hv.active
    omega

/-- Whether the strategy gives the signal or leaves it out, the counters stay throttled. -/
theorem Throttled.signal (hv : Throttled v) (pick : Tid) : Throttled (v.signal pick) := by
  unfold ConditionVariable.signal
  split_ifs
  · exact hv.notifyOne pick
  · exact hv.wakeOne pick
  · exact hv

omit [DecidableEq Tid] in
/-- Threads that are attached and wait, without `t`, are fewer than those attached. -/
theorem Throttled.asleep_lt (hv : Throttled v) (hc : CountsAttached v) (hw : v.waiting.Nodup)
    (ht : t ∈ v.threadId) (hnot : t ∉ v.waiting) : v.asleep.length < v.totalWorkers := by
  have hnodup : (t :: v.asleep).Nodup :=
    List.nodup_cons.mpr ⟨fun h => hnot (List.mem_append_left _ h), (List.nodup_append.mp hw).1⟩
  have hsub : (t :: v.asleep) ⊆ v.threadId := by
    intro u hu
    rcases List.mem_cons.mp hu with rfl | hu
    · exact ht
    · exact hv.attached u (List.mem_append_left _ hu)
  rw [hc.total]
  exact (List.subperm_of_subset hnodup hsub).length_le

/-- A thread that detaches itself does not sleep, so its place can be taken away even where no
worker is counted as active. -/
theorem Throttled.remove (hv : Throttled v) (hc : CountsAttached v) (hw : v.waiting.Nodup)
    (ht : t ∈ v.threadId) (hnot : t ∉ v.waiting) :
    Throttled (v.removeThread t).decrementTotal.decrementActive := by
  constructor
  · intro u hu
    have hne : u ≠ t := by
      rintro rfl
      exact hnot hu
    exact (List.mem_erase_of_ne hne).mpr (hv.attached u hu)
  · rw [decrementActive_activeWorkers]
    show v.activeWorkers - 1 + v.asleep.length ≤
      (v.removeThread t).decrementTotal.totalWorkers
    rw [decrementTotal_totalWorkers]
    show v.activeWorkers - 1 + v.asleep.length ≤ v.totalWorkers - 1
    have := hv.active
    have := hv.asleep_lt hc hw ht hnot
    omega

/-- **The counters stay throttled** when only an attached thread goes to sleep. -/
theorem Touch.throttled (h : Touch t sleeps v v') (hv : Throttled v) (hc : CountsAttached v)
    (hw : v.waiting.Nodup) (hnot : t ∉ v.waiting) (ht : sleeps = true → t ∈ v.threadId) :
    Throttled v' := by
  cases h with
  | same => exact hv
  | size n => exact ⟨hv.attached, hv.active⟩
  | signal n pick => exact Throttled.signal (v := v.size n) ⟨hv.attached, hv.active⟩ pick
  | broadcast =>
    constructor
    · intro u hu
      rw [broadcast_waiting] at hu
      rw [broadcast_threadId]
      exact hv.attached u hu
    · have hasleep : v.broadcast.asleep.length = 0 := rfl
      have hb := hc.broadcast.active
      omega
  | attach =>
    unfold ConditionVariable.attach
    split
    · exact hv
    · refine ⟨fun u hu => List.mem_cons_of_mem t (hv.attached u hu), ?_⟩
      rw [incrementActive_activeWorkers]
      show min (v.activeWorkers + 1) (v.totalWorkers + 1) + v.asleep.length ≤ v.totalWorkers + 1
      have := hv.active
      omega
  | detach pick =>
    unfold ConditionVariable.detach
    by_cases hmem : t ∈ v.threadId
    · simp only [hmem, if_true]
      split
      · exact (hv.remove hc hw hmem hnot).wakeOne pick
      · exact hv.remove hc hw hmem hnot
    · simp only [hmem, if_false]
      split
      · exact hv.wakeOne pick
      · exact hv
  | wait =>
    have hmem := ht rfl
    constructor
    · intro u hu
      rcases List.mem_cons.mp hu with rfl | hu
      · exact hmem
      · exact hv.attached u hu
    · show v.decrementActive.activeWorkers + (v.asleep.length + 1) ≤ v.totalWorkers
      rw [decrementActive_activeWorkers]
      have := hv.active
      have := hv.asleep_lt hc hw hmem hnot
      omega

/-- A thread that reports a time-out is counted as active again. That is right only if it was
not notified: the signal has counted a thread that was. -/
theorem Throttled.resume (hv : Throttled v) (t : Tid) (timedOut : Bool)
    (ht : timedOut = true → t ∈ v.asleep) : Throttled (v.resume t timedOut) := by
  have hatt : ∀ u ∈ (v.resume t timedOut).waiting, u ∈ v.threadId := by
    intro u hu
    rw [ConditionVariable.waiting, resume_asleep, resume_woken] at hu
    refine hv.attached u ?_
    rcases List.mem_append.mp hu with hu | hu
    · exact List.mem_append_left _ (List.mem_of_mem_erase hu)
    · exact List.mem_append_right _ (List.mem_of_mem_erase hu)
  have hactive := hv.active
  cases timedOut with
  | false =>
    refine ⟨hatt, ?_⟩
    show v.activeWorkers + (v.asleep.erase t).length ≤ v.totalWorkers
    have : (v.asleep.erase t).length ≤ v.asleep.length := List.length_erase_le
    omega
  | true =>
    refine ⟨hatt, ?_⟩
    rw [resume_asleep]
    show (v.leave t).incrementActive.activeWorkers + (v.asleep.erase t).length ≤ v.totalWorkers
    rw [incrementActive_activeWorkers, List.length_erase_of_mem (ht rfl)]
    show min (v.activeWorkers + 1) v.totalWorkers + (v.asleep.length - 1) ≤ v.totalWorkers
    omega

/-! ## Somebody is awake -/

/-- Not all of the attached threads sleep. -/
def SomeAwake (v : ConditionVariable Tid σ) : Prop :=
  v.totalWorkers ≠ 0 → v.asleep.length < v.totalWorkers

/-- The strategy signals when no worker is active. -/
def Prompt (σ : SignalStrategy) : Prop := ∀ total count capacity, σ 0 total count capacity = true

/-- The standard strategies are prompt, whatever number of items they are made for. -/
theorem prompt_notEmpty (n : Nat) : Prompt (notEmptySignalStrategy n) := fun _ _ _ => rfl

theorem prompt_notFull (n : Nat) : Prompt (notFullSignalStrategy n) := fun _ _ _ => rfl

/-- After a signal that is given, fewer threads sleep than are attached. -/
theorem Throttled.wakeOne_someAwake (hv : Throttled v) (pick : Tid) :
    SomeAwake (v.incrementActive.notifyOne pick) := by
  intro hne
  rw [notifyOne_totalWorkers] at hne ⊢
  rw [notifyOne_asleep_length]
  show v.asleep.length - 1 < v.totalWorkers
  have hpos : v.totalWorkers ≠ 0 := hne
  have := hv.active
  omega

omit [DecidableEq Tid] in
/-- Where a worker is counted as active, there is one that does not sleep. -/
theorem Throttled.someAwake (hv : Throttled v) (hactive : v.activeWorkers ≠ 0) : SomeAwake v := by
  intro _
  have := hv.active
  omega

/-- **A signal leaves an attached thread awake**, whether the strategy gives it or not. -/
theorem Throttled.signal_wakes (hσ : Prompt σ) (hv : Throttled v) (n : Nat) (pick : Tid) :
    SomeAwake ((v.size n).signal pick) := by
  have hsize : Throttled (v.size n) := ⟨hv.attached, hv.active⟩
  unfold ConditionVariable.signal
  split_ifs with htotal hsig
  · intro hne
    rw [notifyOne_totalWorkers] at hne
    exact absurd htotal hne
  · exact hsize.wakeOne_someAwake pick
  · refine hsize.someAwake ?_
    intro hzero
    rw [hzero] at hsig
    exact hsig (hσ _ _ _)

/-- An operation after which the thread does not sleep keeps somebody awake. -/
theorem Touch.someAwake (hσ : Prompt σ) (h : Touch t false v v') (hv : Throttled v)
    (hc : CountsAttached v) (hw : v.waiting.Nodup) (hnot : t ∉ v.waiting) (ha : SomeAwake v) :
    SomeAwake v' := by
  cases h with
  | same => exact ha
  | size n => exact ha
  | signal n pick => exact hv.signal_wakes hσ n pick
  | broadcast =>
    intro hne
    exact Nat.pos_of_ne_zero hne
  | attach =>
    unfold ConditionVariable.attach
    split
    · exact ha
    · intro _
      show v.asleep.length < v.totalWorkers + 1
      have := hv.active
      omega
  | detach pick =>
    unfold ConditionVariable.detach
    by_cases hmem : t ∈ v.threadId
    · simp only [hmem, if_true]
      have hrem := hv.remove hc hw hmem hnot
      split
      · exact hrem.wakeOne_someAwake pick
      next hcond =>
        intro hne
        refine hrem.someAwake ?_ hne
        intro hzero
        exact hcond ⟨Nat.pos_of_ne_zero hne, hzero⟩
    · simp only [hmem, if_false]
      split
      · exact hv.wakeOne_someAwake pick
      · exact ha

/-- A thread that goes on makes one less sleep. -/
theorem SomeAwake.resume (ha : SomeAwake v) (t : Tid) (timedOut : Bool) :
    SomeAwake (v.resume t timedOut) := by
  intro hne
  rw [resume_asleep]
  have hle : (v.asleep.erase t).length ≤ v.asleep.length := List.length_erase_le
  cases timedOut with
  | false => exact Nat.lt_of_le_of_lt hle (ha hne)
  | true => exact Nat.lt_of_le_of_lt hle (ha hne)

/-- If not all of the attached threads sleep, one of them does not. -/
theorem SomeAwake.exists (ha : SomeAwake v) (hc : CountsAttached v) (hne : v.threadId ≠ []) :
    ∃ t ∈ v.threadId, t ∉ v.asleep := by
  by_contra hall
  push Not at hall
  have hlen : v.threadId.length ≤ v.asleep.length :=
    (List.subperm_of_subset hc.nodup hall).length_le
  have hpos : 0 < v.threadId.length := List.length_pos_iff.mpr hne
  have := ha (by rw [hc.total]; omega)
  rw [hc.total] at this
  omega

end BstGenerator.Blocking.ConditionVariable
