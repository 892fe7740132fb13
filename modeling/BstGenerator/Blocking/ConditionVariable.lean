import Mathlib.Algebra.Group.Nat.Defs
import Mathlib.Data.List.Nodup

/-!
# The condition variables of `BlockingCollection.h`

`ConditionVariable` (BlockingCollection.h:75–249) wraps an operating system condition
variable. It counts the threads attached to it and those of them that are active, and a
strategy (266–308) uses the counts to leave out signals.

The operating system's variable is two lists: the threads asleep on it, and those it has
woken that do not hold the lock yet. `notify_one` moves a thread of the first list to the
second, and which one is a choice of the system; a thread can also be woken without a
signal, by time or spuriously, from either list.

`Touch` is what a critical section does to a condition variable.
-/

namespace BstGenerator.Blocking

/-- `should_signal(active_workers, total_workers, item_count, capacity)`. -/
abbrev SignalStrategy := Nat → Nat → Nat → Nat → Bool

/-- Subtraction on `std::size_t`. -/
def subSize (a b : Nat) : Nat := (a + (2 ^ 64 - b)) % 2 ^ 64

/-- `NotEmptySignalStrategy<ItemsPerThread>`. -/
def notEmptySignalStrategy (itemsPerThread : Nat) : SignalStrategy :=
  fun active total count _ =>
    active = 0 || (active < total && itemsPerThread < count / active)

/-- `NotFullSignalStrategy<ItemsPerThread>`. -/
def notFullSignalStrategy (itemsPerThread : Nat) : SignalStrategy :=
  fun active total count capacity =>
    active = 0 || (active < total && itemsPerThread < subSize capacity count / active)

/-- The two strategies a `ConditionVariableGenerator` (322–337) is given. -/
structure ConditionVariableGenerator where
  notFull : SignalStrategy
  notEmpty : SignalStrategy

/-- The generator all aliases use: 16 items for each thread. -/
def stdConditionVariableGenerator : ConditionVariableGenerator :=
  ⟨notFullSignalStrategy 16, notEmptySignalStrategy 16⟩

/-- The four counters, the ids of the attached threads, and the threads that sleep on the
system's variable or have been notified and do not hold the lock yet. -/
structure ConditionVariable (Tid : Type) (strategy : SignalStrategy) where
  totalWorkers : Nat
  activeWorkers : Nat
  boundedCapacity : Nat
  itemCount : Nat
  /-- `container_`: the ids of the attached threads. -/
  threadId : List Tid
  asleep : List Tid
  woken : List Tid
  deriving DecidableEq, Repr

namespace ConditionVariable

variable {Tid : Type} [DecidableEq Tid] {σ : SignalStrategy}

/-- The constructor, followed by `bounded_capacity(capacity)`. -/
def init (capacity : Nat) : ConditionVariable Tid σ :=
  ⟨0, 0, capacity, 0, [], [], []⟩

/-! ## The operating system's variable -/

/-- `notify_one`: `pick` is the thread the system prefers, if it is asleep. -/
def notifyOne (pick : Tid) (v : ConditionVariable Tid σ) : ConditionVariable Tid σ :=
  match v.asleep with
  | [] => v
  | t :: _ =>
    let u := if pick ∈ v.asleep then pick else t
    { v with asleep := v.asleep.erase u, woken := u :: v.woken }

/-- `notify_all`. -/
def notifyAll (v : ConditionVariable Tid σ) : ConditionVariable Tid σ :=
  { v with asleep := [], woken := v.asleep ++ v.woken }

/-- Thread `t` goes to sleep. -/
def sleep (t : Tid) (v : ConditionVariable Tid σ) : ConditionVariable Tid σ :=
  { v with asleep := t :: v.asleep }

/-- Thread `t` holds the lock again. -/
def leave (t : Tid) (v : ConditionVariable Tid σ) : ConditionVariable Tid σ :=
  { v with asleep := v.asleep.erase t, woken := v.woken.erase t }

/-! ## The thread container (350–385) -/

def addThread (t : Tid) (v : ConditionVariable Tid σ) : ConditionVariable Tid σ :=
  { v with threadId := t :: v.threadId }

def removeThread (t : Tid) (v : ConditionVariable Tid σ) : ConditionVariable Tid σ :=
  { v with threadId := v.threadId.erase t }

/-! ## The counters (211–236) -/

/-- `increment_active`: there are never more active workers than attached ones. -/
def incrementActive (v : ConditionVariable Tid σ) : ConditionVariable Tid σ :=
  { v with activeWorkers :=
      if v.activeWorkers + 1 > v.totalWorkers then v.totalWorkers else v.activeWorkers + 1 }

def decrementActive (v : ConditionVariable Tid σ) : ConditionVariable Tid σ :=
  { v with activeWorkers := if v.activeWorkers > 0 then v.activeWorkers - 1 else 0 }

def incrementTotal (v : ConditionVariable Tid σ) : ConditionVariable Tid σ :=
  { v with totalWorkers := v.totalWorkers + 1 }

def decrementTotal (v : ConditionVariable Tid σ) : ConditionVariable Tid σ :=
  { v with totalWorkers := if v.totalWorkers > 0 then v.totalWorkers - 1 else 0 }

def active (n : Nat) (v : ConditionVariable Tid σ) : ConditionVariable Tid σ :=
  { v with activeWorkers := if n > v.totalWorkers then v.totalWorkers else n }

/-- `size(count)`. -/
def size (count : Nat) (v : ConditionVariable Tid σ) : ConditionVariable Tid σ :=
  { v with itemCount := count }

/-! ## The member functions (125–207) -/

/-- `attach`, called by `t`: `add` succeeds if the thread is not in the container. -/
def attach (t : Tid) (v : ConditionVariable Tid σ) : ConditionVariable Tid σ :=
  if t ∈ v.threadId then
    v
  else
    (v.addThread t).incrementTotal.incrementActive

/-- `detach`, called by `t`. -/
def detach (t pick : Tid) (v : ConditionVariable Tid σ) : ConditionVariable Tid σ :=
  let v :=
    if t ∈ v.threadId then
      (v.removeThread t).decrementTotal.decrementActive
    else
      v
  if v.totalWorkers > 0 ∧ v.activeWorkers = 0 then v.incrementActive.notifyOne pick else v

/-- `signal`: without attached workers it is always given, and else the strategy decides. -/
def signal (pick : Tid) (v : ConditionVariable Tid σ) : ConditionVariable Tid σ :=
  if v.totalWorkers = 0 then
    v.notifyOne pick
  else if σ v.activeWorkers v.totalWorkers v.itemCount v.boundedCapacity then
    v.incrementActive.notifyOne pick
  else
    v

/-- `broadcast`: all attached workers are active then. -/
def broadcast (v : ConditionVariable Tid σ) : ConditionVariable Tid σ :=
  (if v.totalWorkers ≠ 0 then v.active v.totalWorkers else v).notifyAll

/-- `wait` and `wait_for`, up to where `t` sleeps. -/
def wait (t : Tid) (v : ConditionVariable Tid σ) : ConditionVariable Tid σ :=
  v.decrementActive.sleep t

/-- `wait` and `wait_for`, from where `t` holds the lock again. Only `wait_for` can time
out. -/
def resume (t : Tid) (timedOut : Bool) (v : ConditionVariable Tid σ) :
    ConditionVariable Tid σ :=
  if timedOut then (v.leave t).incrementActive else v.leave t

/-! ## What a critical section does -/

/-- What a critical section of `t` does to a condition variable after `t` has the lock;
the flag says whether `t` goes to sleep on it. -/
inductive Touch (t : Tid) :
    Bool → ConditionVariable Tid σ → ConditionVariable Tid σ → Prop
  | same (v : ConditionVariable Tid σ) : Touch t false v v
  | size (n : Nat) (v : ConditionVariable Tid σ) : Touch t false v (v.size n)
  | signal (n : Nat) (pick : Tid) (v : ConditionVariable Tid σ) :
    Touch t false v ((v.size n).signal pick)
  | broadcast (v : ConditionVariable Tid σ) : Touch t false v v.broadcast
  | attach (v : ConditionVariable Tid σ) : Touch t false v (v.attach t)
  | detach (pick : Tid) (v : ConditionVariable Tid σ) : Touch t false v (v.detach t pick)
  | wait (v : ConditionVariable Tid σ) : Touch t true v (v.wait t)

/-- The threads in a `wait` or `wait_for`. -/
def waiting (v : ConditionVariable Tid σ) : List Tid := v.asleep ++ v.woken

section Fields

variable (v : ConditionVariable Tid σ) (pick : Tid)

/-- What `notify_one` does: nothing where nobody sleeps, and else one of those that sleep is
notified. -/
theorem notifyOne_eq :
    notifyOne pick v = v ∧ v.asleep = [] ∨
      ∃ u ∈ v.asleep, notifyOne pick v =
        { v with asleep := v.asleep.erase u, woken := u :: v.woken } := by
  unfold notifyOne
  cases h : v.asleep with
  | nil => exact Or.inl ⟨rfl, rfl⟩
  | cons t rest =>
    refine Or.inr ⟨_, ?_, rfl⟩
    split
    · assumption
    · exact List.mem_cons_self ..

/-- To notify a thread is the system's affair: no counter changes by it. -/
@[simp] theorem notifyOne_totalWorkers : (notifyOne pick v).totalWorkers = v.totalWorkers := by
  rcases notifyOne_eq v pick with ⟨h, -⟩ | ⟨u, -, h⟩ <;> rw [h]

@[simp] theorem notifyOne_activeWorkers :
    (notifyOne pick v).activeWorkers = v.activeWorkers := by
  rcases notifyOne_eq v pick with ⟨h, -⟩ | ⟨u, -, h⟩ <;> rw [h]

@[simp] theorem notifyOne_threadId : (notifyOne pick v).threadId = v.threadId := by
  rcases notifyOne_eq v pick with ⟨h, -⟩ | ⟨u, -, h⟩ <;> rw [h]

@[simp] theorem notifyOne_itemCount : (notifyOne pick v).itemCount = v.itemCount := by
  rcases notifyOne_eq v pick with ⟨h, -⟩ | ⟨u, -, h⟩ <;> rw [h]

@[simp] theorem notifyOne_boundedCapacity :
    (notifyOne pick v).boundedCapacity = v.boundedCapacity := by
  rcases notifyOne_eq v pick with ⟨h, -⟩ | ⟨u, -, h⟩ <;> rw [h]

/-- One thread less sleeps, if any did. -/
theorem notifyOne_asleep_length :
    (notifyOne pick v).asleep.length = v.asleep.length - 1 := by
  rcases notifyOne_eq v pick with ⟨h, hnil⟩ | ⟨u, hu, h⟩
  · rw [h, hnil]
    rfl
  · rw [h]
    exact List.length_erase_of_mem hu

/-- A thread that is notified is in its `wait` still. -/
theorem notifyOne_waiting : (notifyOne pick v).waiting.Perm v.waiting := by
  rcases notifyOne_eq v pick with ⟨h, -⟩ | ⟨u, hu, h⟩
  · rw [h]
  · rw [h]
    show (v.asleep.erase u ++ u :: v.woken).Perm (v.asleep ++ v.woken)
    refine List.perm_middle.trans ?_
    exact (List.perm_cons_erase hu).symm.append_right v.woken

omit [DecidableEq Tid] in
/-- The counter, as arithmetic sees it. -/
theorem incrementActive_activeWorkers :
    (incrementActive v).activeWorkers = min (v.activeWorkers + 1) v.totalWorkers := by
  show (if v.activeWorkers + 1 > v.totalWorkers then v.totalWorkers else v.activeWorkers + 1) = _
  split <;> omega

omit [DecidableEq Tid] in
theorem decrementActive_activeWorkers :
    (decrementActive v).activeWorkers = v.activeWorkers - 1 := by
  show (if v.activeWorkers > 0 then v.activeWorkers - 1 else 0) = _
  split <;> omega

omit [DecidableEq Tid] in
theorem decrementTotal_totalWorkers :
    (decrementTotal v).totalWorkers = v.totalWorkers - 1 := by
  show (if v.totalWorkers > 0 then v.totalWorkers - 1 else 0) = _
  split <;> omega

end Fields

end ConditionVariable

end BstGenerator.Blocking
