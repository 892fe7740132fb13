import BstGenerator.Blocking.Container
import BstGenerator.Blocking.ConditionVariable
import BstGenerator.Machine.Run

/-!
# `BlockingCollection` and the threads that use it

A translation of `BlockingCollection` (BlockingCollection.h:577–1470) and of the calls
`PriorityBlockingCollection` adds to it (1688–1853).

Every member function holds `lock_` from its first access to the collection to its last,
and gives it up in between only where it waits. So a program with any number of threads is
a machine whose steps are these critical sections: a thread that is in no call makes one
(`Label.call`), or a thread that waits gets the lock back (`Label.wake`). Any thread can be
next; a run is any list of labels.

Conventions of the translation:

- `rel_time` is its `count()`: negative waits without a limit, zero does not wait.
- How long a wait takes is not modelled. A `wait_for` may time out whenever it gets the
  lock, also when it has been notified: what it reports is whether its time is up.
- The overloads for `const T&` and `T&&` are one function; moving a `T` keeps its value.
- `history` is what has happened, in the order of the critical sections. The code neither
  reads nor writes it.
-/

namespace BstGenerator.Blocking

open Machine

/-- `BlockingCollectionState`. After a pulse a call that begins is let through, and one that
has waited is not. -/
inductive BlockingCollectionState
  | activated
  | deactivated
  | pulsed
  deriving DecidableEq, Repr

/-- `BlockingCollectionStatus`, what a call returns. -/
inductive BlockingCollectionStatus
  | ok
  | addingCompleted
  | timedOut
  | notActivated
  | completed
  | invalidIterators
  | completeAddingConcurrent
  | internalError
  deriving DecidableEq, Repr

/-- The two condition variables have the strategies of the generator. -/
structure BlockingCollection (C Tid : Type) (gen : ConditionVariableGenerator) where
  state : BlockingCollectionState
  boundedCapacity : Nat
  isAddingCompleted : Bool
  notEmpty : ConditionVariable Tid gen.notEmpty
  notFull : ConditionVariable Tid gen.notFull
  container : C

/-- The calls that may wait, with their `rel_time`. -/
inductive Timed (T P : Type)
  | tryEmplaceTimed (relTime : Int) (item : T)
  | tryAddBulk (relTime : Int) (items : List T)
  | tryTake (relTime : Int)
  | tryTakeBulk (relTime : Int) (count : Nat)
  | tryTakePrio (p : P) (relTime : Int)
  | tryTakePrioBulk (p : P) (relTime : Int) (count : Nat)
  deriving DecidableEq, Repr

/-- The calls there are: those that may wait, and those that do not. -/
inductive Call (T P : Type)
  | timed (c : Timed T P)
  | flush
  | pulse
  | deactivate
  | activate
  | completeAdding
  | attachConsumer
  | detachConsumer
  | attachProducer
  | detachProducer
  deriving DecidableEq, Repr

namespace Call

variable {T P : Type}

/-! ## The calls that fix `rel_time` (849–939, 979–1022, 1038–1151) -/

def emplace (item : T) : Call T P := .timed (.tryEmplaceTimed (-1) item)

/-- Both overloads of `add`. -/
def add (value : T) : Call T P := .timed (.tryEmplaceTimed (-1) value)

/-- Both overloads of `try_add`. -/
def tryAdd (value : T) : Call T P := .timed (.tryEmplaceTimed 0 value)

def take : Call T P := .timed (.tryTake (-1))

/-- `try_take(item)`. -/
def tryTakeNow : Call T P := .timed (.tryTake 0)

def addBulk (items : List T) : Call T P := .timed (.tryAddBulk (-1) items)

def takeBulk (count : Nat) : Call T P := .timed (.tryTakeBulk (-1) count)

def takePrio (p : P) : Call T P := .timed (.tryTakePrio p (-1))

end Call

namespace Timed

variable {T P : Type}

def relTime : Timed T P → Int
  | .tryEmplaceTimed r _ | .tryAddBulk r _ | .tryTake r | .tryTakeBulk r _
  | .tryTakePrio _ r | .tryTakePrioBulk _ r _ => r

/-- Whether the call waits for `not_full_condition_var_`; the others wait for
`not_empty_condition_var_`. -/
def adds : Timed T P → Bool
  | .tryEmplaceTimed .. | .tryAddBulk .. => true
  | _ => false

/-- `count == 0`, which the bulk takes test before they lock. -/
def takesNone : Timed T P → Bool
  | .tryTakeBulk _ 0 | .tryTakePrioBulk _ _ 0 => true
  | _ => false

end Timed

/-- Where a wait loop comes to: it is left with a status, or the thread sleeps. -/
inductive Wait
  | done (status : BlockingCollectionStatus)
  | sleep
  deriving DecidableEq, Repr

variable {C T P Tid : Type} [ProducerConsumerCollection C T P] [DecidableEq Tid]
  {gen : ConditionVariableGenerator}

namespace BlockingCollection

/-- `BlockingCollection(capacity)`. -/
def init (capacity : Nat) : BlockingCollection C Tid gen where
  state := .activated
  boundedCapacity := capacity
  isAddingCompleted := false
  notEmpty := .init capacity
  notFull := .init capacity
  container := bounded capacity

/-! ## What is read under the lock (1285–1303) -/

def isFull (b : BlockingCollection C Tid gen) : Bool :=
  b.boundedCapacity ≠ SIZE_MAX && b.boundedCapacity ≤ size b.container

def isEmpty (b : BlockingCollection C Tid gen) : Bool := size b.container = 0

/-- `is_completed_i`: nothing comes any more, and nothing is left. -/
def isCompleted (b : BlockingCollection C Tid gen) : Bool := b.isAddingCompleted && b.isEmpty

/-! ## Control calls (691–838, 1253–1280) -/

/-- `deactivate_i`, for `pulse` and `deactivate`. A pulse of a deactivated collection does not
activate it. -/
def deactivateI (pulse : Bool) (b : BlockingCollection C Tid gen) :
    BlockingCollection C Tid gen :=
  if b.state ≠ .deactivated then
    { b with
      state := if pulse then .pulsed else .deactivated
      notEmpty := b.notEmpty.broadcast
      notFull := b.notFull.broadcast }
  else
    b

def activateI (b : BlockingCollection C Tid gen) : BlockingCollection C Tid gen :=
  { b with state := .activated }

/-- `complete_adding`: the first call wakes everybody, and the others do nothing. -/
def completeAdding (b : BlockingCollection C Tid gen) : BlockingCollection C Tid gen :=
  if b.isAddingCompleted then
    b
  else
    { b with
      isAddingCompleted := true
      notEmpty := b.notEmpty.broadcast
      notFull := b.notFull.broadcast }

/-- The loops that take one item after another, for at most so many rounds: what was taken
and what is left. -/
def takeUpTo (take : C → Option (T × C)) : Nat → C → List T × C
  | 0, c => ([], c)
  | n + 1, c =>
    match take c with
    | none => ([], c)
    | some (x, c) =>
      let (xs, c) := takeUpTo take n c
      (x :: xs, c)

/-- The loop of `try_add_bulk`: what was added, and the container. -/
def addAll : List T → C → List T × C
  | [], c => ([], c)
  | x :: xs, c =>
    match tryAdd x c with
    | none => ([], c)
    | some c =>
      let (ys, c) := addAll xs c
      (x :: ys, c)

/-- The loop of `flush` runs while `size() > 0`, once for each item. -/
def flush (b : BlockingCollection C Tid gen) : List T × BlockingCollection C Tid gen :=
  let (xs, c) := takeUpTo tryTake (size b.container) b.container
  (xs, { b with container := c, notEmpty := b.notEmpty.size 0, notFull := b.notFull.size 0 })

/-! ## Waiting (1311–1451) -/

/-- `signal(itemCount, signal_not_full)`. -/
def signal (signalNotFull : Bool) (pick : Tid) (b : BlockingCollection C Tid gen) :
    BlockingCollection C Tid gen :=
  let itemCount := size b.container
  let b := { b with notEmpty := b.notEmpty.size itemCount, notFull := b.notFull.size itemCount }
  if signalNotFull then
    if b.boundedCapacity ≠ SIZE_MAX then { b with notFull := b.notFull.signal pick } else b
  else
    { b with notEmpty := b.notEmpty.signal pick }

/-- The head of the loop of `wait_not_full_condition`. -/
def waitNotFullLoop (relTime : Int) (b : BlockingCollection C Tid gen) : Wait :=
  if b.isFull then
    if relTime = 0 then .done .timedOut
    else if b.isAddingCompleted then .done .addingCompleted
    else .sleep
  else
    .done .ok

/-- `wait_not_full_condition`, up to where it returns or the thread sleeps. -/
def waitNotFullCondition (relTime : Int) (b : BlockingCollection C Tid gen) : Wait :=
  if b.state = .deactivated then .done .notActivated
  else if b.isAddingCompleted then .done .addingCompleted
  else waitNotFullLoop relTime b

/-- `wait_not_full_condition` from where the thread holds the lock again. -/
def resumeNotFull (relTime : Int) (timedOut : Bool) (b : BlockingCollection C Tid gen) : Wait :=
  if timedOut then .done .timedOut
  else if b.isAddingCompleted then .done .completeAddingConcurrent
  else if b.state ≠ .activated then .done .notActivated
  else waitNotFullLoop relTime b

/-- The head of the loop of `wait_not_empty_condition`. -/
def waitNotEmptyLoop (relTime : Int) (b : BlockingCollection C Tid gen) : Wait :=
  if b.isEmpty then
    if relTime = 0 then .done .timedOut
    else if b.isAddingCompleted then .done .addingCompleted
    else .sleep
  else
    .done .ok

/-- `wait_not_empty_condition`, up to where it returns or the thread sleeps. -/
def waitNotEmptyCondition (relTime : Int) (b : BlockingCollection C Tid gen) : Wait :=
  if b.state = .deactivated then .done .notActivated
  else if b.isCompleted then .done .completed
  else waitNotEmptyLoop relTime b

/-- `wait_not_empty_condition` from where the thread holds the lock again. -/
def resumeNotEmpty (relTime : Int) (timedOut : Bool) (b : BlockingCollection C Tid gen) : Wait :=
  if timedOut then .done .timedOut
  else if b.state ≠ .activated then .done .notActivated
  else waitNotEmptyLoop relTime b

/-! ## What the calls do after the wait (954–1190, 1746–1852) -/

/-- What a call did: its status, what it moved, and the collection. -/
structure Result (C T Tid : Type) (gen : ConditionVariableGenerator) where
  status : BlockingCollectionStatus
  moves : List (Move × T)
  collection : BlockingCollection C Tid gen

def tryEmplaceTimed (item : T) (pick : Tid) (b : BlockingCollection C Tid gen) :
    Result C T Tid gen :=
  match tryEmplace item b.container with
  | none => ⟨.internalError, [], b⟩
  | some c => ⟨.ok, [(.emplace, item)], signal false pick { b with container := c }⟩

/-- The range is tested here, after the wait. -/
def tryAddBulk (list : List T) (pick : Tid) (b : BlockingCollection C Tid gen) :
    Result C T Tid gen :=
  if list.isEmpty then
    ⟨.invalidIterators, [], b⟩
  else
    let (added, c) := addAll list b.container
    ⟨.ok, added.map fun x => (.add, x), signal false pick { b with container := c }⟩

def tryTakeTimed (pick : Tid) (b : BlockingCollection C Tid gen) : Result C T Tid gen :=
  match tryTake b.container with
  | none => ⟨.internalError, [], b⟩
  | some (x, c) => ⟨.ok, [(.take, x)], signal true pick { b with container := c }⟩

def tryTakeBulk (count : Nat) (pick : Tid) (b : BlockingCollection C Tid gen) :
    Result C T Tid gen :=
  let (taken, c) := takeUpTo tryTake count b.container
  ⟨.ok, taken.map fun x => (.take, x), signal true pick { b with container := c }⟩

def tryTakePrioTimed (p : P) (pick : Tid) (b : BlockingCollection C Tid gen) :
    Result C T Tid gen :=
  match tryTakePrio p b.container with
  | none => ⟨.internalError, [], b⟩
  | some (x, c) => ⟨.ok, [(.takePrio, x)], signal true pick { b with container := c }⟩

/-- Unlike its siblings this one does not signal. -/
def tryTakePrioBulk (p : P) (count : Nat) (b : BlockingCollection C Tid gen) :
    Result C T Tid gen :=
  let (taken, c) := takeUpTo (tryTakePrio p) count b.container
  ⟨.ok, taken.map fun x => (.takePrio, x), { b with container := c }⟩

/-- What is left of each call once it may go ahead. -/
def perform (pick : Tid) (c : Timed T P) (b : BlockingCollection C Tid gen) :
    Result C T Tid gen :=
  match c with
  | .tryEmplaceTimed _ item => tryEmplaceTimed item pick b
  | .tryAddBulk _ list => tryAddBulk list pick b
  | .tryTake _ => tryTakeTimed pick b
  | .tryTakeBulk _ count => tryTakeBulk count pick b
  | .tryTakePrio p _ => tryTakePrioTimed p pick b
  | .tryTakePrioBulk p _ count => tryTakePrioBulk p count b

/-- The wait of a call, from its start. -/
def enter (c : Timed T P) (b : BlockingCollection C Tid gen) : Wait :=
  if c.adds then waitNotFullCondition c.relTime b else waitNotEmptyCondition c.relTime b

/-- The wait of a call, from where its thread holds the lock again. -/
def goOn (c : Timed T P) (timedOut : Bool) (b : BlockingCollection C Tid gen) : Wait :=
  if c.adds then resumeNotFull c.relTime timedOut b else resumeNotEmpty c.relTime timedOut b

/-- Thread `t` goes to sleep in the call. -/
def block (t : Tid) (c : Timed T P) (b : BlockingCollection C Tid gen) :
    BlockingCollection C Tid gen :=
  if c.adds then { b with notFull := b.notFull.wait t }
  else { b with notEmpty := b.notEmpty.wait t }

/-- The `wait` or `wait_for` of thread `t` in the call returns. -/
def unblock (t : Tid) (timedOut : Bool) (c : Timed T P) (b : BlockingCollection C Tid gen) :
    BlockingCollection C Tid gen :=
  if c.adds then { b with notFull := b.notFull.resume t timedOut }
  else { b with notEmpty := b.notEmpty.resume t timedOut }

end BlockingCollection

open BlockingCollection

/-! ## The threads -/

/-- What has happened. -/
inductive Event (T P Tid : Type)
  | moved (t : Tid) (m : Move) (x : T)
  | flushed (t : Tid) (x : T)
  | returned (t : Tid) (c : Timed T P) (status : BlockingCollectionStatus)
  deriving DecidableEq, Repr

/-- The collection, the calls that wait, and what has happened. -/
structure System (C T P Tid : Type) (gen : ConditionVariableGenerator) where
  collection : BlockingCollection C Tid gen
  pending : Tid → Option (Timed T P)
  history : List (Event T P Tid)

/-- A collection nobody has used yet. -/
def System.init (capacity : Nat) : System C T P Tid gen :=
  ⟨.init capacity, fun _ => none, []⟩

/-- What a thread does next; the schedule is a list of these. -/
inductive Label (T P Tid : Type)
  /-- Thread `t` makes a call, up to its end or to where it waits. -/
  | call (t : Tid) (c : Call T P) (pick : Tid)
  /-- Thread `t` gets the lock back in the call it waits in, and goes on to the end of the
  call or to its next wait. -/
  | wake (t : Tid) (timedOut : Bool) (pick : Tid)
  deriving DecidableEq, Repr

/-- Why a label is not a step. -/
inductive Disabled (Tid : Type)
  /-- A thread in a call makes no other. -/
  | busy (t : Tid)
  | notWaiting (t : Tid)
  /-- `wait` has no limit. -/
  | noTimeout (t : Tid)
  deriving DecidableEq, Repr

namespace System

/-- The call of `t` ends or sleeps, as its wait says. -/
def settle (t pick : Tid) (c : Timed T P) (w : Wait) (s : System C T P Tid gen) :
    System C T P Tid gen :=
  match w with
  | .sleep =>
    { s with collection := block t c s.collection
             pending := fun u => if u = t then some c else s.pending u }
  | .done .ok =>
    let r := perform pick c s.collection
    { collection := r.collection
      pending := fun u => if u = t then none else s.pending u
      history := s.history ++ (r.moves.map (fun e => .moved t e.1 e.2) ++
        [.returned t c r.status]) }
  | .done status =>
    { s with pending := fun u => if u = t then none else s.pending u
             history := s.history ++ [.returned t c status] }

/-- The calls that never wait. -/
def control (t pick : Tid) (c : Call T P) (s : System C T P Tid gen) : System C T P Tid gen :=
  let b := s.collection
  match c with
  | .timed _ => s
  | .flush =>
    let (xs, b) := b.flush
    { s with collection := b, history := s.history ++ xs.map (.flushed t) }
  | .pulse => { s with collection := b.deactivateI true }
  | .deactivate => { s with collection := b.deactivateI false }
  | .activate => { s with collection := b.activateI }
  | .completeAdding => { s with collection := b.completeAdding }
  | .attachConsumer => { s with collection := { b with notEmpty := b.notEmpty.attach t } }
  | .detachConsumer => { s with collection := { b with notEmpty := b.notEmpty.detach t pick } }
  | .attachProducer => { s with collection := { b with notFull := b.notFull.attach t } }
  | .detachProducer => { s with collection := { b with notFull := b.notFull.detach t pick } }

/-- A thread runs from where it gets the lock to where it gives it up. -/
def step (l : Label T P Tid) (s : System C T P Tid gen) :
    Except (Disabled Tid) (System C T P Tid gen) :=
  match l with
  | .call t c pick =>
    match s.pending t with
    | some _ => .error (.busy t)
    | none =>
      match c with
      | .timed c =>
        if c.takesNone then
          .ok { s with history := s.history ++ [.returned t c .ok] }
        else
          .ok (settle t pick c (enter c s.collection) s)
      | c => .ok (control t pick c s)
  | .wake t timedOut pick =>
    match s.pending t with
    | none => .error (.notWaiting t)
    | some c =>
      if timedOut ∧ c.relTime < 0 then
        .error (.noTimeout t)
      else
        let b := unblock t timedOut c s.collection
        .ok (settle t pick c (goOn c timedOut b) { s with collection := b })

end System

/-! ## The aliases (1935–1948) -/

/-- A `BlockingQueue<T>` and its threads. -/
abbrev QueueSystem (T Tid : Type) :=
  System (QueueContainer T) T Empty Tid stdConditionVariableGenerator

/-- A `BlockingStack<T>` and its threads. -/
abbrev StackSystem (T Tid : Type) :=
  System (StackContainer T) T Empty Tid stdConditionVariableGenerator

/-- A `PriorityBlockingCollection<T>` and its threads. A `BlockingPriorityQueue<T>` is the
same without the calls that take the lowest. -/
abbrev PrioritySystem (T Tid : Type) [LT T] [DecidableLT T] :=
  System (PriorityContainer T priorityComparer) T Unit Tid stdConditionVariableGenerator

end BstGenerator.Blocking
