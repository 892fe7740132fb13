import Mathlib.Algebra.Group.Nat.Defs
import Mathlib.Data.List.DropRight

/-!
# The containers of `BlockingCollection.h`

The three containers a `BlockingCollection` can be built on (BlockingCollection.h:412–522
and 1479–1646). Each is a `std::deque` with a bound: `QueueContainer` and `StackContainer`
are `detail::Container` with the two values of its tag, `PriorityContainer` keeps its items
in the order of a comparer.

- `Move`, `Trace`: the operations that succeed, and a sequence of them with the items they
  put in or took out. What is proved of a container is proved along a trace.
- `LawfulCollection`: what a collection relies on. An operation that succeeds puts its item
  in or takes it out and touches no other, adding is refused at the bound only and taking
  on the empty container only.

Conventions of the translation: the front of the deque is the head of the list, a
`try_…` that returns `false` is `none`, and the item a `try_take` assigns is returned with
the container.
-/

namespace BstGenerator.Blocking

/-- The greatest `std::size_t`; as a bound it means that there is none. -/
def SIZE_MAX : Nat := 2 ^ 64 - 1

/-- The policy a container implements. `Prio` has an element for a container with
`try_take_prio`, and none for the others. -/
class ProducerConsumerCollection (C : Type) (T Prio : outParam Type) where
  /-- An empty container with `bounded_capacity(capacity)`. -/
  bounded : Nat → C
  size : C → Nat
  tryAdd : T → C → Option C
  tryEmplace : T → C → Option C
  tryTake : C → Option (T × C)
  tryTakePrio : Prio → C → Option (T × C)

export ProducerConsumerCollection (bounded size tryAdd tryEmplace tryTake tryTakePrio)

/-! ## `detail::Container` (412–522) -/

/-- `detail::QueueType` and `detail::StackType`. -/
inductive ContainerType
  | queue
  | stack
  deriving DecidableEq, Repr

structure Container (T : Type) (κ : ContainerType) where
  boundedCapacity : Nat
  container : List T
  deriving DecidableEq, Repr

abbrev QueueContainer (T : Type) := Container T .queue

abbrev StackContainer (T : Type) := Container T .stack

namespace Container

variable {T : Type} {κ : ContainerType}

/-- Both overloads of `try_add` push at the back. -/
def tryAdd (item : T) (c : Container T κ) : Option (Container T κ) :=
  if c.container.length = c.boundedCapacity then
    none
  else
    some { c with container := c.container ++ [item] }

/-- `try_emplace_i`: at the back of a queue, at the front of a stack. -/
def tryEmplaceI (item : T) (c : Container T κ) : Container T κ :=
  match κ with
  | .queue => { c with container := c.container ++ [item] }
  | .stack => { c with container := item :: c.container }

def tryEmplace (item : T) (c : Container T κ) : Option (Container T κ) :=
  if c.container.length = c.boundedCapacity then none else some (tryEmplaceI item c)

/-- `try_take` with its two `try_take_i`: from the front of a queue, from the back of a
stack. -/
def tryTake (c : Container T κ) : Option (T × Container T κ) :=
  match κ with
  | .queue =>
    match c.container with
    | [] => none
    | item :: rest => some (item, { c with container := rest })
  | .stack =>
    match c.container.getLast? with
    | none => none
    | some item => some (item, { c with container := c.container.dropLast })

instance : ProducerConsumerCollection (Container T κ) T Empty where
  bounded capacity := ⟨capacity, []⟩
  size c := c.container.length
  tryAdd := tryAdd
  tryEmplace := tryEmplace
  tryTake := tryTake
  tryTakePrio e _ := e.elim

end Container

/-! ## `PriorityContainer` (1479–1646) -/

/-- The comparer is a type parameter of the C++ class: its call operator is a parameter
of the type here. -/
structure PriorityContainer (T : Type) (comparer : T → T → Int) where
  boundedCapacity : Nat
  container : List T
  deriving DecidableEq, Repr

/-- `PriorityComparer<T>` (1654–1683), for a type with `<`. -/
def priorityComparer {T : Type} [LT T] [DecidableLT T] (x y : T) : Int :=
  if x < y then -1 else if y < x then 1 else 0

namespace PriorityContainer

variable {T : Type} {comparer : T → T → Int}

/-- `try_emplace`. `itr` counts from `rbegin()`, so that `itr.base()` is `itr` places
before the end. -/
def tryEmplace (newItem : T) (c : PriorityContainer T comparer) :
    Option (PriorityContainer T comparer) :=
  if c.container.length = c.boundedCapacity then
    none
  else if c.container.isEmpty then
    some { c with container := newItem :: c.container }
  else
    let itr := c.container.reverse.findIdx fun item => 0 ≤ comparer item newItem
    if itr = c.container.length then
      some { c with container := newItem :: c.container }
    else if itr = 0 then
      some { c with container := c.container ++ [newItem] }
    else
      some { c with container := c.container.insertIdx (c.container.length - itr) newItem }

def tryAdd (newItem : T) (c : PriorityContainer T comparer) :
    Option (PriorityContainer T comparer) :=
  if c.container.length = c.boundedCapacity then none else tryEmplace newItem c

def tryTake (c : PriorityContainer T comparer) : Option (T × PriorityContainer T comparer) :=
  match c.container with
  | [] => none
  | item :: rest => some (item, { c with container := rest })

/-- The `find_if_not` of `try_take_prio`, from `rbegin()`: how many items it passes.
`current` is `*current_priority` once `init_current_priority` is false. -/
def passEqual (comparer : T → T → Int) (current : Option T) : List T → Nat
  | [] => 0
  | item :: items =>
    match current with
    | none => passEqual comparer (some item) items + 1
    | some c => if comparer item c ≤ 0 then passEqual comparer (some item) items + 1 else 0

/-- `try_take_prio`: what is at `itr.base()`, or the front when the search came to
`rend()`. -/
def tryTakePrio (c : PriorityContainer T comparer) :
    Option (T × PriorityContainer T comparer) :=
  match c.container with
  | [] => none
  | front :: rest =>
    let itr := passEqual comparer none c.container.reverse
    if itr = c.container.length then
      some (front, { c with container := rest })
    else
      match c.container[c.container.length - itr]? with
      | none => none
      | some item =>
        some (item, { c with container := c.container.eraseIdx (c.container.length - itr) })

instance : ProducerConsumerCollection (PriorityContainer T comparer) T Unit where
  bounded capacity := ⟨capacity, []⟩
  size c := c.container.length
  tryAdd := tryAdd
  tryEmplace := tryEmplace
  tryTake := tryTake
  tryTakePrio _ := tryTakePrio

end PriorityContainer

/-! ## What moves through a container -/

/-- The ways an item comes in or goes out. -/
inductive Move
  | emplace
  | add
  | take
  | takePrio
  deriving DecidableEq, Repr

/-- Whether the move puts its item in. -/
def Move.isIn : Move → Bool
  | .emplace | .add => true
  | .take | .takePrio => false

section Traces

variable {C T P : Type} [ProducerConsumerCollection C T P]

/-- One operation on a container that succeeds. -/
inductive Moves : C → Move → T → C → Prop
  | emplace {c c' : C} {x : T} (h : tryEmplace x c = some c') : Moves c .emplace x c'
  | add {c c' : C} {x : T} (h : tryAdd x c = some c') : Moves c .add x c'
  | take {c c' : C} {x : T} (h : tryTake c = some (x, c')) : Moves c .take x c'
  | takePrio {c c' : C} {x : T} (p : P) (h : tryTakePrio p c = some (x, c')) :
    Moves c .takePrio x c'

/-- A sequence of operations that succeed, with their items. -/
inductive Trace : C → List (Move × T) → C → Prop
  | nil (c : C) : Trace c [] c
  | cons {c d c' : C} {m : Move} {x : T} {es : List (Move × T)}
    (h : Moves c m x d) (hs : Trace d es c') : Trace c ((m, x) :: es) c'

theorem Trace.single {c c' : C} {m : Move} {x : T} (h : Moves c m x c') :
    Trace c [(m, x)] c' :=
  Trace.cons h (Trace.nil c')

theorem Trace.append {c d c' : C} {es fs : List (Move × T)} (h : Trace c es d)
    (h' : Trace d fs c') : Trace c (es ++ fs) c' := by
  induction h with
  | nil => exact h'
  | cons hm _ ih => exact Trace.cons hm (ih h')

/-- The items that came in, in order. -/
def ins (es : List (Move × T)) : List T :=
  (es.filter fun e => e.1.isIn).map Prod.snd

/-- The items that went out, in order. -/
def outs (es : List (Move × T)) : List T :=
  (es.filter fun e => !e.1.isIn).map Prod.snd

/-- What a collection relies on. -/
class LawfulCollection (C : Type) (T P : outParam Type) [ProducerConsumerCollection C T P]
    where
  items : C → List T
  capacity : C → Nat
  size_eq (c : C) : size c = (items c).length
  items_bounded (n : Nat) : items (bounded n : C) = []
  capacity_bounded (n : Nat) : capacity (bounded n : C) = n
  tryEmplace_eq_none {x : T} {c : C} :
    tryEmplace x c = none ↔ (items c).length = capacity c
  tryAdd_eq_none {x : T} {c : C} : tryAdd x c = none ↔ (items c).length = capacity c
  tryTake_eq_none {c : C} : tryTake c = none ↔ items c = []
  tryTakePrio_eq_none {p : P} {c : C} : tryTakePrio p c = none ↔ items c = []
  moves_in {c c' : C} {m : Move} {x : T} (h : Moves c m x c') (hm : m.isIn = true) :
    (items c').Perm (x :: items c)
  moves_out {c c' : C} {m : Move} {x : T} (h : Moves c m x c') (hm : m.isIn = false) :
    (items c).Perm (x :: items c')
  moves_capacity {c c' : C} {m : Move} {x : T} (h : Moves c m x c') :
    capacity c' = capacity c

export LawfulCollection (items capacity)

end Traces

end BstGenerator.Blocking
