import Mathlib.Order.Lattice
import BstGenerator.Memory.Heap
import BstGenerator.Trees.Context

/-!
# The search tree of `test_bst.cpp`

A translation of `BST<T, V>` (test_bst.cpp:8–139) over an explicit heap of nodes.
A missing child is a pointer to the sentinel `null_`, itself a node; a `Node * &`
is a `Slot`, either the member `root_` or a field of a node, and assigning through
the reference stores into that slot.

Conventions of the translation:

- Reading, writing or deleting a node that is not allocated (undefined behaviour
  in C++) is a `Fault`. In particular `nullptr` is never allocated.
- A loop takes fuel and faults with `outOfFuel` when it is used up; that a loop
  ends is proved by giving an amount that is enough.
- `T{}` and `V{}`, the sentinel's key and value, are `default`.
- `find_min` and `find_max` (test_bst.cpp:31–46) are one loop, walking in a given
  direction.
-/

namespace BstGenerator.Bst

open Memory Trees

/-- What takes a program out of the C++ semantics, or out of the model. -/
inductive Fault
  | invalidRead (a : Addr)
  | invalidWrite (a : Addr)
  | invalidDelete (a : Addr)
  /-- `top()` or `pop()` on an empty `std::stack`. -/
  | emptyStack
  /-- A pointer on a stack is taken for something it does not stand for. -/
  | mistaken (p : Addr)
  /-- A command on an object that does not exist. -/
  | noObject (i : Addr)
  | outOfFuel
  deriving DecidableEq, Repr

/-- `BST::Node` (test_bst.cpp:12–18). -/
structure Node (T V : Type) where
  left : Addr
  right : Addr
  key : T
  value : V
  deriving DecidableEq, Repr

/-- The child field on side `d`. -/
def Node.child {T V : Type} (n : Node T V) : Dir → Addr
  | .left => n.left
  | .right => n.right

/-- The node with its child field on side `d` overwritten. -/
def Node.setChild {T V : Type} (n : Node T V) : Dir → Addr → Node T V
  | .left, p => { n with left := p }
  | .right, p => { n with right := p }

/-- The data members of a `BST` object (test_bst.cpp:65–66). -/
structure Members where
  root : Addr := nullptr
  null : Addr := nullptr
  deriving DecidableEq, Repr

/-- The heap together with the members of the object a method runs on. -/
structure State (T V : Type) extends Members where
  heap : Heap (Node T V)

/-- A `Node * &`: the member `root_`, or the field of a node on one side. -/
inductive Slot
  | root
  | child (d : Dir) (a : Addr)
  deriving DecidableEq, Repr

variable {T V : Type}

namespace State

/-- Dereference a pointer to read from the node. -/
def node (s : State T V) (p : Addr) : Except Fault (Node T V) :=
  match s.heap.cells p with
  | some n => .ok n
  | none => .error (.invalidRead p)

/-- Read through a reference. -/
def load (s : State T V) : Slot → Except Fault Addr
  | .root => .ok s.root
  | .child d a => do return (← s.node a).child d

/-- Assign through a reference. -/
def store (s : State T V) : Slot → Addr → Except Fault (State T V)
  | .root, p => .ok { s with root := p }
  | .child d a, p =>
    match s.heap.cells a with
    | some n => .ok { s with heap := s.heap.write a (n.setChild d p) }
    | none => .error (.invalidWrite a)

/-- `p->left_`. -/
def left (s : State T V) (p : Addr) : Except Fault Addr := s.load (.child .left p)

/-- `p->right_`. -/
def right (s : State T V) (p : Addr) : Except Fault Addr := s.load (.child .right p)

/-- `p->key_`. -/
def key (s : State T V) (p : Addr) : Except Fault T := do return (← s.node p).key

/-- `new Node{…}`: the new node's address, and the heap with it. -/
def new (s : State T V) (n : Node T V) : Addr × State T V :=
  (s.heap.next, { s with heap := s.heap.new n })

/-- `delete p`. -/
def delete (s : State T V) (p : Addr) : Except Fault (State T V) :=
  match s.heap.cells p with
  | some _ => .ok { s with heap := s.heap.delete p }
  | none => .error (.invalidDelete p)

end State

/-- `BST::BST()` (test_bst.cpp:21–25). The chained assignment
`null_->left_=null_->right_=null_` stores the right field first. -/
def construct [Inhabited T] [Inhabited V] (h : Heap (Node T V)) :
    Except Fault (State T V) := do
  let s : State T V := { heap := h }
  let (p, s) := s.new ⟨nullptr, nullptr, default, default⟩
  let s := { s with root := p, null := p }
  let s ← s.store (.child .right s.null) s.null
  s.store (.child .left s.null) (← s.right s.null)

/-- The loop of `find_min` and `find_max`: step to the child on side `d` until it
is missing. -/
def findExtreme (d : Dir) (s : State T V) : Nat → Slot → Except Fault Slot
  | 0, _ => .error .outOfFuel
  | fuel + 1, it => do
    let p ← s.load it
    if (← s.load (.child d p)) ≠ s.null then
      findExtreme d s fuel (.child d p)
    else
      return it

/-- `BST::find_min` (test_bst.cpp:31–38). -/
def findMin (fuel : Nat) (it : Slot) (s : State T V) : Except Fault Slot :=
  findExtreme .left s fuel it

/-- `BST::find_max` (test_bst.cpp:39–46). -/
def findMax (fuel : Nat) (it : Slot) (s : State T V) : Except Fault Slot :=
  findExtreme .right s fuel it

/-- The breadth-first loop of `release` (test_bst.cpp:111–121); the head of the
list is the front of the queue. -/
def releaseLoop : Nat → List Addr → State T V → Except Fault (State T V)
  | _, [], s => .ok s
  | 0, _ :: _, _ => .error .outOfFuel
  | fuel + 1, c :: q, s => do
    let l ← s.left c
    let q := if l ≠ s.null then q ++ [l] else q
    let r ← s.right c
    let q := if r ≠ s.null then q ++ [r] else q
    let s ← s.delete c
    releaseLoop fuel q s

/-- `BST::release` (test_bst.cpp:105–124), which is all `BST::~BST` does. -/
def release (fuel : Nat) (s : State T V) : Except Fault (State T V) := do
  let q := if s.root ≠ s.null then [s.root] else []
  let s ← releaseLoop fuel q s
  let s ← s.delete s.null
  return { s with root := nullptr, null := nullptr }

section Keys

variable [LinearOrder T]

/-- The loop of `find`. -/
def findLoop (key : T) (s : State T V) : Nat → Slot → Except Fault Slot
  | 0, _ => .error .outOfFuel
  | fuel + 1, iterator => do
    let p ← s.load iterator
    if p ≠ s.null then
      if key > (← s.key p) then
        findLoop key s fuel (.child .right p)
      else if key < (← s.key p) then
        findLoop key s fuel (.child .left p)
      else
        -- `break`
        return iterator
    else
      return iterator

/-- `BST::find` (test_bst.cpp:126–139). -/
def find (fuel : Nat) (key : T) (s : State T V) : Except Fault Slot :=
  findLoop key s fuel .root

/-- `BST::insert` (test_bst.cpp:69–77). -/
def insert (fuel : Nat) (key : T) (v : V) (s : State T V) :
    Except Fault (Addr × State T V) := do
  let targetNode ← find fuel key s
  -- the key is there, and the value given is dropped
  if (← s.load targetNode) ≠ s.null then
    return (s.null, s)
  let (p, s) := s.new ⟨s.null, s.null, key, v⟩
  let s ← s.store targetNode p
  return (← s.load targetNode, s)

/-- `BST::remove` (test_bst.cpp:79–103). -/
def remove (fuel : Nat) (key : T) (s : State T V) : Except Fault (Bool × State T V) := do
  let targetNode ← find fuel key s
  if (← s.load targetNode) = s.null then
    return (false, s)
  if (← s.left (← s.load targetNode)) ≠ s.null ∧
      (← s.right (← s.load targetNode)) ≠ s.null then
    -- `targetNode` and `min` are references: each `load` reads what was stored last
    let min ← findMin fuel (.child .right (← s.load targetNode)) s
    let old ← s.load targetNode
    let s ← s.store targetNode (← s.load min)
    let s ← s.store min (← s.right (← s.load min))
    let s ← s.store (.child .left (← s.load targetNode)) (← s.left old)
    let s ← s.store (.child .right (← s.load targetNode)) (← s.right old)
    let s ← s.delete old
    return (true, s)
  else
    -- at most one child, which takes the place of the node
    let old ← s.load targetNode
    if (← s.left (← s.load targetNode)) = s.null then
      let s ← s.store targetNode (← s.right (← s.load targetNode))
      let s ← s.delete old
      return (true, s)
    else
      let s ← s.store targetNode (← s.left (← s.load targetNode))
      let s ← s.delete old
      return (true, s)

end Keys

end BstGenerator.Bst
