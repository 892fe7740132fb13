import BstGenerator.Bst.Model

/-!
# The traversals of `test_bst.cpp`

A translation of the three traversals, each in two forms: with an explicit stack,
`zhong()`, `xian()` and `hou()` (test_bst.cpp:149–221), and by recursion, `zhong(Node *)`,
`xian(Node *)` and `hou(Node *)` (test_bst.cpp:223–252).

- `Out`: what a traversal writes, that is the lines printed and the two global
  vectors `v` and `di_v`. A line or an element of a vector is the pair of a key and
  a value. The list `visited` is not in the source: it records which nodes the key
  and the value were read from.
- `houMarked`: the loop of `hou()` again, each pointer on the stack carrying what it
  was pushed for. It does the same work and faults as soon as the loop takes a
  pointer for something else than that.

`inner` is the fuel of the descent to the left, which starts afresh in each round.
-/

namespace BstGenerator.Bst

open Memory

/-- What the traversals write. -/
structure Out (T V : Type) where
  cout : List (T × V)
  v : List (T × V)
  diV : List (T × V)
  visited : List Addr
  deriving DecidableEq, Repr

variable {T V : Type}

/-- `std::cout<<c->key_<<':'<<c->value_<<std::endl`. -/
def print (s : State T V) (c : Addr) (o : Out T V) : Except Fault (Out T V) := do
  let n ← s.node c
  return { o with cout := o.cout ++ [(n.key, n.value)], visited := o.visited ++ [c] }

/-! ## `std::stack`, the head of the list being the top -/

/-- `st.top()`. -/
def top {α : Type} : List α → Except Fault α
  | [] => .error .emptyStack
  | c :: _ => .ok c

/-- `st.pop()`. -/
def pop {α : Type} : List α → Except Fault (List α)
  | [] => .error .emptyStack
  | _ :: st => .ok st

/-- `st.top()=c`. -/
def setTop {α : Type} (c : α) : List α → Except Fault (List α)
  | [] => .error .emptyStack
  | _ :: st => .ok (c :: st)

/-! ## `zhong()` -/

/-- The inner loop of `zhong()` and `hou()`: push left children until the sentinel is on
top. -/
def descend (s : State T V) : Nat → List Addr → Addr → Except Fault (List Addr)
  | 0, _, _ => .error .outOfFuel
  | inner + 1, st, c =>
    if c ≠ s.null then do
      let l ← s.left c
      let st := l :: st
      let c ← top st
      descend s inner st c
    else
      .ok st

/-- The outer loop of `zhong()`. -/
def zhongLoop (s : State T V) (inner : Nat) :
    Nat → List Addr → Out T V → Except Fault (Out T V)
  | 0, _, _ => .error .outOfFuel
  | fuel + 1, st, o => do
    let c ← top st
    let st ← descend s inner st c
    let st ← pop st
    if st.isEmpty then
      return o
    -- the left subtree of `c` is done, its right one takes its place
    let c ← top st
    let o ← print s c o
    let st ← pop st
    let r ← s.right c
    zhongLoop s inner fuel (r :: st) o

/-- `BST::zhong()` (test_bst.cpp:149–169). -/
def zhong (fuel : Nat) (s : State T V) (o : Out T V) : Except Fault (Out T V) :=
  zhongLoop s fuel fuel [s.root] o

/-! ## `xian()` -/

/-- The inner loop of `xian()`, which prints on the way down. -/
def xianDescend (s : State T V) :
    Nat → List Addr → Addr → Out T V → Except Fault (List Addr × Out T V)
  | 0, _, _, _ => .error .outOfFuel
  | inner + 1, st, c, o =>
    if c ≠ s.null then do
      let o ← print s c o
      let l ← s.left c
      let st := l :: st
      let c ← top st
      xianDescend s inner st c o
    else
      .ok (st, o)

/-- The outer loop of `xian()`. -/
def xianLoop (s : State T V) (inner : Nat) :
    Nat → List Addr → Out T V → Except Fault (Out T V)
  | 0, _, _ => .error .outOfFuel
  | fuel + 1, st, o => do
    let c ← top st
    let (st, o) ← xianDescend s inner st c o
    let st ← pop st
    if st.isEmpty then
      return o
    let c ← top st
    let st ← pop st
    let r ← s.right c
    xianLoop s inner fuel (r :: st) o

/-- `BST::xian()` (test_bst.cpp:171–191). -/
def xian (fuel : Nat) (s : State T V) (o : Out T V) : Except Fault (Out T V) :=
  xianLoop s fuel fuel [s.root] o

/-! ## `hou()` -/

/-- The outer loop of `hou()`. -/
def houLoop (s : State T V) (inner : Nat) : Nat → List Addr → Out T V → Except Fault (Out T V)
  | 0, _, _ => .error .outOfFuel
  | fuel + 1, st, o => do
    let c ← top st
    let st ← descend s inner st c
    let st ← pop st
    if st.isEmpty then
      return o
    let c ← top st
    if c = s.null then
      -- both subtrees of the node under the marker are done
      let st ← pop st
      let c ← top st
      let st ← setTop s.null st
      let o ← print s c o
      let n ← s.node c
      houLoop s inner fuel st { o with v := o.v ++ [(n.key, n.value)] }
    else
      -- the left subtree of `c` is done, its right one is next
      let r ← s.right c
      houLoop s inner fuel (r :: s.null :: st) o

/-- `BST::hou()` (test_bst.cpp:193–221). -/
def hou (fuel : Nat) (s : State T V) (o : Out T V) : Except Fault (Out T V) :=
  houLoop s fuel fuel [s.root] o

/-! ## The recursive forms -/

/-- `BST::zhong(Node *)` (test_bst.cpp:223–231). -/
def zhongRec (s : State T V) : Nat → Addr → Out T V → Except Fault (Out T V)
  | 0, _, _ => .error .outOfFuel
  | fuel + 1, root, o =>
    if root ≠ s.null then do
      let l ← s.left root
      let o ← zhongRec s fuel l o
      let o ← print s root o
      let r ← s.right root
      zhongRec s fuel r o
    else
      .ok o

/-- `BST::di_zhong()` (test_bst.cpp:54). -/
def diZhong (fuel : Nat) (s : State T V) (o : Out T V) : Except Fault (Out T V) :=
  zhongRec s fuel s.root o

/-- `BST::xian(Node *)` (test_bst.cpp:233–241). -/
def xianRec (s : State T V) : Nat → Addr → Out T V → Except Fault (Out T V)
  | 0, _, _ => .error .outOfFuel
  | fuel + 1, root, o =>
    if root ≠ s.null then do
      let o ← print s root o
      let l ← s.left root
      let o ← xianRec s fuel l o
      let r ← s.right root
      xianRec s fuel r o
    else
      .ok o

/-- `BST::di_xian()` (test_bst.cpp:55). -/
def diXian (fuel : Nat) (s : State T V) (o : Out T V) : Except Fault (Out T V) :=
  xianRec s fuel s.root o

/-- `BST::hou(Node *)` (test_bst.cpp:243–252). -/
def houRec (s : State T V) : Nat → Addr → Out T V → Except Fault (Out T V)
  | 0, _, _ => .error .outOfFuel
  | fuel + 1, root, o =>
    if root ≠ s.null then do
      let l ← s.left root
      let o ← houRec s fuel l o
      let r ← s.right root
      let o ← houRec s fuel r o
      let o ← print s root o
      let n ← s.node root
      return { o with diV := o.diV ++ [(n.key, n.value)] }
    else
      .ok o

/-- `BST::di_hou()` (test_bst.cpp:56). -/
def diHou (fuel : Nat) (s : State T V) (o : Out T V) : Except Fault (Out T V) :=
  houRec s fuel s.root o

/-! ## What the pointers on the stack stand for -/

/-- What a pointer was put on the stack for. -/
inductive Role
  /-- A subtree to traverse: the root, a left or a right child, missing or not. -/
  | child
  /-- The sentinel above a node whose right subtree is being traversed. -/
  | marker
  /-- The sentinel in place of a node that has been visited. -/
  | finished
  deriving DecidableEq, Repr

/-- A pointer on the stack with what it stands for. -/
structure Item where
  addr : Addr
  role : Role
  deriving DecidableEq, Repr

/-- The loop takes the pointer for one of `roles`. -/
def Item.takenFor (it : Item) (roles : List Role) : Except Fault Unit :=
  if it.role ∈ roles then .ok () else .error (.mistaken it.addr)

/-- `descend` with roles: what is pushed is a left child. -/
def descendMarked (s : State T V) : Nat → List Item → Item → Except Fault (List Item)
  | 0, _, _ => .error .outOfFuel
  | inner + 1, st, c =>
    if c.addr ≠ s.null then do
      c.takenFor [.child]
      let l ← s.left c.addr
      let st := ⟨l, .child⟩ :: st
      let c ← top st
      descendMarked s inner st c
    else
      .ok st

/-- `houLoop` with roles. The sentinel a round begins by popping is a missing child or
a finished node, and the sentinel that makes it visit a node is a marker above that
node. -/
def houMarkedLoop (s : State T V) (inner : Nat) :
    Nat → List Item → Out T V → Except Fault (Out T V)
  | 0, _, _ => .error .outOfFuel
  | fuel + 1, st, o => do
    let c ← top st
    let st ← descendMarked s inner st c
    let d ← top st
    d.takenFor [.child, .finished]
    let st ← pop st
    if st.isEmpty then
      return o
    let c ← top st
    if c.addr = s.null then
      c.takenFor [.marker]
      let st ← pop st
      let c ← top st
      c.takenFor [.child]
      let st ← setTop ⟨s.null, .finished⟩ st
      let o ← print s c.addr o
      let n ← s.node c.addr
      houMarkedLoop s inner fuel st { o with v := o.v ++ [(n.key, n.value)] }
    else
      c.takenFor [.child]
      let r ← s.right c.addr
      houMarkedLoop s inner fuel (⟨r, .child⟩ :: ⟨s.null, .marker⟩ :: st) o

/-- `hou()` with roles. -/
def houMarked (fuel : Nat) (s : State T V) (o : Out T V) : Except Fault (Out T V) :=
  houMarkedLoop s fuel fuel [⟨s.root, .child⟩] o

end BstGenerator.Bst
