import BstGenerator.SmallObj.Chunk
import BstGenerator.Memory.Vec

/-!
# `FixedAllocator`

A translation of `FixedAllocator` (smallobj.h:143–270, SmallObj.cpp:280–748): a vector of
chunks, and pointers to the chunk used for the next allocation, to the one used for the
last deallocation, and to the one chunk that is empty.

Conventions of the translation, besides those of `Chunk`:

- A `Chunk *` is a buffer of the vector and an index, `none` if it is `NULL`. Using one
  that is to no element of `chunks_` is a `Fault`.
- What the system answers, when the vector grows and to `malloc`, is a parameter
  (`Answers`).
- `DO_EXTRA_LOKI_TESTS` is not defined, so `CountEmptyChunks` only looks at `emptyChunk_`.
-/

namespace BstGenerator.SmallObj

open Memory

/-- `FixedAllocator::MinObjectsPerChunk_` (smallobj.h:188). -/
def MinObjectsPerChunk : Nat := 8

/-- `FixedAllocator::MaxObjectsPerChunk_` (smallobj.h:191), which is `UCHAR_MAX`. -/
def MaxObjectsPerChunk : Nat := 255

/-- What the system answers to one `Allocate`: whether the vector finds a larger buffer,
and the address `malloc` gives. -/
structure Answers where
  reserve : Bool
  malloc : Option Nat
  deriving DecidableEq, Repr

/-- `FixedAllocator` (smallobj.h:193–206). -/
structure FixedAllocator where
  blockSize : Nat
  numBlocks : UInt8
  chunks : Vec Chunk
  allocChunk : Option Vec.Ptr
  deallocChunk : Option Vec.Ptr
  emptyChunk : Option Vec.Ptr
  deriving DecidableEq, Repr

namespace FixedAllocator

/-- `FixedAllocator::FixedAllocator` (SmallObj.cpp:280–288). -/
def construct : FixedAllocator := ⟨0, 0, Vec.empty, none, none, none⟩

/-- `FixedAllocator::Initialize` (SmallObj.cpp:304–316). -/
def initializeSizes (blockSize pageSize : Nat) (f : FixedAllocator) :
    Except Fault FixedAllocator := do
  assert (blockSize > 0)
  assert (pageSize ≥ blockSize)
  let numBlocks := pageSize / blockSize
  let numBlocks :=
    if numBlocks > MaxObjectsPerChunk then MaxObjectsPerChunk
    else if numBlocks < MinObjectsPerChunk then MinObjectsPerChunk
    else numBlocks
  let f := { f with blockSize := blockSize, numBlocks := UInt8.ofNat numBlocks }
  assert (f.numBlocks.toNat = numBlocks)
  return f

/-- `numBlocks_ * blockSize_`. -/
def chunkLength (f : FixedAllocator) : Nat := sizeT (f.numBlocks.toNat * f.blockSize)

/-- What a pointer is to. -/
def deref (p : Option Vec.Ptr) (f : FixedAllocator) : Except Fault Chunk :=
  match p with
  | none => .error .dangling
  | some p =>
    match f.chunks.get? p with
    | some c => .ok c
    | none => .error .dangling

/-- Write through a pointer. -/
def assign (p : Option Vec.Ptr) (c : Chunk) (f : FixedAllocator) : FixedAllocator :=
  match p with
  | none => f
  | some p => { f with chunks := f.chunks.set p c }

/-- Where a pointer is among the pointers into the vector; `NULL` is before all others. -/
def position (p : Option Vec.Ptr) (f : FixedAllocator) : Except Fault Int :=
  match p with
  | none => .ok (-1)
  | some p => if p.buffer = f.chunks.buffer then .ok p.index else .error .dangling

/-- `FixedAllocator::CountEmptyChunks` (SmallObj.cpp:320–337). -/
def countEmptyChunks (f : FixedAllocator) : Nat := if none = f.emptyChunk then 0 else 1

/-- `assert( ( NULL == emptyChunk_ ) || ( emptyChunk_->HasAvailable( numBlocks_ ) ) )`. -/
def assertEmptyChunk (f : FixedAllocator) : Except Fault Unit :=
  match f.emptyChunk with
  | none => .ok ()
  | some p => do assert ((← f.deref (some p)).hasAvailable f.numBlocks)

/-- `FixedAllocator::HasBlock` (SmallObj.cpp:456–466). -/
def hasBlock (p : Nat) (f : FixedAllocator) : Option Vec.Ptr :=
  (f.chunks.items.findIdx? fun chunk => chunk.hasBlock p f.chunkLength).map f.chunks.ptr

/-- The start of `MakeNewChunk`, up to the call of `reserve`; `none` if that throws. -/
def reserveChunks (reserve : Bool) (f : FixedAllocator) : Option FixedAllocator :=
  let size := f.chunks.size
  if f.chunks.capacity = size then
    let size := if 0 = size then 4 else size
    if reserve then some { f with chunks := f.chunks.reserve (size * 2) } else none
  else
    some f

/-- `FixedAllocator::MakeNewChunk` (SmallObj.cpp:533–561). -/
def makeNewChunk (answers : Answers) (f : FixedAllocator) (m : Bytes) :
    Except Fault (Bool × FixedAllocator × Bytes) := do
  match f.reserveChunks answers.reserve with
  -- the exception is caught
  | none => return (false, f, m)
  | some f =>
    match ← Chunk.init f.blockSize f.numBlocks answers.malloc m with
    | none => return (false, f, m)
    | some (newChunk, m) =>
      let f := { f with chunks := f.chunks.pushBack newChunk }
      return (true, { f with allocChunk := some f.chunks.back,
                             deallocChunk := some f.chunks.front }, m)

/-- `( NULL == allocChunk_ ) || allocChunk_->IsFilled()`. -/
def allocChunkFilled (f : FixedAllocator) : Except Fault Bool :=
  match f.allocChunk with
  | none => .ok true
  | some p => do return (← f.deref (some p)).isFilled

/-- The start of `Allocate`: `allocChunk_` is made to point to a chunk with a free block
(SmallObj.cpp:572–601). `false` if there is none. -/
def findAllocChunk (answers : Answers) (f : FixedAllocator) (m : Bytes) :
    Except Fault (Bool × FixedAllocator × Bytes) := do
  if ← f.allocChunkFilled then
    if none ≠ f.emptyChunk then
      return (true, { f with allocChunk := f.emptyChunk, emptyChunk := none }, m)
    else
      match f.chunks.items.findIdx? fun chunk => !chunk.isFilled with
      | none => makeNewChunk answers f m
      | some i => return (true, { f with allocChunk := some (f.chunks.ptr i) }, m)
  else if f.allocChunk = f.emptyChunk then
    -- it is no longer empty after the allocation
    return (true, { f with emptyChunk := none }, m)
  else
    return (true, f, m)

/-- `FixedAllocator::Allocate` (SmallObj.cpp:565–619); `none` is `NULL`. -/
def allocate (answers : Answers) (f : FixedAllocator) (m : Bytes) :
    Except Fault (Option Nat × FixedAllocator × Bytes) := do
  f.assertEmptyChunk
  assert (f.countEmptyChunks < 2)
  let (found, f, m) ← f.findAllocChunk answers m
  if found then
    match f.allocChunk with
    | none => .error .assertion
    | some p =>
      let allocChunk ← f.deref (some p)
      assert (¬ allocChunk.isFilled)
      let (place, allocChunk) ← allocChunk.allocate f.blockSize m
      let f := { f with chunks := f.chunks.set p allocChunk }
      f.assertEmptyChunk
      assert (f.countEmptyChunks < 2)
      return (place, f, m)
  else
    return (none, f, m)

/-- What a look at one chunk in `VicinityFind` leads to. -/
inductive Look
  | found (p : Vec.Ptr)
  /-- Both cursors have passed their bounds. -/
  | stop
  /-- Where the cursor is then. -/
  | goOn (cursor : Option Vec.Ptr)
  deriving DecidableEq, Repr

/-- One look at `lo` (SmallObj.cpp:679–688). -/
def lookLo (p : Nat) (f : FixedAllocator) (lo hi : Option Vec.Ptr) : Except Fault Look :=
  match lo with
  | none => return .goOn none
  | some lo => do
    if (← f.deref (some lo)).hasBlock p f.chunkLength then
      return .found lo
    else if lo = f.chunks.front then
      return if none = hi then .stop else .goOn none
    else
      return .goOn (some { lo with index := lo.index - 1 })

/-- One look at `hi` (SmallObj.cpp:690–698). -/
def lookHi (p : Nat) (f : FixedAllocator) (lo hi : Option Vec.Ptr) : Except Fault Look :=
  match hi with
  | none => return .goOn none
  | some hi => do
    if (← f.deref (some hi)).hasBlock p f.chunkLength then
      return .found hi
    else if { hi with index := hi.index + 1 } = f.chunks.ptr f.chunks.size then
      return if none = lo then .stop else .goOn none
    else
      return .goOn (some { hi with index := hi.index + 1 })

/-- The loop of `VicinityFind`. -/
def vicinityLoop (p : Nat) (f : FixedAllocator) : Nat → Option Vec.Ptr → Option Vec.Ptr →
    Except Fault (Option Vec.Ptr)
  | 0, _, _ => .error .outOfFuel
  | fuel + 1, lo, hi => do
    match ← f.lookLo p lo hi with
    | .found q => return some q
    | .stop => return none
    | .goOn lo =>
      match ← f.lookHi p lo hi with
      | .found q => return some q
      | .stop => return none
      | .goOn hi => vicinityLoop p f fuel lo hi

/-- `FixedAllocator::VicinityFind` (SmallObj.cpp:659–702). A round looks at a chunk that
was not looked at before, so there are no more rounds than chunks. -/
def vicinityFind (p : Nat) (f : FixedAllocator) : Except Fault (Option Vec.Ptr) :=
  if f.chunks.items = [] then
    return none
  else
    match f.deallocChunk with
    | none => .error .assertion
    | some lo =>
      let hi : Vec.Ptr := { lo with index := lo.index + 1 }
      -- "Special case: deallocChunk_ is the last in the array"
      let hi := if hi = f.chunks.ptr f.chunks.size then none else some hi
      vicinityLoop p f f.chunks.size (some lo) hi

/-- The start of the part of `DoDeallocate` for a second empty chunk: one of the two is made
the last (SmallObj.cpp:729–736). -/
def moveEmptyLast (f : FixedAllocator) : FixedAllocator :=
  let lastChunk := f.chunks.back
  if some lastChunk = f.deallocChunk then
    { f with deallocChunk := f.emptyChunk }
  else
    match f.emptyChunk with
    | none => f
    | some e => if lastChunk ≠ e then { f with chunks := f.chunks.swap e lastChunk } else f

/-- Its end: the last chunk is released (SmallObj.cpp:737–741). -/
def releaseLast (f : FixedAllocator) (m : Bytes) : Except Fault (FixedAllocator × Bytes) := do
  let lastChunk := f.chunks.back
  let last ← f.deref (some lastChunk)
  assert (last.hasAvailable f.numBlocks)
  let m ← last.release m
  let f := { f with chunks := f.chunks.popBack }
  if f.allocChunk = some lastChunk then
    return ({ f with allocChunk := f.deallocChunk }, m)
  else if (← f.deref f.allocChunk).isFilled then
    return ({ f with allocChunk := f.deallocChunk }, m)
  else
    return (f, m)

/-- The part of `DoDeallocate` after the block is back in its chunk (SmallObj.cpp:720–744). -/
def updateEmptyChunk (f : FixedAllocator) (m : Bytes) :
    Except Fault (FixedAllocator × Bytes) := do
  if (← f.deref f.deallocChunk).hasAvailable f.numBlocks then
    assert (f.emptyChunk ≠ f.deallocChunk)
    let (f, m) ← (if none ≠ f.emptyChunk then f.moveEmptyLast.releaseLast m else .ok (f, m))
    return ({ f with emptyChunk := f.deallocChunk }, m)
  else
    return (f, m)

/-- `FixedAllocator::DoDeallocate` (SmallObj.cpp:706–748). -/
def doDeallocate (p : Nat) (f : FixedAllocator) (m : Bytes) :
    Except Fault (FixedAllocator × Bytes) := do
  let deallocChunk ← f.deref f.deallocChunk
  assert (deallocChunk.hasBlock p f.chunkLength)
  assert (f.emptyChunk ≠ f.deallocChunk)
  assert (¬ deallocChunk.hasAvailable f.numBlocks)
  f.assertEmptyChunk
  let (deallocChunk, m) ← deallocChunk.deallocate p f.blockSize m
  let (f, m) ← (f.assign f.deallocChunk deallocChunk).updateEmptyChunk m
  f.assertEmptyChunk
  return (f, m)

/-- The first assertions of `Deallocate` (SmallObj.cpp:625–630). -/
def assertPointers (f : FixedAllocator) : Except Fault Unit := do
  assert (f.chunks.items ≠ [])
  let front ← f.position (some f.chunks.front)
  let back ← f.position (some f.chunks.back)
  assert (front ≤ (← f.position f.deallocChunk))
  assert (back ≥ (← f.position f.deallocChunk))
  assert (front ≤ (← f.position f.allocChunk))
  assert (back ≥ (← f.position f.allocChunk))
  assert (f.countEmptyChunks < 2)

/-- The chunk `Deallocate` goes on with (SmallObj.cpp:632). -/
def foundChunk (p : Nat) (hint : Option Vec.Ptr) (f : FixedAllocator) :
    Except Fault (Option Vec.Ptr) :=
  match hint with
  | none => f.vicinityFind p
  | some hint => .ok (some hint)

/-- `FixedAllocator::Deallocate` (SmallObj.cpp:623–654). -/
def deallocate (p : Nat) (hint : Option Vec.Ptr) (f : FixedAllocator) (m : Bytes) :
    Except Fault (Bool × FixedAllocator × Bytes) := do
  f.assertPointers
  match ← f.foundChunk p hint with
  | none => return (false, f, m)
  | some found =>
    assert ((← f.deref (some found)).hasBlock p f.chunkLength)
    let (f, m) ← { f with deallocChunk := some found }.doDeallocate p m
    assert (f.countEmptyChunks < 2)
    return (true, f, m)

/-- `assert( p->blocksAvailable_ < numBlocks_ )`. -/
def assertInUse (p : Vec.Ptr) (f : FixedAllocator) : Except Fault Unit := do
  assert ((← f.deref (some p)).blocksAvailable < f.numBlocks)

/-- A pointer to the chunk that was empty is pointed to another. -/
def redirect (e target : Vec.Ptr) (p : Option Vec.Ptr) (f : FixedAllocator) :
    Except Fault (Option Vec.Ptr) :=
  if p = some e then do
    f.assertInUse target
    return some target
  else
    return p

/-- The end of `TrimEmptyChunk`, after the empty chunk is released (SmallObj.cpp:488–507). -/
def forgetEmptyChunk (e : Vec.Ptr) (f : FixedAllocator) : Except Fault FixedAllocator := do
  if f.chunks.items = [] then
    return { f with allocChunk := none, deallocChunk := none, emptyChunk := none }
  else
    let deallocChunk ← f.redirect e f.chunks.front f.deallocChunk
    let allocChunk ← f.redirect e f.chunks.back f.allocChunk
    return { f with allocChunk := allocChunk, deallocChunk := deallocChunk, emptyChunk := none }

/-- The empty chunk is made the last (SmallObj.cpp:481–483). -/
def bringLast (e : Vec.Ptr) (f : FixedAllocator) : FixedAllocator :=
  if f.chunks.back ≠ e then { f with chunks := f.chunks.swap e f.chunks.back } else f

/-- `FixedAllocator::TrimEmptyChunk` (SmallObj.cpp:470–511). -/
def trimEmptyChunk (f : FixedAllocator) (m : Bytes) :
    Except Fault (Bool × FixedAllocator × Bytes) := do
  f.assertEmptyChunk
  match f.emptyChunk with
  | none => return (false, f, m)
  | some e =>
    assert (f.chunks.items ≠ [])
    assert (1 = f.countEmptyChunks)
    let lastChunk := f.chunks.back
    let f := f.bringLast e
    let last ← f.deref (some lastChunk)
    assert (last.hasAvailable f.numBlocks)
    let m ← last.release m
    let f ← { f with chunks := f.chunks.popBack }.forgetEmptyChunk e
    assert (0 = f.countEmptyChunks)
    return (true, f, m)

/-- `FixedAllocator::TrimChunkList` (SmallObj.cpp:515–529). -/
def trimChunkList (f : FixedAllocator) : Except Fault (Bool × FixedAllocator) := do
  if f.chunks.items = [] then
    assert (none = f.allocChunk)
    assert (none = f.deallocChunk)
  if f.chunks.size = f.chunks.capacity then
    return (false, f)
  else
    return (true, { f with chunks := f.chunks.shrink })

/-- The last loop of `IsCorrupt`. -/
def anyCorrupt (f : FixedAllocator) (m : Bytes) : List Chunk → Except Fault Bool
  | [] => return false
  | chunk :: chunks => do
    if ← chunk.isCorrupt f.numBlocks f.blockSize true m then
      return true
    else
      anyCorrupt f m chunks

/-- `FixedAllocator::IsCorrupt` (SmallObj.cpp:341–452). -/
def isCorrupt (f : FixedAllocator) (m : Bytes) : Except Fault Bool := do
  let emptyChunkCount := f.countEmptyChunks
  if f.chunks.items = [] then
    assert (¬ 0 < emptyChunkCount)
    assert (¬ none ≠ f.deallocChunk)
    assert (¬ none ≠ f.allocChunk)
    assert (¬ none ≠ f.emptyChunk)
    return false
  else
    let front ← f.position (some f.chunks.front)
    let back ← f.position (some f.chunks.back)
    assert (¬ back < (← f.position f.deallocChunk))
    assert (¬ back < (← f.position f.allocChunk))
    assert (¬ front > (← f.position f.deallocChunk))
    assert (¬ front > (← f.position f.allocChunk))
    match emptyChunkCount with
    | 0 => assert (¬ f.emptyChunk ≠ none)
    | 1 =>
      assert (¬ f.emptyChunk = none)
      assert (¬ back < (← f.position f.emptyChunk))
      assert (¬ front > (← f.position f.emptyChunk))
      assert (¬ ¬ (← f.deref f.emptyChunk).hasAvailable f.numBlocks)
    | _ => .error .assertion
    anyCorrupt f m f.chunks.items

/-- `FixedAllocator::~FixedAllocator` (SmallObj.cpp:292–300). -/
def destruct (f : FixedAllocator) (m : Bytes) : Except Fault Bytes :=
  f.chunks.items.foldlM (fun m chunk => chunk.release m) m

end FixedAllocator

end BstGenerator.SmallObj
