import Mathlib.Algebra.Group.Nat.Defs
import BstGenerator.Memory.Bytes
import BstGenerator.Memory.FreeList
import BstGenerator.Machine.Run

/-!
# `Chunk` of the small object allocator

A translation of `Chunk` (smallobj.h:43–123, SmallObj.cpp:36–276): an extent of equal
blocks from `malloc`, whose free blocks are a list threaded through their first bytes, the
*stealth indexes*.

Conventions of the translation:

- An address is a number, an `unsigned char` a `UInt8`, a `std::size_t` a number modulo
  `2 ^ 64`, and a byte of the chunk a byte of `Bytes`.
- The build defines neither `NDEBUG` nor `DEBUG`, `USE_NEW_TO_ALLOCATE` and
  `LOKI_CHECK_FOR_CORRUPTION`: an `assert` that fails is a `Fault`, and so is
  `assert( false ); return true;`.
- Access to a byte that is not allocated is a `Fault`, and so is `free` of what `malloc`
  did not give.
- A loop that counts in an `unsigned char` is given the 256 rounds it can make.
-/

namespace BstGenerator.SmallObj

open Memory

/-- What takes a program out of the C++ semantics, or ends it. -/
inductive Fault
  /-- An `assert` fails. -/
  | assertion
  | unmapped (a : Nat)
  | invalidFree (a : Nat)
  /-- A pointer into `chunks_` is used that is to none of its elements. -/
  | dangling
  /-- `std::bitset::set` or `test` beyond its size. -/
  | outOfRange
  | outOfFuel
  deriving DecidableEq, Repr

/-- `assert(p)`. -/
def assert (p : Prop) [Decidable p] : Except Fault Unit :=
  if p then .ok () else .error .assertion

def NULL : Nat := 0

/-- A value of `std::size_t`. -/
def sizeT (n : Nat) : Nat := n % 2 ^ 64

/-- The difference of two pointers as a `std::size_t`. -/
def distance (p q : Nat) : Nat := sizeT (p + 2 ^ 64 - q)

def load (a : Nat) (m : Bytes) : Except Fault UInt8 :=
  match m.read a with
  | some v => .ok v
  | none => .error (.unmapped a)

def store (a : Nat) (v : UInt8) (m : Bytes) : Except Fault Bytes :=
  match m.write a v with
  | some m => .ok m
  | none => .error (.unmapped a)

/-- `std::bitset<UCHAR_MAX>`, as the list of the bits that are set. -/
abbrev Bitset : Type := List UInt8

namespace Bitset

def set (i : UInt8) (b : Bitset) : Except Fault Bitset :=
  if i.toNat < 255 then .ok (if i ∈ b then b else i :: b) else .error .outOfRange

def test (i : UInt8) (b : Bitset) : Except Fault Bool :=
  if i.toNat < 255 then .ok (i ∈ b) else .error .outOfRange

def count (b : Bitset) : Nat := b.length

end Bitset

/-- `Chunk` (smallobj.h:117–122). -/
structure Chunk where
  pData : Nat
  firstAvailableBlock : UInt8
  blocksAvailable : UInt8
  deriving DecidableEq, Repr

namespace Chunk

/-- `Chunk::HasBlock` (smallobj.h:105–109). -/
def hasBlock (p : Nat) (chunkLength : Nat) (c : Chunk) : Bool :=
  c.pData ≤ p ∧ p < c.pData + chunkLength

/-- `Chunk::HasAvailable` (smallobj.h:111–112). -/
def hasAvailable (numBlocks : UInt8) (c : Chunk) : Bool := c.blocksAvailable = numBlocks

/-- `Chunk::IsFilled` (smallobj.h:114–115). -/
def isFilled (c : Chunk) : Bool := 0 = c.blocksAvailable

/-- The loop of `Reset`: block after block is given the index of the next. -/
def resetLoop (blockSize : Nat) (blocks : UInt8) : Nat → UInt8 → Nat → Bytes →
    Except Fault Bytes
  | 0, _, _, _ => .error .outOfFuel
  | fuel + 1, i, p, m =>
    if i ≠ blocks then do
      let i := i + 1
      let m ← store p i m
      resetLoop blockSize blocks fuel i (p + blockSize) m
    else
      return m

/-- `Chunk::Reset` (SmallObj.cpp:61–76). -/
def reset (blockSize : Nat) (blocks : UInt8) (c : Chunk) (m : Bytes) :
    Except Fault (Chunk × Bytes) := do
  assert (blockSize > 0)
  assert (blocks > 0)
  -- overflow check
  assert (sizeT (blockSize * blocks.toNat) / blockSize = blocks.toNat)
  let c := { c with firstAvailableBlock := 0, blocksAvailable := blocks }
  let m ← resetLoop blockSize blocks 256 0 c.pData m
  return (c, m)

/-- `Chunk::Init` (SmallObj.cpp:36–57) of a new chunk, where `malloc` gives `answer`;
`none` if that is `NULL`. `Reset` writes the two other fields, which are indeterminate
till then. -/
def init (blockSize : Nat) (blocks : UInt8) (answer : Option Nat) (m : Bytes) :
    Except Fault (Option (Chunk × Bytes)) := do
  assert (blockSize > 0)
  assert (blocks > 0)
  let allocSize := sizeT (blockSize * blocks.toNat)
  assert (allocSize / blockSize = blocks.toNat)
  match m.malloc allocSize answer with
  | none => return none
  | some (p, m) => return some (← reset blockSize blocks ⟨p, 0, 0⟩ m)

/-- `Chunk::Release` (SmallObj.cpp:80–88). -/
def release (c : Chunk) (m : Bytes) : Except Fault Bytes := do
  assert (NULL ≠ c.pData)
  match m.free c.pData with
  | some m => return m
  | none => .error (.invalidFree c.pData)

/-- `Chunk::Allocate` (SmallObj.cpp:92–103): the block, or `NULL`, and the chunk without
it. -/
def allocate (blockSize : Nat) (c : Chunk) (m : Bytes) :
    Except Fault (Option Nat × Chunk) := do
  if c.isFilled then
    return (none, c)
  let offset := sizeT (c.firstAvailableBlock.toNat * blockSize)
  assert (offset / blockSize = c.firstAvailableBlock.toNat)
  let pResult := c.pData + offset
  let firstAvailableBlock ← load pResult m
  return (some pResult, { c with firstAvailableBlock := firstAvailableBlock,
                                 blocksAvailable := c.blocksAvailable - 1 })

/-- `Chunk::Deallocate` (SmallObj.cpp:107–131). -/
def deallocate (p : Nat) (blockSize : Nat) (c : Chunk) (m : Bytes) :
    Except Fault (Chunk × Bytes) := do
  assert (p ≥ c.pData)
  -- alignment check
  assert (distance p c.pData % blockSize = 0)
  let index := UInt8.ofNat (distance p c.pData / blockSize)
  let m ← store p c.firstAvailableBlock m
  let c := { c with firstAvailableBlock := index }
  -- truncation check
  assert (c.firstAvailableBlock.toNat = distance p c.pData / blockSize)
  return ({ c with blocksAvailable := c.blocksAvailable + 1 }, m)

/-- The loop of `IsCorrupt` along the stealth indexes. It gives the bits it has set. -/
def isCorruptLoop (numBlocks : UInt8) (blockSize : Nat) (c : Chunk) (m : Bytes) :
    Nat → UInt8 → UInt8 → Bitset → Except Fault Bitset
  | 0, _, _, _ => .error .outOfFuel
  | fuel + 1, cc, index, foundBlocks => do
    let nextBlock := c.pData + sizeT (index.toNat * blockSize)
    let foundBlocks ← foundBlocks.set index
    let cc := cc + 1
    if cc ≥ c.blocksAvailable then
      -- `break`
      return foundBlocks
    let index ← load nextBlock m
    -- "Index is too big"
    assert (¬ numBlocks ≤ index)
    -- "Index is repeated"
    assert (¬ (← foundBlocks.test index))
    isCorruptLoop numBlocks blockSize c m fuel cc index foundBlocks

/-- `Chunk::IsCorrupt` (SmallObj.cpp:135–232). -/
def isCorrupt (numBlocks : UInt8) (blockSize : Nat) (checkIndexes : Bool) (c : Chunk)
    (m : Bytes) : Except Fault Bool := do
  assert (¬ numBlocks < c.blocksAvailable)
  if c.isFilled then
    return false
  let index := c.firstAvailableBlock
  assert (¬ numBlocks ≤ index)
  if ¬ checkIndexes then
    return false
  let foundBlocks ← isCorruptLoop numBlocks blockSize c m 256 0 index []
  assert (¬ foundBlocks.count ≠ c.blocksAvailable.toNat)
  return false

/-- The loop of `IsBlockAvailable`. -/
def isBlockAvailableLoop (blockIndex numBlocks : UInt8) (blockSize : Nat) (c : Chunk)
    (m : Bytes) : Nat → UInt8 → UInt8 → Bitset → Except Fault Bool
  | 0, _, _, _ => .error .outOfFuel
  | fuel + 1, cc, index, foundBlocks => do
    let nextBlock := c.pData + sizeT (index.toNat * blockSize)
    let foundBlocks ← foundBlocks.set index
    let cc := cc + 1
    if cc ≥ c.blocksAvailable then
      -- `break`
      return false
    let index ← load nextBlock m
    if index = blockIndex then
      return true
    assert (numBlocks > index)
    assert (¬ (← foundBlocks.test index))
    isBlockAvailableLoop blockIndex numBlocks blockSize c m fuel cc index foundBlocks

/-- `Chunk::IsBlockAvailable` (SmallObj.cpp:236–276). -/
def isBlockAvailable (p : Nat) (numBlocks : UInt8) (blockSize : Nat) (c : Chunk)
    (m : Bytes) : Except Fault Bool := do
  if c.isFilled then
    return false
  -- alignment check
  assert (distance p c.pData % blockSize = 0)
  let blockIndex := UInt8.ofNat (distance p c.pData / blockSize)
  let index := c.firstAvailableBlock
  assert (numBlocks > index)
  if index = blockIndex then
    return true
  isBlockAvailableLoop blockIndex numBlocks blockSize c m 256 0 index []

end Chunk

end BstGenerator.SmallObj
