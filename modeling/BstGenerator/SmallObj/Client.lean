import BstGenerator.SmallObj.Trim
import BstGenerator.SmallObj.Checks

/-!
# An allocator and its client

What a program does that uses a `FixedAllocator`: it allocates, gives back blocks, writes
to memory, and calls the functions that trim and check.

- `step`: what each call does, to the allocator, to memory and to the blocks the client has.
- `Proper`: what a client has to keep to.
- `Harmless`: the calls that keep the class level invariants. Those that do not are
  `LosesChunks`, `LosesLast` and `LosesBuffer`.
-/

namespace BstGenerator.SmallObj

open Memory Machine

/-- The allocator, memory, and the blocks the client has. -/
structure System where
  allocator : FixedAllocator
  memory : Bytes
  live : List Nat

/-- What the client does: the calls of the allocator, and a write of its own. -/
inductive Command
  | allocate (answers : Answers)
  /-- With the chunk that `HasBlock` finds, or with a null pointer. -/
  | deallocate (p : Nat) (hinted : Bool)
  | write (a : Nat) (v : UInt8)
  | trimEmptyChunk
  | trimChunkList
  | isCorrupt
  deriving DecidableEq, Repr

/-- What a command does. A place that `Allocate` gives is the client's from then on. -/
def step : Command → System → Except Fault System
  | .allocate answers, s => do
    let (place, allocator, memory) ← s.allocator.allocate answers s.memory
    return ⟨allocator, memory, place.toList ++ s.live⟩
  | .deallocate p hinted, s => do
    let hint := if hinted then s.allocator.hasBlock p else none
    let (_, allocator, memory) ← s.allocator.deallocate p hint s.memory
    return ⟨allocator, memory, s.live.erase p⟩
  | .write a v, s => return { s with memory := s.memory.poke a v }
  | .trimEmptyChunk, s => do
    let (_, allocator, memory) ← s.allocator.trimEmptyChunk s.memory
    return { s with allocator := allocator, memory := memory }
  | .trimChunkList, s => do
    let (_, allocator) ← s.allocator.trimChunkList
    return { s with allocator := allocator }
  | .isCorrupt, s => do
    let _ ← s.allocator.isCorrupt s.memory
    return s

/-- A new allocator, initialized. -/
def initial (blockSize pageSize : Nat) : Except Fault System := do
  return ⟨← FixedAllocator.construct.initializeSizes blockSize pageSize, Bytes.empty, []⟩

/-- The sizes that `Initialize` and the overflow checks of `Chunk` let through. -/
structure Fits (blockSize pageSize : Nat) : Prop where
  pos : 0 < blockSize
  le : blockSize ≤ pageSize
  page : pageSize < 2 ^ 64
  chunk : MinObjectsPerChunk * blockSize < 2 ^ 64

/-- The bytes of the block at `p`. -/
def System.extent (s : System) (p : Nat) : Extent := ⟨p, s.allocator.blockSize⟩

/-- The client gives back what it has, or, once there is a chunk, what no chunk has: without
any chunk `Deallocate` fails the assertion that there is one, whatever the address. And the
client writes to its blocks, or to memory that is not the allocator's. -/
def Proper : Command → System → Prop
  | .deallocate p _, s => p ∈ s.live ∨ s.allocator.chunks.items ≠ [] ∧ s.allocator.hasBlock p = none
  | .write a _, s => (∃ p ∈ s.live, (s.extent p).Contains a) ∨ s.allocator.hasBlock a = none
  | _, _ => True

/-- The command does not lose the chunks that a pointer is to. -/
def Harmless : Command → System → Prop
  | .allocate answers, s => ¬ s.allocator.LosesChunks s.memory answers
  | .trimEmptyChunk, s => ¬ s.allocator.LosesLast
  | .trimChunkList, s => ¬ s.allocator.LosesBuffer
  | _, _ => True

instance (c : Command) (s : System) : Decidable (Proper c s) :=
  match c with
  | .allocate _ => isTrue trivial
  | .deallocate _ _ => inferInstanceAs (Decidable (_ ∨ _))
  | .write _ _ => inferInstanceAs (Decidable (_ ∨ _))
  | .trimEmptyChunk => isTrue trivial
  | .trimChunkList => isTrue trivial
  | .isCorrupt => isTrue trivial

instance (f : FixedAllocator) (m : Bytes) (answers : Answers) :
    Decidable (f.LosesChunks m answers) :=
  have : Decidable (f.NoRoom m answers) :=
    decidable_of_iff ((m.malloc f.chunkLength answers.malloc).isNone = true)
      Option.isNone_iff_eq_none
  have : Decidable f.AllFilled := inferInstanceAs (Decidable (∀ c ∈ f.chunks.items, _))
  inferInstanceAs (Decidable (_ ∧ _ ∧ _ ∧ _ ∧ _))

instance (f : FixedAllocator) : Decidable f.LosesLast :=
  decidable_of_iff (∃ e ∈ f.emptyChunk.toList, e ≠ f.chunks.back ∧
    (f.allocChunk = some f.chunks.back ∨ f.deallocChunk = some f.chunks.back))
    (exists_congr fun _ => and_congr Option.mem_toList Iff.rfl)

instance (f : FixedAllocator) : Decidable f.LosesBuffer := inferInstanceAs (Decidable (_ ∧ _))

instance (c : Command) (s : System) : Decidable (Harmless c s) :=
  match c with
  | .allocate _ => inferInstanceAs (Decidable (¬ _))
  | .deallocate _ _ => isTrue trivial
  | .write _ _ => isTrue trivial
  | .trimEmptyChunk => inferInstanceAs (Decidable (¬ _))
  | .trimChunkList => inferInstanceAs (Decidable (¬ _))
  | .isCorrupt => isTrue trivial

/-- The command takes nothing from the block at `p` and writes nothing to it. -/
def Spares (p : Nat) : Command → System → Prop
  | .deallocate q _, _ => q ≠ p
  | .write a _, s => ¬ (s.extent p).Contains a
  | _, _ => True

instance (p : Nat) (c : Command) (s : System) : Decidable (Spares p c s) :=
  match c with
  | .allocate _ => isTrue trivial
  | .deallocate _ _ => inferInstanceAs (Decidable (_ ≠ _))
  | .write _ _ => inferInstanceAs (Decidable (¬ _))
  | .trimEmptyChunk => isTrue trivial
  | .trimChunkList => isTrue trivial
  | .isCorrupt => isTrue trivial

/-- What a client may do that keeps the class level invariants. -/
def Allowed (c : Command) (s : System) : Prop := Proper c s ∧ Harmless c s

instance (c : Command) (s : System) : Decidable (Allowed c s) :=
  inferInstanceAs (Decidable (_ ∧ _))

/-- The class level invariants hold, and the used blocks are those the client has. -/
structure Inv (z : Sizes) (s : System) : Prop where
  allocator : s.allocator.Sound z s.memory
  nodup : s.live.Nodup
  live (p : Nat) : p ∈ s.live ↔ Used z s.memory s.allocator.chunks.items p

end BstGenerator.SmallObj
