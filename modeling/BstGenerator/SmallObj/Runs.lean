import BstGenerator.SmallObj.Client

/-!
# Runs of the client

`Inv.keeps` says of each command that it succeeds, and what it keeps. By induction, every run
of a client that keeps to its part succeeds (`run_blocks`).
-/

namespace BstGenerator.SmallObj

open Memory Machine

variable {z : Sizes} {s t : System} {c : Command} {cs : List Command} {p a : Nat}
  {v : UInt8} {blockSize pageSize : Nat}

/-- What a command does to the state. -/
structure Keeps (z : Sizes) (c : Command) (s t : System) : Prop where
  sound : Harmless c s → Inv z t
  lost : ¬ Harmless c s → t.allocator.Lost
  spared : ∀ p ∈ s.live, Spares p c s → p ∈ t.live ∧
    ∀ a, (s.extent p).Contains a → t.memory.byte a = s.memory.byte a

namespace Inv

theorem extent_eq (h : Inv z s) : s.extent p = ⟨p, z.blockSize⟩ := by
  rw [System.extent, h.allocator.blockSize]

/-- The client's blocks are in memory that is allocated. -/
theorem mapped (h : Inv z s) (hp : p ∈ s.live) (ha : (s.extent p).Contains a) :
    s.memory.Mapped a := by
  rw [h.extent_eq] at ha
  exact h.allocator.pool.mapped_of_used ((h.live p).mp hp) ha

/-- No two of the client's blocks have a byte in common. -/
theorem apart {q : Nat} (h : Inv z s) (hp : p ∈ s.live) (hq : q ∈ s.live) (hne : p ≠ q) :
    (s.extent p).Apart (s.extent q) := by
  rw [h.extent_eq, h.extent_eq]
  exact h.allocator.pool.used_apart ((h.live p).mp hp) ((h.live q).mp hq) hne

theorem contains_self (h : Inv z s) : (s.extent p).Contains p := by
  rw [h.extent_eq]
  exact Extent.contains_base z.blockSize_pos

/-! ## One command -/

/-- `Allocate` gives a block that the client did not have, or `NULL`. -/
theorem allocate (h : Inv z s) (answers : Answers) :
    ∃ t, step (.allocate answers) s = .ok t ∧ Keeps z (.allocate answers) s t := by
  by_cases hmem : s.allocator.OutOfMemory s.memory answers
  · obtain ⟨f', hrun, hitems, hsound, hlost⟩ := FixedAllocator.allocate_none h.allocator hmem
    refine ⟨⟨f', s.memory, s.live⟩, by simp [step, hrun], fun hc => ⟨hsound hc, h.nodup, ?_⟩,
      fun hc => hlost (not_not.mp hc), fun p hp _ => ⟨hp, fun _ _ => rfl⟩⟩
    rw [hitems]
    exact h.live
  · obtain ⟨place, f', m', hrun, hsound, hnew, hused, hbyte, -⟩ :=
      FixedAllocator.allocate_some h.allocator hmem
    refine ⟨⟨f', m', place :: s.live⟩, by simp [step, hrun], fun _ => ⟨hsound, ?_, fun p => ?_⟩,
      fun hc => ?_, fun p hp _ => ⟨List.mem_cons_of_mem _ hp, fun a ha => ?_⟩⟩
    · exact List.nodup_cons.mpr ⟨fun hp => hnew ((h.live place).mp hp), h.nodup⟩
    · rw [List.mem_cons, hused, h.live]
    · have hloses := not_not.mp hc
      exact absurd ⟨hloses.2.1, Or.inr hloses.2.2.2.2⟩ hmem
    · exact hbyte a (h.mapped hp ha)

/-- A block is given back. -/
theorem deallocate_live (h : Inv z s) (hp : p ∈ s.live) (hinted : Bool) :
    ∃ t, step (.deallocate p hinted) s = .ok t ∧ Keeps z (.deallocate p hinted) s t := by
  have hhint : (if hinted then s.allocator.hasBlock p else none) = none ∨
      (if hinted then s.allocator.hasBlock p else none) = s.allocator.hasBlock p := by
    cases hinted
    · exact Or.inl rfl
    · exact Or.inr rfl
  obtain ⟨f', m', hrun, hsound, hused, hbyte⟩ :=
    h.allocator.deallocate ((h.live p).mp hp) hhint
  refine ⟨⟨f', m', s.live.erase p⟩, by simp [step, hrun],
    fun _ => ⟨hsound, h.nodup.erase p, fun q => ?_⟩, fun hc => absurd trivial hc,
    fun q hq hne => ⟨?_, fun a ha => hbyte a ?_⟩⟩
  · rw [h.nodup.mem_erase_iff, hused, h.live]
  · exact (List.mem_erase_of_ne (Ne.symm hne)).mpr hq
  · rintro rfl
    exact (h.apart hq hp (Ne.symm hne)).not_contains ha h.contains_self

/-- What is not of the allocator is not taken. -/
theorem deallocate_foreign (h : Inv z s) (hnil : s.allocator.chunks.items ≠ [])
    (hp : s.allocator.hasBlock p = none) (hinted : Bool) :
    ∃ t, step (.deallocate p hinted) s = .ok t ∧ Keeps z (.deallocate p hinted) s t := by
  have hnot : ∀ i, ¬ s.allocator.At p i := by
    rcases s.allocator.hasBlock_cases p with ⟨-, hnot⟩ | ⟨i, hi, -⟩
    · exact hnot
    · rw [hp] at hi
      cases hi
  have hrun := h.allocator.deallocate_foreign hnil hnot
  have hlive : p ∉ s.live := by
    intro hlive
    obtain ⟨q, c, hq, -⟩ := h.allocator.exists_of_used ((h.live p).mp hlive)
    rw [hp] at hq
    cases hq
  refine ⟨s, ?_, fun _ => h, fun hc => absurd trivial hc, fun q hq _ => ⟨hq, fun _ _ => rfl⟩⟩
  simp [step, hp, hrun, List.erase_of_not_mem hlive]

/-- A write to a block or to memory that is not of the allocator. -/
theorem write (h : Inv z s) (ha : Proper (.write a v) s) :
    ∃ t, step (.write a v) s = .ok t ∧ Keeps z (.write a v) s t := by
  have hout : Outside z s.memory s.allocator.chunks.items a := by
    rcases ha with ⟨p, hp, hpa⟩ | hnone
    · rw [h.extent_eq] at hpa
      exact h.allocator.pool.outside_of_used ((h.live p).mp hp) hpa
    · exact h.allocator.outside_of_hasBlock hnone
  obtain ⟨hsound, hused⟩ := h.allocator.poke hout v
  refine ⟨_, rfl, fun _ => ⟨hsound, h.nodup, fun q => (h.live q).trans (hused q).symm⟩,
    fun hc => absurd trivial hc, fun p hp hspares => ⟨hp, fun b hb => if_neg ?_⟩⟩
  rintro rfl
  exact hspares hb

/-- The empty chunk has none of the client's blocks, so it can go. -/
theorem trimEmptyChunk (h : Inv z s) :
    ∃ t, step .trimEmptyChunk s = .ok t ∧ Keeps z .trimEmptyChunk s t := by
  obtain ⟨r, f', m', hrun, -, -, -, hused, hbyte, hsound, hlost⟩ := h.allocator.trimEmptyChunk
  refine ⟨⟨f', m', s.live⟩, by simp [step, hrun],
    fun hc => ⟨hsound hc, h.nodup, fun p => (h.live p).trans (hused p).symm⟩,
    fun hc => hlost (not_not.mp hc), fun p hp _ => ⟨hp, fun a _ => ?_⟩⟩
  rw [hbyte]

/-- If the chunks move to another buffer, their blocks stay where they are. -/
theorem trimChunkList (h : Inv z s) :
    ∃ t, step .trimChunkList s = .ok t ∧ Keeps z .trimChunkList s t := by
  obtain ⟨r, f', hrun, hitems, hsound, hlost⟩ := h.allocator.trimChunkList
  refine ⟨⟨f', s.memory, s.live⟩, by simp [step, hrun],
    fun hc => ⟨hsound hc, h.nodup, ?_⟩, fun hc => hlost (not_not.mp hc),
    fun p hp _ => ⟨hp, fun _ _ => rfl⟩⟩
  rw [hitems]
  exact h.live

/-- **Every command of the client succeeds**, and keeps the invariants if it is harmless. -/
theorem keeps (h : Inv z s) (hc : Proper c s) :
    ∃ t, step c s = .ok t ∧ Keeps z c s t := by
  cases c with
  | allocate answers => exact h.allocate answers
  | deallocate p hinted =>
    rcases hc with hp | ⟨hnil, hp⟩
    · exact h.deallocate_live hp hinted
    · exact h.deallocate_foreign hnil hp hinted
  | write a v => exact h.write hc
  | trimEmptyChunk => exact h.trimEmptyChunk
  | trimChunkList => exact h.trimChunkList
  | isCorrupt =>
    refine ⟨s, ?_, fun _ => h, fun hc => absurd trivial hc, fun p hp _ => ⟨hp, fun _ _ => rfl⟩⟩
    simp [step, h.allocator.isCorrupt]

end Inv

/-! ## The initial state -/

/-- The number of blocks that `Initialize` gives a chunk: as many as a page has room for, but
not less than 8 and not more than a byte can count. -/
def blocksPerChunk (blockSize pageSize : Nat) : Nat :=
  max MinObjectsPerChunk (min MaxObjectsPerChunk (pageSize / blockSize))

/-- The number of blocks is not 0, and fits into the byte that `Initialize` puts it in. -/
theorem blocksPerChunk_lt (blockSize pageSize : Nat) :
    0 < blocksPerChunk blockSize pageSize ∧ blocksPerChunk blockSize pageSize < 2 ^ 8 := by
  simp only [blocksPerChunk, MinObjectsPerChunk, MaxObjectsPerChunk]
  omega

/-- The cut-offs of `Initialize`, one after the other. -/
theorem blocksPerChunk_eq (blockSize pageSize : Nat) :
    (if pageSize / blockSize > MaxObjectsPerChunk then MaxObjectsPerChunk
      else if pageSize / blockSize < MinObjectsPerChunk then MinObjectsPerChunk
      else pageSize / blockSize) = blocksPerChunk blockSize pageSize := by
  have hle : MinObjectsPerChunk ≤ MaxObjectsPerChunk := by decide
  unfold blocksPerChunk
  by_cases hmax : pageSize / blockSize > MaxObjectsPerChunk
  · rw [if_pos hmax, Nat.min_eq_left (Nat.le_of_lt hmax), Nat.max_eq_right hle]
  · rw [if_neg hmax, Nat.min_eq_right (Nat.not_lt.mp hmax)]
    by_cases hmin : pageSize / blockSize < MinObjectsPerChunk
    · rw [if_pos hmin, Nat.max_eq_left (Nat.le_of_lt hmin)]
    · rw [if_neg hmin, Nat.max_eq_right (Nat.not_lt.mp hmin)]

/-- A chunk's size is a `std::size_t`. -/
theorem Fits.blocks_lt (h : Fits blockSize pageSize) :
    blocksPerChunk blockSize pageSize * blockSize < 2 ^ 64 := by
  rcases Nat.le_total (min MaxObjectsPerChunk (pageSize / blockSize)) MinObjectsPerChunk
    with hle | hle
  · rw [blocksPerChunk, Nat.max_eq_left hle]
    exact h.chunk
  · rw [blocksPerChunk, Nat.max_eq_right hle]
    have hpage : pageSize / blockSize * blockSize ≤ pageSize := Nat.div_mul_le_self ..
    have hmin := Nat.mul_le_mul_right blockSize
      (Nat.min_le_right MaxObjectsPerChunk (pageSize / blockSize))
    exact Nat.lt_of_le_of_lt (Nat.le_trans hmin hpage) h.page

theorem toNat_blocksPerChunk (blockSize pageSize : Nat) :
    (UInt8.ofNat (blocksPerChunk blockSize pageSize)).toNat =
      blocksPerChunk blockSize pageSize :=
  UInt8.toNat_ofNat_of_lt' (blocksPerChunk_lt blockSize pageSize).2

/-- The sizes of the blocks and chunks. -/
def Fits.sizes (h : Fits blockSize pageSize) : Sizes where
  blockSize := blockSize
  numBlocks := UInt8.ofNat (blocksPerChunk blockSize pageSize)
  blockSize_pos := h.pos
  numBlocks_pos := by
    rw [toNat_blocksPerChunk]
    exact (blocksPerChunk_lt blockSize pageSize).1
  fits := by
    rw [toNat_blocksPerChunk]
    exact h.blocks_lt

theorem initial_eq (h : Fits blockSize pageSize) : initial blockSize pageSize =
    .ok ⟨⟨blockSize, UInt8.ofNat (blocksPerChunk blockSize pageSize), Vec.empty, none, none, none⟩,
      Bytes.empty, []⟩ := by
  have hcount := toNat_blocksPerChunk blockSize pageSize
  simp only [initial, FixedAllocator.initializeSizes, blocksPerChunk_eq, ok_bind,
    Chunk.assert_of h.pos, Chunk.assert_of h.le, Chunk.assert_of hcount]
  rfl

/-- An initialized allocator keeps the invariants; it has no chunk. -/
theorem initial_inv (h : Fits blockSize pageSize) {s₀ : System}
    (hinit : initial blockSize pageSize = .ok s₀) : Inv h.sizes s₀ := by
  rw [initial_eq h] at hinit
  cases hinit
  refine ⟨⟨rfl, rfl, Nat.le_refl 0, Pool.empty _ rfl, rfl, rfl, fun p => ?_⟩,
    List.nodup_nil, fun p => ?_⟩
  · refine iff_of_false nofun ?_
    rintro ⟨c, hc, -⟩
    exact List.not_mem_nil (Vec.mem_of_get? hc)
  · refine iff_of_false List.not_mem_nil ?_
    rintro ⟨c, hc, -⟩
    exact List.not_mem_nil hc

/-! ## Whole runs -/

/-- Every run of a client that keeps to its part goes through and keeps the invariant. -/
theorem run_inv (h : Inv z s) (hal : Along step Allowed cs s) :
    ∃ t, run step cs s = .ok t ∧ Inv z t := by
  refine run_total (fun c s hc h => ?_) h hal
  obtain ⟨t, ht, hkeeps⟩ := h.keeps hc.1
  exact ⟨t, ht, hkeeps.sound hc.2⟩

/-- **No assertion fails** in a run of the client, and no byte is accessed that is not
allocated. The blocks the client has are different, in memory that is allocated, and no two
of them have a byte in common. -/
theorem run_blocks (hfits : Fits blockSize pageSize) {s₀ : System}
    (hinit : initial blockSize pageSize = .ok s₀) (hal : Along step Allowed cs s₀) :
    ∃ s, run step cs s₀ = .ok s ∧ s.live.Nodup ∧
      (∀ p ∈ s.live, ∀ a, (Extent.mk p blockSize).Contains a → s.memory.Mapped a) ∧
      ∀ p ∈ s.live, ∀ q ∈ s.live, p ≠ q →
        (Extent.mk p blockSize).Apart ⟨q, blockSize⟩ := by
  obtain ⟨s, hrun, h⟩ := run_inv (initial_inv hfits hinit) hal
  refine ⟨s, hrun, h.nodup, fun p hp a ha => ?_, fun p hp q hq hne => ?_⟩
  · exact h.allocator.pool.mapped_of_used ((h.live p).mp hp) ha
  · exact h.allocator.pool.used_apart ((h.live p).mp hp) ((h.live q).mp hq) hne

/-- A client that writes to one of its blocks and gives back another. -/
def session : List Command :=
  [.allocate ⟨true, some 1000⟩, .allocate ⟨true, none⟩, .write 1009 7, .deallocate 1000 false,
    .isCorrupt]

def sessionStart : System := ⟨⟨8, 8, Vec.empty, none, none, none⟩, Bytes.empty, []⟩

theorem fits_session : Fits 8 64 := ⟨by decide, by decide, by decide, by decide⟩

theorem run_blocks_session :
    ∃ s, run step session sessionStart = .ok s ∧ s.live.Nodup ∧
      (∀ p ∈ s.live, ∀ a, (Extent.mk p 8).Contains a → s.memory.Mapped a) ∧
      ∀ p ∈ s.live, ∀ q ∈ s.live, p ≠ q → (Extent.mk p 8).Apart ⟨q, 8⟩ := by
  have hinit : initial 8 64 = .ok sessionStart := rfl
  exact run_blocks fits_session hinit (by decide)

end BstGenerator.SmallObj
