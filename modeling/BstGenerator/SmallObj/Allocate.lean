import BstGenerator.SmallObj.FixedAllocator
import BstGenerator.SmallObj.Pool

/-!
# `Allocate`

- `FixedAllocator.Sound`: the class level invariants (smallobj.h:131–141), on top of what a
  pool of chunks keeps.
- `FixedAllocator.Ready`: the same once `allocChunk_` has been found, which may be a chunk
  that is empty until the block is taken.
- `FixedAllocator.LosesChunks`: the one way in which `Allocate` breaks the invariants. The
  vector has moved to a larger buffer when `malloc` finds no room for the chunk, and the
  pointers still point to the old one.
-/

namespace BstGenerator.SmallObj

open Memory Machine

variable {z : Sizes} {m m' : Bytes} {f f' : FixedAllocator} {p q : Vec.Ptr} {c : Chunk}
  {answers : Answers}

namespace FixedAllocator

/-- The class level invariants. -/
structure Sound (z : Sizes) (f : FixedAllocator) (m : Bytes) : Prop where
  blockSize : f.blockSize = z.blockSize
  numBlocks : f.numBlocks = z.numBlocks
  room : f.chunks.size ≤ f.chunks.capacity
  pool : Pool z m f.chunks.items
  allocChunk : f.chunks.Holds f.allocChunk
  deallocChunk : f.chunks.Holds f.deallocChunk
  /-- `emptyChunk_` points to the empty chunk, if there is one; so there is one at most. -/
  emptyChunk (p : Vec.Ptr) : f.emptyChunk = some p ↔
    ∃ c, f.chunks.get? p = some c ∧ c.blocksAvailable = z.numBlocks

/-- A pointer is to no chunk, though there are chunks. -/
def Lost (f : FixedAllocator) : Prop :=
  f.chunks.items ≠ [] ∧ ¬ (f.chunks.Holds f.allocChunk ∧ f.chunks.Holds f.deallocChunk)

/-- `allocChunk_` has a free block, and is not the chunk `emptyChunk_` points to. -/
structure Ready (z : Sizes) (f : FixedAllocator) (m : Bytes) (p : Vec.Ptr) : Prop where
  blockSize : f.blockSize = z.blockSize
  numBlocks : f.numBlocks = z.numBlocks
  room : f.chunks.size ≤ f.chunks.capacity
  pool : Pool z m f.chunks.items
  allocChunk : f.allocChunk = some p
  hasRoom : ∃ c, f.chunks.get? p = some c ∧ c.isFilled = false
  deallocChunk : f.chunks.Holds f.deallocChunk
  emptyChunk (q : Vec.Ptr) : f.emptyChunk = some q ↔
    q ≠ p ∧ ∃ c, f.chunks.get? q = some c ∧ c.blocksAvailable = z.numBlocks

/-- No chunk has a free block. -/
def AllFilled (f : FixedAllocator) : Prop := ∀ c ∈ f.chunks.items, c.isFilled = true

/-- `malloc` has no room for a chunk. -/
def NoRoom (f : FixedAllocator) (m : Bytes) (answers : Answers) : Prop :=
  m.malloc f.chunkLength answers.malloc = none

/-- The vector is full and has moved, but there is no chunk to be added to it. -/
def LosesChunks (f : FixedAllocator) (m : Bytes) (answers : Answers) : Prop :=
  f.chunks.items ≠ [] ∧ f.AllFilled ∧ f.chunks.capacity = f.chunks.size ∧
    answers.reserve = true ∧ f.NoRoom m answers

/-- There is no block, and no memory for a chunk. -/
def OutOfMemory (f : FixedAllocator) (m : Bytes) (answers : Answers) : Prop :=
  f.AllFilled ∧
    (f.chunks.capacity = f.chunks.size ∧ answers.reserve = false ∨ f.NoRoom m answers)

/-- A chunk that `emptyChunk_` does not point to is not empty. -/
theorem Sound.not_empty (h : f.Sound z m) (hc : f.chunks.get? q = some c)
    (hq : f.emptyChunk ≠ some q) : c.blocksAvailable ≠ z.numBlocks :=
  fun havail => hq ((h.emptyChunk q).mpr ⟨c, hc, havail⟩)

/-- If it points to none, no chunk is. -/
theorem Sound.not_empty_of_none (h : f.Sound z m) (he : f.emptyChunk = none)
    (hc : c ∈ f.chunks.items) : c.blocksAvailable ≠ z.numBlocks := by
  obtain ⟨i, -, hget⟩ := Vec.exists_get?_of_mem hc
  refine h.not_empty hget ?_
  rw [he]
  exact nofun

theorem deref_eq (h : f.chunks.get? p = some c) : f.deref (some p) = .ok c := by
  simp only [deref, h]

theorem countEmptyChunks_lt : f.countEmptyChunks < 2 := by
  unfold countEmptyChunks
  split <;> decide

theorem assertEmptyChunk_eq (hn : f.numBlocks = z.numBlocks)
    (h : ∀ p, f.emptyChunk = some p →
      ∃ c, f.chunks.get? p = some c ∧ c.blocksAvailable = z.numBlocks) :
    f.assertEmptyChunk = .ok () := by
  unfold assertEmptyChunk
  cases he : f.emptyChunk with
  | none => rfl
  | some p =>
    obtain ⟨c, hc, havail⟩ := h p he
    have hhas : c.hasAvailable f.numBlocks = true := by
      rw [hn]
      exact Chunk.hasAvailable_iff.mpr havail
    simp only [deref_eq hc]
    exact if_pos hhas

theorem Sound.chunkLength (h : f.Sound z m) :
    f.chunkLength = z.numBlocks.toNat * z.blockSize := by
  rw [FixedAllocator.chunkLength, h.blockSize, h.numBlocks, z.length_eq]

theorem isFilled_of_numBlocks (z : Sizes) (h : c.blocksAvailable = z.numBlocks) :
    c.isFilled = false := by
  rw [← Bool.not_eq_true, Chunk.isFilled_iff, h]
  intro heq
  have := z.numBlocks_pos
  rw [heq] at this
  exact absurd this (Nat.lt_irrefl 0)

/-! ## The chunk to allocate from -/

/-- A chunk with a free block is made `allocChunk_`. -/
theorem Sound.ready (h : f.Sound z m) (hp : f.chunks.get? p = some c)
    (hroom : c.isFilled = false) (hempty : f.emptyChunk = none ∨ f.emptyChunk = some p) :
    Ready z { f with allocChunk := some p, emptyChunk := none } m p where
  blockSize := h.blockSize
  numBlocks := h.numBlocks
  room := h.room
  pool := h.pool
  allocChunk := rfl
  hasRoom := ⟨c, hp, hroom⟩
  deallocChunk := h.deallocChunk
  emptyChunk q := by
    refine iff_of_false nofun ?_
    rintro ⟨hne, hq⟩
    have hq := (h.emptyChunk q).mpr hq
    rcases hempty with heq | heq
    · rw [heq] at hq
      cases hq
    · rw [heq] at hq
      exact hne (Option.some.inj hq).symm

theorem Sound.emptyChunk_of_allFilled (h : f.Sound z m) (hall : f.AllFilled) :
    f.emptyChunk = none := by
  cases he : f.emptyChunk with
  | none => rfl
  | some p =>
    obtain ⟨c, hc, havail⟩ := (h.emptyChunk p).mp he
    exact absurd (hall c (Vec.mem_of_get? hc)) (by simp [isFilled_of_numBlocks z havail])

/-- `reserve` makes room for a chunk. It moves the vector just if that was full. -/
theorem reserveChunks_spec (hroom : f.chunks.size ≤ f.chunks.capacity)
    (hthrows : ¬ (f.chunks.capacity = f.chunks.size ∧ answers.reserve = false)) :
    ∃ v : Vec Chunk, f.reserveChunks answers.reserve = some { f with chunks := v } ∧
      v.items = f.chunks.items ∧ v.size < v.capacity ∧
      (f.chunks.capacity = f.chunks.size → answers.reserve = true ∧ v.buffer ≠ f.chunks.buffer) ∧
      (f.chunks.capacity ≠ f.chunks.size → v = f.chunks) := by
  by_cases hfull : f.chunks.capacity = f.chunks.size
  · have hreserve : answers.reserve = true := by
      rw [← Bool.not_eq_false]
      exact fun hr => hthrows ⟨hfull, hr⟩
    have hlt : f.chunks.capacity < (if 0 = f.chunks.size then 4 else f.chunks.size) * 2 := by
      rw [hfull]
      split <;> omega
    have hmoved := Vec.reserve_of_lt hlt
    refine ⟨f.chunks.reserve ((if 0 = f.chunks.size then 4 else f.chunks.size) * 2), ?_,
      by rw [hmoved], ?_, fun _ => ⟨hreserve, ?_⟩,
      fun hne => absurd hfull hne⟩
    · simp only [reserveChunks, if_pos hfull, if_pos hreserve]
    · rw [hmoved]
      exact Nat.lt_of_le_of_lt hroom hlt
    · rw [hmoved]
      exact Nat.succ_ne_self _
  · refine ⟨f.chunks, ?_, rfl, Nat.lt_of_le_of_ne hroom (Ne.symm hfull),
      fun heq => absurd heq hfull, fun _ => rfl⟩
    simp only [reserveChunks, if_neg hfull]

/-- `MakeNewChunk`, when no chunk has a free block and there is memory. -/
theorem makeNewChunk_ready (h : f.Sound z m) (hall : f.AllFilled)
    (hmem : ¬ f.OutOfMemory m answers) :
    ∃ f' m' p, f.makeNewChunk answers m = .ok (true, f', m') ∧ Ready z f' m' p ∧
      (∀ q, Used z m' f'.chunks.items q ↔ Used z m f.chunks.items q) ∧
      ∀ a, m.Mapped a → m'.byte a = m.byte a := by
  obtain ⟨v, hv, hitems, hsize, -⟩ := reserveChunks_spec h.room fun hthrows =>
    hmem ⟨hall, Or.inl hthrows⟩
  have hpool : Pool z m v.items := hitems ▸ h.pool
  cases hm : m.malloc (z.numBlocks.toNat * z.blockSize) answers.malloc with
  | none =>
    refine absurd ⟨hall, Or.inr ?_⟩ hmem
    rw [NoRoom, h.chunkLength]
    exact hm
  | some r =>
    obtain ⟨base, m₁⟩ := r
    obtain ⟨c, m', hinit, hpool', hempty, hused, hbyte⟩ := hpool.init hm
    have hpush := Vec.pushBack_eq hsize c
    have hperm : (v.pushBack c).items.Perm (c :: v.items) := by
      rw [hpush]
      exact List.perm_append_singleton c v.items
    refine ⟨{ f with chunks := v.pushBack c, allocChunk := some (v.pushBack c).back,
                     deallocChunk := some (v.pushBack c).front }, m', (v.pushBack c).back,
      ?_, ?_, ?_, hbyte⟩
    · simp only [makeNewChunk, hv, h.blockSize, h.numBlocks, hinit]
      rfl
    · refine ⟨h.blockSize, h.numBlocks, ?_, hpool'.perm hperm.symm, rfl,
        ⟨c, Vec.get?_back_pushBack hsize, isFilled_of_numBlocks z hempty⟩,
        Vec.holds_front (Vec.pushBack_ne_nil hsize), fun q => ?_⟩
      · rw [hpush]
        exact Nat.le_trans (Nat.le_of_eq List.length_append) hsize
      · have hnone : f.emptyChunk = none := h.emptyChunk_of_allFilled hall
        show f.emptyChunk = some q ↔ _
        rw [hnone]
        refine iff_of_false nofun ?_
        rintro ⟨hne, d, hd, havail⟩
        have hdm := Vec.mem_of_get?_pushBack hsize hne hd
        rw [hitems] at hdm
        exact absurd (hall d hdm) (by simp [isFilled_of_numBlocks z havail])
    · intro q
      rw [Used.perm hperm, hused, hitems]

/-- `MakeNewChunk`, when there is no memory. -/
theorem makeNewChunk_none (h : f.Sound z m) (hmem : f.OutOfMemory m answers) :
    ∃ f', f.makeNewChunk answers m = .ok (false, f', m) ∧ f'.chunks.items = f.chunks.items ∧
      (¬ f.LosesChunks m answers → f'.Sound z m) ∧ (f.LosesChunks m answers → f'.Lost) := by
  by_cases hthrows : f.chunks.capacity = f.chunks.size ∧ answers.reserve = false
  · refine ⟨f, ?_, rfl, fun _ => h, fun hl => ?_⟩
    · simp only [makeNewChunk, reserveChunks, if_pos hthrows.1, hthrows.2, Bool.false_eq_true,
        if_false]
      rfl
    · rw [hl.2.2.2.1] at hthrows
      cases hthrows.2
  · have hno := hmem.2.resolve_left hthrows
    obtain ⟨v, hv, hitems, hsize, hmoved, hstays⟩ := reserveChunks_spec h.room hthrows
    refine ⟨{ f with chunks := v }, ?_, hitems, ?_⟩
    · have hm := hno
      rw [NoRoom, h.chunkLength] at hm
      simp only [makeNewChunk, hv, h.blockSize, h.numBlocks, Chunk.init_none hm]
      rfl
    · by_cases hfull : f.chunks.capacity = f.chunks.size
      · obtain ⟨hreserve, hne⟩ := hmoved hfull
        by_cases hnil : f.chunks.items = []
        · -- all pointers are `NULL`
          refine ⟨fun _ => ?_, fun hl => absurd hnil hl.1⟩
          have hnull : v.items = [] := hitems.trans hnil
          have hnone : f.emptyChunk = none := h.emptyChunk_of_allFilled hmem.1
          refine ⟨h.blockSize, h.numBlocks, Nat.le_of_lt hsize, hitems ▸ h.pool, ?_, ?_,
            fun p => ?_⟩
          · exact Vec.holds_of_eq_nil h.allocChunk hnil hnull
          · exact Vec.holds_of_eq_nil h.deallocChunk hnil hnull
          · show f.emptyChunk = some p ↔ _
            rw [hnone]
            refine iff_of_false nofun ?_
            rintro ⟨c, hc, -⟩
            have hc := Vec.mem_of_get? hc
            rw [hnull] at hc
            exact List.not_mem_nil hc
        · refine ⟨fun hl => absurd ⟨hnil, hmem.1, hfull, hreserve, hno⟩ hl,
            fun _ => ⟨fun hv => hnil (hitems.symm.trans hv), fun hboth => ?_⟩⟩
          -- the old pointers are into the buffer that was left
          obtain ⟨p, hp, hbuffer, -⟩ := Vec.exists_of_holds h.allocChunk hnil
          have hnew : v.Holds f.allocChunk := hboth.1
          rw [hp] at hnew
          exact hne (hnew.1.symm.trans hbuffer)
      · rw [hstays hfull]
        exact ⟨fun _ => h, fun hl => absurd hl.2.2.1 hfull⟩

/-- `allocChunk_` points to a chunk with a free block, or is as good as `NULL`. -/
theorem Sound.allocChunk_cases (h : f.Sound z m) :
    (∃ p c, f.allocChunk = some p ∧ f.chunks.get? p = some c ∧ c.isFilled = false ∧
      f.allocChunkFilled = .ok false) ∨ f.allocChunkFilled = .ok true := by
  unfold allocChunkFilled
  cases hp : f.allocChunk with
  | none => exact Or.inr rfl
  | some p =>
    have hholds := h.allocChunk
    rw [hp] at hholds
    obtain ⟨c, hc⟩ := Vec.exists_get?_of_holds hholds
    simp only [deref_eq hc, ok_bind, pure_eq_ok]
    cases hroom : c.isFilled with
    | true => exact Or.inr rfl
    | false => exact Or.inl ⟨p, c, rfl, hc, hroom, rfl⟩

/-- `Allocate` gets its chunk where there is a free block or memory for a chunk. -/
theorem findAllocChunk_ready (h : f.Sound z m) (hmem : ¬ f.OutOfMemory m answers) :
    ∃ f' m' p, f.findAllocChunk answers m = .ok (true, f', m') ∧ Ready z f' m' p ∧
      (∀ q, Used z m' f'.chunks.items q ↔ Used z m f.chunks.items q) ∧
      (∀ a, m.Mapped a → m'.byte a = m.byte a) ∧ (¬ f.AllFilled → m' = m) := by
  rcases h.allocChunk_cases with ⟨p, c, hp, hc, hroom, hfilled⟩ | hfilled
  · by_cases hempty : f.emptyChunk = some p
    · -- the chunk is empty no longer
      refine ⟨_, m, p, ?_, h.ready hc hroom (Or.inr hempty), fun _ => Iff.rfl, fun _ _ => rfl,
        fun _ => rfl⟩
      simp [findAllocChunk, hfilled, hp, hempty]
    · refine ⟨f, m, p, ?_, ?_, fun _ => Iff.rfl, fun _ _ => rfl, fun _ => rfl⟩
      · have hne : some p ≠ f.emptyChunk := fun heq => hempty heq.symm
        simp [findAllocChunk, hfilled, hp, hne]
      · refine ⟨h.blockSize, h.numBlocks, h.room, h.pool, hp, ⟨c, hc, hroom⟩, h.deallocChunk,
          fun q => ?_⟩
        rw [h.emptyChunk]
        refine ⟨fun hq => ⟨?_, hq⟩, And.right⟩
        rintro rfl
        exact hempty ((h.emptyChunk q).mpr hq)
  · cases he : f.emptyChunk with
    | some p =>
      obtain ⟨c, hc, havail⟩ := (h.emptyChunk p).mp he
      refine ⟨_, m, p, ?_, h.ready hc (isFilled_of_numBlocks z havail) (Or.inr he),
        fun _ => Iff.rfl, fun _ _ => rfl, fun _ => rfl⟩
      simp [findAllocChunk, hfilled, he]
    | none =>
      cases hi : f.chunks.items.findIdx? fun chunk => !chunk.isFilled with
      | none =>
        have hall : f.AllFilled := by
          intro c hc
          simpa using List.findIdx?_eq_none_iff.mp hi c hc
        obtain ⟨f', m', p, hrun, hready, hused, hbyte⟩ := makeNewChunk_ready h hall hmem
        refine ⟨f', m', p, ?_, hready, hused, hbyte, fun hnot => absurd hall hnot⟩
        simp [findAllocChunk, hfilled, he, hi, hrun]
      | some i =>
        obtain ⟨hlt, hroom, -⟩ := List.findIdx?_eq_some_iff_getElem.mp hi
        have hc : f.chunks.get? (f.chunks.ptr i) = some f.chunks.items[i] := by
          rw [Vec.get?_ptr, List.getElem?_eq_getElem hlt]
        refine ⟨_, m, f.chunks.ptr i, ?_, h.ready hc (by simpa using hroom) (Or.inl he),
          fun _ => Iff.rfl, fun _ _ => rfl, fun _ => rfl⟩
        simp [findAllocChunk, hfilled, he, hi]

theorem findAllocChunk_none (h : f.Sound z m) (hmem : f.OutOfMemory m answers) :
    f.findAllocChunk answers m = f.makeNewChunk answers m := by
  have hfilled : f.allocChunkFilled = .ok true := by
    rcases h.allocChunk_cases with ⟨p, c, -, hc, hroom, -⟩ | hfilled
    · exact absurd (hmem.1 c (Vec.mem_of_get? hc)) (by simp [hroom])
    · exact hfilled
  have hi : f.chunks.items.findIdx? (fun chunk => !chunk.isFilled) = none :=
    List.findIdx?_eq_none_iff.mpr fun c hc => by simp [hmem.1 c hc]
  simp [findAllocChunk, hfilled, h.emptyChunk_of_allFilled hmem.1, hi]

/-! ## The block -/

/-- The block is taken, and the invariants hold again. -/
theorem Ready.take (h : Ready z f m p) :
    ∃ c place c', f.chunks.get? p = some c ∧ c.isFilled = false ∧
      c.allocate z.blockSize m = .ok (some place, c') ∧
      Sound z { f with chunks := f.chunks.set p c' } m ∧ ¬ Used z m f.chunks.items place ∧
      ∀ q, Used z m (f.chunks.set p c').items q ↔ q = place ∨ Used z m f.chunks.items q := by
  obtain ⟨c, hc, hroom⟩ := h.hasRoom
  obtain ⟨rest, hperm, -⟩ := Vec.set_perm hc c
  obtain ⟨place, c', hrun, hpool, hcount, hnew, hused⟩ := (h.pool.perm hperm).allocate hroom
  have hholds := Vec.holds_of_get? hc
  obtain ⟨rest', hperm₀, hperm'⟩ := Vec.set_perm hc c'
  have hrest : rest'.Perm rest := (List.perm_cons c).mp (hperm₀.symm.trans hperm)
  have hset : (f.chunks.set p c').items.Perm (c' :: rest) := hperm'.trans (hrest.cons c')
  refine ⟨c, place, c', hc, hroom, hrun, ?_, ?_, fun q => ?_⟩
  · refine ⟨h.blockSize, h.numBlocks, by simpa using h.room, hpool.perm hset.symm, ?_,
      Vec.set_holds.mpr h.deallocChunk, fun q => ?_⟩
    · rw [show ({ f with chunks := f.chunks.set p c' } : FixedAllocator).allocChunk = some p from
        h.allocChunk]
      exact Vec.set_holds.mpr hholds
    · show f.emptyChunk = some q ↔ _
      rw [h.emptyChunk, Vec.get?_set hholds]
      by_cases hq : q = p
      · -- one block of the chunk is used now
        rw [if_pos hq]
        refine iff_of_false (fun hne => hne.1 hq) ?_
        rintro ⟨d, hd, havail⟩
        obtain rfl := Option.some.inj hd
        have hle := (h.pool.sound (Vec.mem_of_get? hc)).length_le
        rw [Chunk.length_freeBlocks, hcount, havail] at hle
        exact absurd hle (Nat.not_succ_le_self _)
      · rw [if_neg hq]
        exact and_iff_right hq
  · rw [Used.perm hperm]
    exact hnew
  · rw [Used.perm hset, hused, Used.perm hperm]

/-- **`Allocate`, where there is memory**: the block was not used before and is the only
one that is used now and was not, the invariants hold, and no byte that was allocated has
changed. -/
theorem allocate_some (h : f.Sound z m) (hmem : ¬ f.OutOfMemory m answers) :
    ∃ place f' m', f.allocate answers m = .ok (some place, f', m') ∧ f'.Sound z m' ∧
      ¬ Used z m f.chunks.items place ∧
      (∀ q, Used z m' f'.chunks.items q ↔ q = place ∨ Used z m f.chunks.items q) ∧
      (∀ a, m.Mapped a → m'.byte a = m.byte a) ∧ (¬ f.AllFilled → m' = m) := by
  obtain ⟨f₁, m', p, hfind, hready, hused, hkept⟩ := findAllocChunk_ready h hmem
  obtain ⟨c, place, c', hc, hroom, hrun, hsound, hnew, htaken⟩ := hready.take
  have hbefore := assertEmptyChunk_eq h.numBlocks fun p hp => (h.emptyChunk p).mp hp
  have hafter := assertEmptyChunk_eq hsound.numBlocks fun p hp => (hsound.emptyChunk p).mp hp
  refine ⟨place, _, m', ?_, hsound, ?_, fun q => ?_, hkept⟩
  · have hfree : ¬ c.isFilled = true := by simp [hroom]
    rw [← hready.blockSize] at hrun
    rw [hready.allocChunk] at hafter
    simp only [allocate, hbefore, hfind, hready.allocChunk, deref_eq hc, hrun, hafter, ok_bind,
      Chunk.assert_of countEmptyChunks_lt, Chunk.assert_of hfree, if_true]
    rfl
  · rw [← hused]
    exact hnew
  · rw [htaken, hused]

/-- **`Allocate`, where there is no memory**: it gives `NULL` and changes no byte. The
invariants hold, but the pointers are lost if the vector has moved. -/
theorem allocate_none (h : f.Sound z m) (hmem : f.OutOfMemory m answers) :
    ∃ f', f.allocate answers m = .ok (none, f', m) ∧ f'.chunks.items = f.chunks.items ∧
      (¬ f.LosesChunks m answers → f'.Sound z m) ∧ (f.LosesChunks m answers → f'.Lost) := by
  obtain ⟨f', hrun, hitems, hsound⟩ := makeNewChunk_none h hmem
  have hbefore := assertEmptyChunk_eq h.numBlocks fun p hp => (h.emptyChunk p).mp hp
  refine ⟨f', ?_, hitems, hsound⟩
  simp only [allocate, hbefore, findAllocChunk_none h hmem, hrun, ok_bind,
    Chunk.assert_of countEmptyChunks_lt, Bool.false_eq_true, if_false]
  rfl

end FixedAllocator

end BstGenerator.SmallObj
