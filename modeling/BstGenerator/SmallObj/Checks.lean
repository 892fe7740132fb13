import BstGenerator.SmallObj.Deallocate

/-!
# The checks

`IsCorrupt` of a chunk follows its stealth indexes and `IsBlockAvailable` looks for a block
among them. The first lets a chunk pass exactly if its stealth indexes are those of a sound
chunk (`isCorrupt_iff`), whatever bytes are in it; for a sound chunk the second answers
whether the block is free (`isBlockAvailable_eq`). `IsCorrupt` of an allocator lets pass an
allocator that is sound (`FixedAllocator.Sound.isCorrupt`).
-/

namespace BstGenerator.SmallObj

open Memory Machine

variable {z : Sizes} {m : Bytes} {c : Chunk} {i : UInt8} {found : List UInt8}

namespace Chunk

/-- A block's number is in the range of the bitset, so it can be marked as found. -/
theorem set_eq (hi : i < z.numBlocks) (hnot : i ∉ found) :
    Bitset.set i found = .ok (i :: found) := by
  have := UInt8.lt_iff_toNat_lt.mp hi
  have := z.numBlocks.toNat_lt
  rw [Bitset.set, if_pos (by omega), if_neg hnot]

/-- And it can be asked whether it was. -/
theorem test_eq (hi : i < z.numBlocks) : Bitset.test i found = .ok (decide (i ∈ found)) := by
  have := UInt8.lt_iff_toNat_lt.mp hi
  have := z.numBlocks.toNat_lt
  rw [Bitset.test, if_pos (by omega)]

/-- What is still to be followed is sound if it is apart from what was found before. -/
def Rest (z : Sizes) (found l : List UInt8) : Prop :=
  SoundList (fun i => i < z.numBlocks ∧ i ∉ found) l

/-- To follow one index is to find it. -/
theorem rest_cons {l : List UInt8} (hi : i < z.numBlocks) (hnot : i ∉ found) :
    Rest z found (i :: l) ↔ Rest z (i :: found) l := by
  constructor
  · intro h
    obtain ⟨-, hil, hl⟩ := h.pop
    refine ⟨hl.nodup, fun j hj => ⟨(hl.mem j hj).1, ?_⟩⟩
    rintro (_ | ⟨_, hj'⟩)
    · exact hil hj
    · exact (hl.mem j hj).2 hj'
  · intro h
    refine SoundList.push ⟨h.nodup, fun j hj => ?_⟩ ⟨hi, hnot⟩ fun hil =>
      (h.mem i hil).2 (List.mem_cons_self ..)
    exact ⟨(h.mem j hj).1, fun hj' => (h.mem j hj).2 (List.mem_cons_of_mem i hj')⟩

theorem rest_nil : Rest z found [] := ⟨List.nodup_nil, fun _ h => absurd h List.not_mem_nil⟩

/-- The index the loops read next is that of the block they have come to. -/
theorem mapped_offset (h : c.extent z ∈ m.extents) (hi : i < z.numBlocks) :
    load (c.pData + sizeT (i.toNat * z.blockSize)) m = .ok (c.next z m i) := by
  rw [z.offset_eq hi]
  exact load_eq (mapped_block h hi)

/-- The loop of `IsCorrupt` goes on as long as the stealth indexes are as they should be. -/
theorem isCorruptLoop_spec (h : c.extent z ∈ m.extents) (fuel : Nat) {r : Nat} {k : UInt8}
    (hr : k.toNat + (r + 1) = c.blocksAvailable.toNat) (hfuel : r < fuel)
    (hi : i < z.numBlocks) (hnot : i ∉ found) :
    (Rest z found (follow (c.next z m) (r + 1) i) →
      isCorruptLoop z.numBlocks z.blockSize c m fuel k i found =
        .ok ((follow (c.next z m) (r + 1) i).reverse ++ found)) ∧
    (¬ Rest z found (follow (c.next z m) (r + 1) i) →
      isCorruptLoop z.numBlocks z.blockSize c m fuel k i found = .error .assertion) := by
  induction fuel generalizing r k i found with
  | zero => exact absurd hfuel (Nat.not_lt_zero _)
  | succ fuel ih =>
    have hcc : (k + 1).toNat = k.toNat + 1 :=
      toNat_succ (j := c.blocksAvailable) (UInt8.lt_iff_toNat_lt.mpr (by omega))
    rw [follow_succ, rest_cons hi hnot]
    cases r with
    | zero =>
      have hlast : k + 1 ≥ c.blocksAvailable := UInt8.le_iff_toNat_le.mpr (by omega)
      refine ⟨fun _ => ?_, fun hbad => absurd rest_nil hbad⟩
      simp [isCorruptLoop, set_eq hi hnot, hlast]
    | succ r =>
      have hmore : ¬ k + 1 ≥ c.blocksAvailable := fun hle => by
        have := UInt8.le_iff_toNat_le.mp hle
        omega
      have hrun : isCorruptLoop z.numBlocks z.blockSize c m (fuel + 1) k i found = (do
          assert (¬ z.numBlocks ≤ c.next z m i)
          assert (¬ (← Bitset.test (c.next z m i) (i :: found)))
          isCorruptLoop z.numBlocks z.blockSize c m fuel (k + 1) (c.next z m i) (i :: found)) := by
        simp only [isCorruptLoop, set_eq hi hnot, ok_bind, if_neg hmore, mapped_offset h hi]
      rw [hrun]
      have hhead : c.next z m i ∈ follow (c.next z m) (r + 1) (c.next z m i) :=
        List.mem_cons_self ..
      by_cases hlt : c.next z m i < z.numBlocks
      · by_cases hfound : c.next z m i ∈ i :: found
        · -- "Index is repeated"
          refine ⟨fun hrest => absurd hfound (hrest.mem _ hhead).2, fun _ => ?_⟩
          simp [assert, test_eq hlt, hlt, hfound]
        · have hgo := ih (r := r) (k := k + 1) (by omega) (by omega) hlt hfound
          simp only [assert, UInt8.not_le.mpr hlt, test_eq hlt, hfound, decide_false,
            not_false_eq_true, if_true, ok_bind, Bool.false_eq_true]
          rw [List.reverse_cons, List.append_assoc]
          exact hgo
      · -- "Index is too big"
        refine ⟨fun hrest => absurd (hrest.mem _ hhead).1 hlt, fun _ => ?_⟩
        simp [assert, UInt8.not_lt.mp hlt]

theorem rest_iff {l : List UInt8} : Rest z [] l ↔ SoundList (· < z.numBlocks) l :=
  ⟨fun h => ⟨h.nodup, fun i hi => (h.mem i hi).1⟩,
    fun h => ⟨h.nodup, fun i hi => ⟨h.mem i hi, List.not_mem_nil⟩⟩⟩

/-- A sound chunk passes: the loop finds as many blocks as the chunk counts. -/
theorem isCorrupt_of_sound (h : c.Sound z m) :
    c.isCorrupt z.numBlocks z.blockSize true m = .ok false := by
  have hle : ¬ z.numBlocks < c.blocksAvailable := by
    have := h.length_le
    rw [length_freeBlocks] at this
    exact UInt8.not_lt.mpr (UInt8.le_iff_toNat_le.mpr this)
  by_cases hfilled : c.isFilled = true
  · simp [isCorrupt, assert, hle, hfilled]
  have hne : c.blocksAvailable ≠ 0 := fun heq => hfilled (isFilled_iff.mpr heq)
  have hr := toNat_pred hne
  have hfree : SoundList (· < z.numBlocks)
      (follow (c.next z m) ((c.blocksAvailable - 1).toNat + 1) c.firstAvailableBlock) := by
    rw [← hr]
    exact h.free
  have hfirst := hfree.pop.1
  have hloop := (isCorruptLoop_spec (k := 0) h.mapped 256 (by simpa using hr.symm)
    (c.blocksAvailable - 1).toNat_lt hfirst List.not_mem_nil).1 (rest_iff.mpr hfree)
  have hcount : Bitset.count ((follow (c.next z m) ((c.blocksAvailable - 1).toNat + 1)
      c.firstAvailableBlock).reverse ++ []) = c.blocksAvailable.toNat := by
    simp only [Bitset.count, List.append_nil, List.length_reverse, length_follow, hr]
  simp only [isCorrupt, assert_of hle, ok_bind, if_neg hfilled,
    assert_of (UInt8.not_le.mpr hfirst), hloop, hcount]
  simp [assert]

/-- A chunk that is not sound fails an assertion: it counts too many free blocks, or an index
is too big or was found before. -/
theorem isCorrupt_of_not_sound (hext : c.extent z ∈ m.extents) (h : ¬ c.Sound z m) :
    c.isCorrupt z.numBlocks z.blockSize true m = .error .assertion := by
  have hfree : ¬ SoundList (· < z.numBlocks) (c.freeBlocks z m) := fun hs => h ⟨hext, hs⟩
  by_cases hle : z.numBlocks < c.blocksAvailable
  · simp [isCorrupt, assert, hle]
  have hfilled : c.isFilled ≠ true := by
    intro hfilled
    rw [isFilled_iff_freeBlocks (z := z) (m := m)] at hfilled
    rw [hfilled] at hfree
    exact hfree (rest_iff.mp rest_nil)
  have hr := toNat_pred fun heq => hfilled (isFilled_iff.mpr heq)
  by_cases hfirst : z.numBlocks ≤ c.firstAvailableBlock
  · simp [isCorrupt, assert, hle, hfilled, hfirst]
  have hbad : ¬ Rest z []
      (follow (c.next z m) ((c.blocksAvailable - 1).toNat + 1) c.firstAvailableBlock) := by
    rw [rest_iff, ← hr]
    exact hfree
  have hloop := (isCorruptLoop_spec (k := 0) hext 256 (by simpa using hr.symm)
    (c.blocksAvailable - 1).toNat_lt (UInt8.not_le.mp hfirst) List.not_mem_nil).2 hbad
  simp only [isCorrupt, assert_of hle, ok_bind, if_neg hfilled, assert_of hfirst, hloop]
  simp

/-- **`IsCorrupt` is exact**: whatever the bytes of an allocated chunk and its counters are,
it is let through if its stealth indexes list blocks of the chunk without repetition, and
fails an assertion if not. -/
theorem isCorrupt_iff (z : Sizes) (m : Bytes) (c : Chunk) (hext : c.extent z ∈ m.extents) :
    (c.isCorrupt z.numBlocks z.blockSize true m = .ok false ↔ c.Sound z m) ∧
      (c.isCorrupt z.numBlocks z.blockSize true m = .error .assertion ↔ ¬ c.Sound z m) := by
  by_cases h : c.Sound z m
  · rw [isCorrupt_of_sound h]
    exact ⟨iff_of_true rfl h, iff_of_false (by simp) (not_not.mpr h)⟩
  · rw [isCorrupt_of_not_sound hext h]
    exact ⟨iff_of_false (by simp) h, iff_of_true rfl h⟩

/-- Memory that is all zero, with a chunk of eight blocks allocated. -/
def zeros : Bytes := ⟨fun _ => 0, [⟨1000, 64⟩], by decide, List.pairwise_singleton ..⟩

/-- Where the stealth index of block 0 is 0 again, it cannot be that two blocks are free. -/
theorem isCorrupt_iff_repeated :
    (Chunk.mk 1000 0 2).isCorrupt 8 8 true zeros = .error .assertion := by
  let z : Sizes := ⟨8, 8, by decide, by decide, by decide⟩
  refine (isCorrupt_iff z zeros ⟨1000, 0, 2⟩ (List.mem_cons_self ..)).2.mpr ?_
  intro h
  have hnodup : [(0 : UInt8), 0].Nodup := h.free.nodup
  simp at hnodup

/-! ## `IsBlockAvailable` -/

/-- The loop finds the block if it is among those still to be followed. -/
theorem isBlockAvailableLoop_spec (h : c.extent z ∈ m.extents) (fuel : Nat) {r : Nat}
    {k b : UInt8} (hr : k.toNat + (r + 1) = c.blocksAvailable.toNat) (hfuel : r < fuel)
    (hrest : Rest z found (follow (c.next z m) (r + 1) i)) :
    isBlockAvailableLoop b z.numBlocks z.blockSize c m fuel k i found =
      .ok (decide (b ∈ follow (c.next z m) r (c.next z m i))) := by
  induction fuel generalizing r k i found with
  | zero => exact absurd hfuel (Nat.not_lt_zero _)
  | succ fuel ih =>
    have hcc : (k + 1).toNat = k.toNat + 1 :=
      toNat_succ (j := c.blocksAvailable) (UInt8.lt_iff_toNat_lt.mpr (by omega))
    obtain ⟨hi, hnot⟩ := hrest.mem i (List.mem_cons_self ..)
    have htail := (rest_cons hi hnot).mp hrest
    cases r with
    | zero =>
      have hlast : k + 1 ≥ c.blocksAvailable := UInt8.le_iff_toNat_le.mpr (by omega)
      simp [isBlockAvailableLoop, set_eq hi hnot, hlast]
    | succ r =>
      have hmore : ¬ k + 1 ≥ c.blocksAvailable := fun hle => by
        have := UInt8.le_iff_toNat_le.mp hle
        omega
      obtain ⟨hlt, hfound⟩ := htail.mem (c.next z m i) (List.mem_cons_self ..)
      by_cases hb : c.next z m i = b
      · subst hb
        simp [isBlockAvailableLoop, set_eq hi hnot, hmore, mapped_offset h hi]
      · have hgo := ih (r := r) (k := k + 1) (by omega) (by omega) htail
        have hne : b ≠ c.next z m i := fun heq => hb heq.symm
        simp only [isBlockAvailableLoop, set_eq hi hnot, ok_bind, if_neg hmore,
          mapped_offset h hi, if_neg hb, assert_of hlt, test_eq hlt, hfound, decide_false, hgo,
          follow_succ, List.mem_cons, hne, false_or]
        rfl

/-- `IsBlockAvailable` tells the free blocks of a sound chunk from the others. -/
theorem isBlockAvailable_eq (h : c.Sound z m) (hi : i < z.numBlocks) :
    c.isBlockAvailable (c.block z i) z.numBlocks z.blockSize m =
      .ok (decide (i ∈ c.freeBlocks z m)) := by
  by_cases hfilled : c.isFilled = true
  · have hnil := (isFilled_iff_freeBlocks (z := z) (m := m)).mp hfilled
    simp [isBlockAvailable, hfilled, hnil]
  have hr := toNat_pred fun heq => hfilled (isFilled_iff.mpr heq)
  have hfree : c.freeBlocks z m =
      follow (c.next z m) ((c.blocksAvailable - 1).toNat + 1) c.firstAvailableBlock := by
    rw [← hr, freeBlocks]
  have hsound := h.free
  rw [hfree] at hsound ⊢
  have hloop := isBlockAvailableLoop_spec (k := 0) (b := i) h.mapped 256
    (by simpa using hr.symm) (c.blocksAvailable - 1).toNat_lt (rest_iff.mpr hsound)
  have hindex : UInt8.ofNat i.toNat = i := UInt8.ofNat_toNat
  simp only [isBlockAvailable, if_neg hfilled, distance_block_mod hi, distance_block_div hi,
    hindex, assert_of, ok_bind, assert_of hsound.pop.1, hloop, follow_succ, List.mem_cons]
  by_cases heq : c.firstAvailableBlock = i
  · simp [heq]
  · have hne : i ≠ c.firstAvailableBlock := fun h => heq h.symm
    simp [heq, hne]

end Chunk

namespace FixedAllocator

variable {f : FixedAllocator}

theorem anyCorrupt_eq (hb : f.blockSize = z.blockSize) (hn : f.numBlocks = z.numBlocks)
    {cs : List Chunk} (h : ∀ c ∈ cs, c.Sound z m) : f.anyCorrupt m cs = .ok false := by
  induction cs with
  | nil => rfl
  | cons c cs ih =>
    have hc := Chunk.isCorrupt_of_sound (h c (List.mem_cons_self ..))
    have hcs := ih fun d hd => h d (List.mem_cons_of_mem c hd)
    simp only [anyCorrupt, hb, hn, hc, ok_bind, hcs]
    rfl

/-- `IsCorrupt` finds nothing where the class level invariants hold. -/
theorem Sound.isCorrupt (h : f.Sound z m) : f.isCorrupt m = .ok false := by
  have hany := anyCorrupt_eq h.blockSize h.numBlocks fun c hc => h.pool.sound hc
  by_cases hnil : f.chunks.items = []
  · have hnull : ∀ o, f.chunks.Holds o → o = none := by
      intro o ho
      cases o with
      | none => rfl
      | some p => exact absurd (Vec.length_pos_of_holds ho) (by simp [Vec.size, hnil])
    have hempty : f.emptyChunk = none := by
      cases he : f.emptyChunk with
      | none => rfl
      | some e =>
        obtain ⟨c, hc, -⟩ := (h.emptyChunk e).mp he
        exact hnull _ (Vec.holds_of_get? hc)
    simp [FixedAllocator.isCorrupt, hnil, countEmptyChunks, hempty, hnull _ h.allocChunk,
      hnull _ h.deallocChunk, assert]
  · obtain ⟨d, hd, hdholds⟩ := Vec.exists_of_holds h.deallocChunk hnil
    obtain ⟨p, hp, hpholds⟩ := Vec.exists_of_holds h.allocChunk hnil
    obtain ⟨i, hi, hdpos⟩ := position_of_holds hdholds
    obtain ⟨j, hj, hppos⟩ := position_of_holds hpholds
    have hlow : ∀ i : Nat, ¬ ((0 : Nat) : Int) > i := fun i =>
      Int.not_lt.mpr (Int.ofNat_le.mpr (Nat.zero_le i))
    have hhigh : ∀ i : Nat, i < f.chunks.size → ¬ ((f.chunks.size - 1 : Nat) : Int) < i :=
      fun i hi => Int.not_lt.mpr (Int.ofNat_le.mpr (Nat.le_sub_one_of_lt hi))
    cases he : f.emptyChunk with
    | none =>
      simp only [FixedAllocator.isCorrupt, if_neg hnil, countEmptyChunks, he, hd, hp,
        position_front, position_back, hdpos, hppos, ok_bind, Chunk.assert_of (hhigh i hi),
        Chunk.assert_of (hhigh j hj), Chunk.assert_of (hlow i), Chunk.assert_of (hlow j)]
      simp [assert, hany]
    | some e =>
      obtain ⟨c, hc, hempty⟩ := (h.emptyChunk e).mp he
      obtain ⟨k, hk, hepos⟩ := position_of_holds (Vec.holds_of_get? hc)
      have hhas : c.hasAvailable f.numBlocks = true := by
        rw [h.numBlocks, Chunk.hasAvailable_iff]
        exact hempty
      simp only [FixedAllocator.isCorrupt, if_neg hnil, countEmptyChunks, he, hd, hp,
        position_front, position_back, hdpos, hppos, ok_bind, Chunk.assert_of (hhigh i hi),
        Chunk.assert_of (hhigh j hj), Chunk.assert_of (hlow i), Chunk.assert_of (hlow j)]
      simp [assert, hepos, Nat.le_sub_one_of_lt hk, deref_eq hc, hhas, hany]

end FixedAllocator

end BstGenerator.SmallObj
