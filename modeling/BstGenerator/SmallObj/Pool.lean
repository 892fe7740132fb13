import BstGenerator.SmallObj.Blocks

/-!
# The chunks of an allocator

- `Pool`: the chunks are sound, and they are what is allocated. The order they are in does
  not matter (`Pool.perm`), so an operation on one chunk is stated with that chunk first.
- `Used`: the blocks that are not free. `Pool.allocate` adds one that was not used before,
  `Pool.deallocate` takes one away, and `Pool.release` gives back a chunk that has none.
- `Outside`: the bytes the allocator has no say in. They may be written at any time
  (`Pool.poke`).
-/

namespace BstGenerator.SmallObj

open Memory Machine

variable {z : Sizes} {m m' : Bytes} {c c' : Chunk} {cs ds : List Chunk} {i : UInt8} {p q a : Nat}

/-- The block at `p` is one of the chunk's, and is not free. -/
def Chunk.Uses (z : Sizes) (m : Bytes) (c : Chunk) (p : Nat) : Prop :=
  ∃ i, i < z.numBlocks ∧ i ∉ c.freeBlocks z m ∧ p = c.block z i

/-- The block at `p` belongs to whoever it was given to. -/
def Used (z : Sizes) (m : Bytes) (cs : List Chunk) (p : Nat) : Prop :=
  ∃ c ∈ cs, c.Uses z m p

/-- The byte is in no free block. -/
def Outside (z : Sizes) (m : Bytes) (cs : List Chunk) (a : Nat) : Prop :=
  ∀ c ∈ cs, ∀ i ∈ c.freeBlocks z m, ¬ (c.blockExtent z i).Contains a

/-- The chunks are sound, and what is allocated is them. -/
structure Pool (z : Sizes) (m : Bytes) (cs : List Chunk) : Prop where
  extents : m.extents.Perm (cs.map (Chunk.extent z))
  free : ∀ c ∈ cs, SoundList (· < z.numBlocks) (c.freeBlocks z m)

theorem Used.cons : Used z m (c :: cs) p ↔ c.Uses z m p ∨ Used z m cs p := by
  simp [Used]

theorem Used.perm (h : cs.Perm ds) : Used z m cs p ↔ Used z m ds p :=
  ⟨fun ⟨c, hc, hu⟩ => ⟨c, h.mem_iff.mp hc, hu⟩, fun ⟨c, hc, hu⟩ => ⟨c, h.mem_iff.mpr hc, hu⟩⟩

theorem Chunk.Uses.contains (h : c.Uses z m p) : (c.extent z).Contains p := by
  obtain ⟨i, hi, -, rfl⟩ := h
  exact Chunk.contains_block hi

namespace Pool

theorem empty (z : Sizes) (h : m.extents = []) : Pool z m [] :=
  ⟨by rw [h]; exact List.Perm.nil, fun c hc => absurd hc List.not_mem_nil⟩

theorem perm (h : Pool z m cs) (hp : cs.Perm ds) : Pool z m ds :=
  ⟨h.extents.trans (hp.map _), fun c hc => h.free c (hp.mem_iff.mpr hc)⟩

theorem sound (h : Pool z m cs) (hc : c ∈ cs) : c.Sound z m :=
  ⟨h.extents.mem_iff.mpr (List.mem_map_of_mem hc), h.free c hc⟩

theorem pairwise (h : Pool z m cs) : (cs.map (Chunk.extent z)).Pairwise Extent.Apart :=
  (h.extents.pairwise_iff fun hr => Extent.Apart.symm hr).mp m.apart

/-- The first chunk is apart from the others. -/
theorem apart (h : Pool z m (c :: cs)) (hc : c' ∈ cs) : (c.extent z).Apart (c'.extent z) :=
  List.rel_of_pairwise_cons h.pairwise (List.mem_map_of_mem hc)

/-- No two chunks have a byte in common. -/
theorem chunk_unique (h : Pool z m cs) (hc : c ∈ cs) (hc' : c' ∈ cs)
    (ha : (c.extent z).Contains a) (ha' : (c'.extent z).Contains a) : c = c' := by
  obtain ⟨l, r, rfl⟩ := List.append_of_mem hc
  have hp := h.perm List.perm_middle
  rcases List.mem_cons.mp (List.perm_middle.mem_iff.mp hc') with rfl | hmem
  · rfl
  · exact absurd ha' ((hp.apart hmem).not_contains ha)

/-- A block that is used by the first chunk is in none of the others. -/
theorem not_used_tail (h : Pool z m (c :: cs)) (hp : (c.extent z).Contains p) :
    ¬ Used z m' cs p := by
  rintro ⟨c', hc', hu⟩
  exact (h.apart hc').not_contains hp hu.contains

/-! ## What the other chunks do not notice -/

/-- Bytes in no free block may change. -/
theorem congr (h : Pool z m cs) (hext : m'.extents = m.extents)
    (hbyte : ∀ c ∈ cs, ∀ i ∈ c.freeBlocks z m, m'.byte (c.block z i) = m.byte (c.block z i)) :
    Pool z m' cs ∧ ∀ p, Used z m' cs p ↔ Used z m cs p := by
  have hfree : ∀ c ∈ cs, c.freeBlocks z m' = c.freeBlocks z m := fun c hc =>
    Chunk.freeBlocks_congr (hbyte c hc)
  refine ⟨⟨hext ▸ h.extents, fun c hc => (hfree c hc).symm ▸ h.free c hc⟩, fun p => ?_⟩
  constructor
  · rintro ⟨c, hc, i, hi, hused, rfl⟩
    exact ⟨c, hc, i, hi, hfree c hc ▸ hused, rfl⟩
  · rintro ⟨c, hc, i, hi, hused, rfl⟩
    exact ⟨c, hc, i, hi, (hfree c hc).symm ▸ hused, rfl⟩

/-- A write outside of the free blocks leaves the pool as it is. -/
theorem poke (h : Pool z m cs) (ha : Outside z m cs a) (v : UInt8) :
    Pool z (m.poke a v) cs ∧ ∀ p, Used z (m.poke a v) cs p ↔ Used z m cs p := by
  refine h.congr rfl fun c hc i hi => if_neg ?_
  rintro rfl
  exact ha c hc i hi Chunk.blockExtent_contains_block

/-- A byte of a used block is outside. -/
theorem outside_of_used (h : Pool z m cs) (hp : Used z m cs p)
    (ha : (Extent.mk p z.blockSize).Contains a) : Outside z m cs a := by
  obtain ⟨c, hc, i, hi, hused, rfl⟩ := hp
  intro c' hc' j hj hja
  have hac : (c.extent z).Contains a := Chunk.extent_contains_of_block hi ha
  obtain rfl := h.chunk_unique hc' hc
    (Chunk.extent_contains_of_block ((h.free c' hc').mem j hj) hja) hac
  have hij : i ≠ j := fun heq => hused (heq ▸ hj)
  exact (Chunk.blockExtent_apart hij).not_contains ha hja

/-- A used block lies in memory that is allocated. -/
theorem mapped_of_used (h : Pool z m cs) (hp : Used z m cs p)
    (ha : (Extent.mk p z.blockSize).Contains a) : m.Mapped a := by
  obtain ⟨c, hc, i, hi, -, rfl⟩ := hp
  exact ⟨c.extent z, (h.sound hc).mapped, Chunk.extent_contains_of_block hi ha⟩

/-- Two used blocks are apart. -/
theorem used_apart (h : Pool z m cs) (hp : Used z m cs p) (hq : Used z m cs q) (hne : p ≠ q) :
    (Extent.mk p z.blockSize).Apart ⟨q, z.blockSize⟩ := by
  refine Extent.Apart.of_not_contains z.blockSize_pos z.blockSize_pos fun a hpa hqa => ?_
  obtain ⟨c, hc, i, hi, -, rfl⟩ := hp
  obtain ⟨d, hd, j, hj, -, rfl⟩ := hq
  obtain rfl := h.chunk_unique hc hd (Chunk.extent_contains_of_block hi hpa)
    (Chunk.extent_contains_of_block hj hqa)
  have hij : i ≠ j := fun heq => hne (heq ▸ rfl)
  exact (Chunk.blockExtent_apart hij).not_contains hpa hqa

/-! ## Operations on one chunk -/

/-- Replace the first chunk by one at the same place. -/
theorem replace (h : Pool z m (c :: cs)) (hext : m'.extents = m.extents)
    (hdata : c'.pData = c.pData) (hfree : SoundList (· < z.numBlocks) (c'.freeBlocks z m'))
    (hbyte : ∀ a, ¬ (c.extent z).Contains a → m'.byte a = m.byte a) :
    Pool z m' (c' :: cs) ∧ ∀ p, Used z m' cs p ↔ Used z m cs p := by
  have hsame : ∀ d ∈ cs, d.freeBlocks z m' = d.freeBlocks z m := by
    intro d hd
    refine Chunk.freeBlocks_congr fun i hi => hbyte _ fun hin => ?_
    have hlt := (h.free d (List.mem_cons_of_mem c hd)).mem i hi
    exact (h.apart hd).not_contains hin (Chunk.contains_block hlt)
  refine ⟨⟨?_, List.forall_mem_cons.mpr ⟨hfree, fun d hd => ?_⟩⟩, fun p => ?_⟩
  · have hextent : c'.extent z = c.extent z := by rw [Chunk.extent, hdata, Chunk.extent]
    rw [hext, List.map_cons, hextent]
    exact h.extents
  · rw [hsame d hd]
    exact h.free d (List.mem_cons_of_mem c hd)
  · constructor
    · rintro ⟨d, hd, i, hi, hused, rfl⟩
      exact ⟨d, hd, i, hi, hsame d hd ▸ hused, rfl⟩
    · rintro ⟨d, hd, i, hi, hused, rfl⟩
      exact ⟨d, hd, i, hi, (hsame d hd).symm ▸ hused, rfl⟩

theorem block_of_data (h : c'.pData = c.pData) : c'.block z i = c.block z i := by
  rw [Chunk.block, h, Chunk.block]

/-- What is used of a chunk when one more block is free in it. -/
theorem uses_of_cons (hdata : c'.pData = c.pData)
    (hfree : c.freeBlocks z m = i :: c'.freeBlocks z m')
    (hsound : SoundList (· < z.numBlocks) (c.freeBlocks z m)) :
    ¬ c.Uses z m (c.block z i) ∧
      ∀ p, c'.Uses z m' p ↔ p = c.block z i ∨ c.Uses z m p := by
  rw [hfree] at hsound
  obtain ⟨hi, hnot, -⟩ := hsound.pop
  constructor
  · rintro ⟨j, -, hused, heq⟩
    obtain rfl := Chunk.block_inj heq
    exact hused (hfree ▸ List.mem_cons_self ..)
  · intro p
    constructor
    · rintro ⟨j, hj, hused, rfl⟩
      rw [block_of_data hdata]
      by_cases heq : j = i
      · exact Or.inl (heq ▸ rfl)
      · refine Or.inr ⟨j, hj, ?_, rfl⟩
        rw [hfree]
        exact List.not_mem_cons_of_ne_of_not_mem heq hused
    · rintro (rfl | ⟨j, hj, hused, rfl⟩)
      · exact ⟨i, hi, hnot, (block_of_data hdata).symm⟩
      · rw [hfree] at hused
        exact ⟨j, hj, fun hmem => hused (List.mem_cons_of_mem i hmem),
          (block_of_data hdata).symm⟩

/-- A chunk with a free block gives one that is not used. -/
theorem allocate (h : Pool z m (c :: cs)) (hne : c.isFilled = false) :
    ∃ p c', c.allocate z.blockSize m = .ok (some p, c') ∧ Pool z m (c' :: cs) ∧
      c.blocksAvailable.toNat = c'.blocksAvailable.toNat + 1 ∧
      ¬ Used z m (c :: cs) p ∧ ∀ q, Used z m (c' :: cs) q ↔ q = p ∨ Used z m (c :: cs) q := by
  have hc := h.sound (List.mem_cons_self ..)
  obtain ⟨i, c', hrun, hdata, hfree⟩ := Chunk.allocate_spec hc hne
  have hsound := hc.free
  obtain ⟨hnot, huses⟩ := uses_of_cons hdata hfree hsound
  rw [hfree] at hsound
  obtain ⟨hi, -, htail⟩ := hsound.pop
  refine ⟨c.block z i, c', hrun, (h.replace rfl hdata htail fun _ _ => rfl).1,
    Chunk.toNat_blocksAvailable hfree, ?_, fun q => ?_⟩
  · rw [Used.cons]
    rintro (hused | hused)
    · exact hnot hused
    · exact h.not_used_tail (Chunk.contains_block hi) hused
  · rw [Used.cons, Used.cons, huses, or_assoc]

/-- A used block of the chunk is put back, and its first byte written. -/
theorem deallocate (h : Pool z m (c :: cs)) (hp : c.Uses z m p) :
    ∃ c' v, c.deallocate p z.blockSize m = .ok (c', m.poke p v) ∧
      Pool z (m.poke p v) (c' :: cs) ∧
      c'.blocksAvailable.toNat = c.blocksAvailable.toNat + 1 ∧
      ∀ q, Used z (m.poke p v) (c' :: cs) q ↔ q ≠ p ∧ Used z m (c :: cs) q := by
  have hc := h.sound (List.mem_cons_self ..)
  obtain ⟨i, hi, hused, rfl⟩ := hp
  obtain ⟨c', hrun, hdata, hfree⟩ := Chunk.deallocate_spec hc hi hused
  have hsound : SoundList (· < z.numBlocks) (c'.freeBlocks z (m.poke (c.block z i)
      c.firstAvailableBlock)) := by
    rw [hfree]
    exact hc.free.push hi hused
  obtain ⟨hnot, huses⟩ := uses_of_cons hdata.symm hfree hsound
  rw [block_of_data hdata] at hnot huses
  have hext : (m.poke (c.block z i) c.firstAvailableBlock).extents = m.extents := rfl
  obtain ⟨hpool, hrest⟩ := h.replace hext hdata hsound fun a ha => if_neg (by
    rintro rfl
    exact ha (Chunk.contains_block hi))
  refine ⟨c', _, hrun, hpool, Chunk.toNat_blocksAvailable hfree, fun q => ?_⟩
  rw [Used.cons, Used.cons, hrest, huses]
  constructor
  · rintro (hq | hq)
    · exact ⟨fun heq => hnot (heq ▸ hq), Or.inl (Or.inr hq)⟩
    · exact ⟨fun heq => h.not_used_tail (Chunk.contains_block hi) (heq ▸ hq), Or.inr hq⟩
  · rintro ⟨hne, (rfl | hq) | hq⟩
    · exact absurd rfl hne
    · exact Or.inl hq
    · exact Or.inr hq

/-- A new chunk has no used block. -/
theorem init {answer : Option Nat} {base : Nat} {m₁ : Bytes} (h : Pool z m cs)
    (hm : m.malloc (z.numBlocks.toNat * z.blockSize) answer = some (base, m₁)) :
    ∃ c m', Chunk.init z.blockSize z.numBlocks answer m = .ok (some (c, m')) ∧
      Pool z m' (c :: cs) ∧ c.blocksAvailable = z.numBlocks ∧
      (∀ q, Used z m' (c :: cs) q ↔ Used z m cs q) ∧
      ∀ a, m.Mapped a → m'.byte a = m.byte a := by
  obtain ⟨c, m', hrun, hext, hsound, hempty, hout⟩ := Chunk.init_spec hm
  have hnew : ∀ d ∈ cs, (c.extent z).Apart (d.extent z) := by
    intro d hd
    have hd' : d.extent z ∈ m.extents := h.extents.mem_iff.mpr (List.mem_map_of_mem hd)
    exact List.rel_of_pairwise_cons (hext ▸ m'.apart) hd'
  have hsame : ∀ d ∈ cs, d.freeBlocks z m' = d.freeBlocks z m := by
    intro d hd
    refine Chunk.freeBlocks_congr fun i hi => hout _ fun hin => ?_
    exact (hnew d hd).not_contains hin (Chunk.contains_block ((h.free d hd).mem i hi))
  refine ⟨c, m', hrun, ⟨?_, List.forall_mem_cons.mpr ⟨hsound.free, fun d hd => ?_⟩⟩, hempty,
    fun q => ?_, fun a ha => hout a fun hin => ?_⟩
  · rw [hext]
    exact h.extents.cons _
  · rw [hsame d hd]
    exact h.free d hd
  · rw [Used.cons]
    constructor
    · rintro (⟨i, hi, hused, -⟩ | ⟨d, hd, i, hi, hused, rfl⟩)
      · exact absurd (hsound.mem_freeBlocks hempty hi) hused
      · exact ⟨d, hd, i, hi, hsame d hd ▸ hused, rfl⟩
    · rintro ⟨d, hd, i, hi, hused, rfl⟩
      exact Or.inr ⟨d, hd, i, hi, (hsame d hd).symm ▸ hused, rfl⟩
  · obtain ⟨e, he, hea⟩ := ha
    exact (List.rel_of_pairwise_cons (hext ▸ m'.apart) he).not_contains hin hea

/-- A chunk that has no used block is released, and the used blocks stay. -/
theorem release (h : Pool z m (c :: cs)) (hempty : c.blocksAvailable = z.numBlocks) :
    ∃ m', c.release m = .ok m' ∧ Pool z m' cs ∧ m'.byte = m.byte ∧
      ∀ q, Used z m' cs q ↔ Used z m (c :: cs) q := by
  obtain ⟨m', hrun, hext, hbyte⟩ := Chunk.release_spec h.extents
  have hsame : ∀ d : Chunk, d.freeBlocks z m' = d.freeBlocks z m := fun d =>
    Chunk.freeBlocks_congr fun i _ => by rw [hbyte]
  refine ⟨m', hrun, ⟨hext, fun d hd => ?_⟩, hbyte, fun q => ?_⟩
  · rw [hsame d]
    exact h.free d (List.mem_cons_of_mem c hd)
  · have huses : ∀ d : Chunk, d.Uses z m' q ↔ d.Uses z m q := fun d => by
      rw [Chunk.Uses, hsame d, Chunk.Uses]
    rw [Used.cons]
    constructor
    · rintro ⟨d, hd, hu⟩
      exact Or.inr ⟨d, hd, (huses d).mp hu⟩
    · rintro (⟨i, hi, hused, -⟩ | ⟨d, hd, hu⟩)
      · exact absurd ((h.sound (List.mem_cons_self ..)).mem_freeBlocks hempty hi) hused
      · exact ⟨d, hd, (huses d).mpr hu⟩

end Pool

end BstGenerator.SmallObj
