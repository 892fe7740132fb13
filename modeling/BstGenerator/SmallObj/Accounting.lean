import Mathlib.Algebra.GroupWithZero.Nat
import Mathlib.Data.List.Nodup
import Mathlib.Data.List.Range
import BstGenerator.SmallObj.Allocate

/-!
# How many blocks are used

- `Chunk.usedBlocks`: the addresses of a chunk's blocks that are not free.
- `Pool.accounts`: the used blocks and the free ones of all chunks are all blocks, each once.
- `FixedAllocator.Sound.countP_le`, `FixedAllocator.Sound.size_le`: one chunk is empty at most,
  so there is a used block for each chunk but one.
-/

namespace BstGenerator.SmallObj

open Memory

variable {z : Sizes} {m : Bytes} {c : Chunk} {cs : List Chunk} {p k : Nat} {live : List Nat}

theorem toNat_ofNat_of_lt (hk : k < z.numBlocks.toNat) : (UInt8.ofNat k).toNat = k := by
  have := z.numBlocks.toNat_lt
  exact UInt8.toNat_ofNat_of_lt' (Nat.lt_trans hk this)

/-- The numbers of the blocks that are not free. -/
def Chunk.usedNumbers (z : Sizes) (m : Bytes) (c : Chunk) : List Nat :=
  (List.range z.numBlocks.toNat).filter fun k => UInt8.ofNat k ∉ c.freeBlocks z m

/-- The addresses of the blocks that are not free. -/
def Chunk.usedBlocks (z : Sizes) (m : Bytes) (c : Chunk) : List Nat :=
  (c.usedNumbers z m).map fun k => c.block z (UInt8.ofNat k)

namespace Chunk

theorem mem_usedNumbers :
    k ∈ c.usedNumbers z m ↔ k < z.numBlocks.toNat ∧ UInt8.ofNat k ∉ c.freeBlocks z m := by
  simp [usedNumbers]

theorem mem_usedBlocks : p ∈ c.usedBlocks z m ↔ c.Uses z m p := by
  rw [usedBlocks, List.mem_map]
  constructor
  · rintro ⟨k, hk, rfl⟩
    obtain ⟨hlt, hused⟩ := mem_usedNumbers.mp hk
    refine ⟨UInt8.ofNat k, ?_, hused, rfl⟩
    rw [UInt8.lt_iff_toNat_lt, toNat_ofNat_of_lt hlt]
    exact hlt
  · rintro ⟨i, hi, hused, rfl⟩
    refine ⟨i.toNat, mem_usedNumbers.mpr ⟨UInt8.lt_iff_toNat_lt.mp hi, ?_⟩, ?_⟩
    · rw [UInt8.ofNat_toNat]
      exact hused
    · rw [UInt8.ofNat_toNat]

theorem nodup_usedBlocks : (c.usedBlocks z m).Nodup := by
  refine List.Nodup.map_on (fun k hk l hl heq => ?_) (List.nodup_range.filter _)
  have hkl := block_inj heq
  rw [← toNat_ofNat_of_lt (mem_usedNumbers.mp hk).1, hkl,
    toNat_ofNat_of_lt (mem_usedNumbers.mp hl).1]

/-- A block of a sound chunk is used or free. -/
theorem Sound.length_usedBlocks (h : c.Sound z m) :
    (c.usedBlocks z m).length + c.blocksAvailable.toNat = z.numBlocks.toNat := by
  have hfree : ((List.range z.numBlocks.toNat).filter fun k =>
      !decide (UInt8.ofNat k ∉ c.freeBlocks z m)).Perm ((c.freeBlocks z m).map UInt8.toNat) := by
    refine (List.perm_ext_iff_of_nodup (List.nodup_range.filter _)
      (h.free.nodup.map toNat_injective)).mpr fun k => ?_
    simp only [List.mem_filter, List.mem_range, decide_not, Bool.not_not, decide_eq_true_eq,
      List.mem_map]
    constructor
    · rintro ⟨hlt, hmem⟩
      exact ⟨_, hmem, toNat_ofNat_of_lt hlt⟩
    · rintro ⟨i, hi, rfl⟩
      exact ⟨UInt8.lt_iff_toNat_lt.mp (h.free.mem i hi), by rwa [UInt8.ofNat_toNat]⟩
  have hsum := List.length_eq_length_filter_add (l := List.range z.numBlocks.toNat)
    fun k => decide (UInt8.ofNat k ∉ c.freeBlocks z m)
  rw [hfree.length_eq, List.length_map, length_freeBlocks, List.length_range] at hsum
  rw [usedBlocks, List.length_map]
  exact hsum.symm

end Chunk

namespace Pool

theorem mem_flatMap : p ∈ cs.flatMap (Chunk.usedBlocks z m) ↔ Used z m cs p := by
  simp only [List.mem_flatMap, Chunk.mem_usedBlocks, Used]

/-- The used blocks of two chunks are different. -/
theorem nodup_flatMap (h : Pool z m cs) : (cs.flatMap (Chunk.usedBlocks z m)).Nodup := by
  refine List.nodup_flatMap.mpr ⟨fun _ _ => Chunk.nodup_usedBlocks, ?_⟩
  refine (List.pairwise_map.mp h.pairwise).imp fun {c d} hapart p hp hq => ?_
  exact hapart.not_contains (Chunk.mem_usedBlocks.mp hp).contains
    (Chunk.mem_usedBlocks.mp hq).contains

/-- Who has all used blocks, each once, has as many as the chunks count. -/
theorem perm_flatMap (h : Pool z m cs) (hnodup : live.Nodup)
    (hlive : ∀ p, p ∈ live ↔ Used z m cs p) : live.Perm (cs.flatMap (Chunk.usedBlocks z m)) :=
  (List.perm_ext_iff_of_nodup hnodup h.nodup_flatMap).mpr fun p => by
    rw [hlive, mem_flatMap]

theorem length_flatMap (h : ∀ c ∈ cs, c.Sound z m) :
    (cs.flatMap (Chunk.usedBlocks z m)).length + (cs.map fun c => c.blocksAvailable.toNat).sum =
      cs.length * z.numBlocks.toNat := by
  induction cs with
  | nil => simp
  | cons c cs ih =>
    have hc := (h c (List.mem_cons_self ..)).length_usedBlocks
    have hcs := ih fun d hd => h d (List.mem_cons_of_mem c hd)
    simp only [List.flatMap_cons, List.length_append, List.map_cons, List.sum_cons,
      List.length_cons, Nat.succ_mul]
    omega

/-- **The blocks are accounted for**: those that are used and those that are free are all. -/
theorem accounts (h : Pool z m cs) (hnodup : live.Nodup)
    (hlive : ∀ p, p ∈ live ↔ Used z m cs p) :
    live.length + (cs.map fun c => c.blocksAvailable.toNat).sum =
      cs.length * z.numBlocks.toNat := by
  rw [(h.perm_flatMap hnodup hlive).length_eq]
  exact length_flatMap fun c hc => h.sound hc

/-- All blocks are used just if all chunks are filled. -/
theorem allFilled_iff (h : Pool z m cs) (hnodup : live.Nodup)
    (hlive : ∀ p, p ∈ live ↔ Used z m cs p) :
    (∀ c ∈ cs, c.isFilled = true) ↔ live.length = cs.length * z.numBlocks.toNat := by
  rw [← h.accounts hnodup hlive, eq_comm, Nat.add_eq_left, List.sum_eq_zero_iff_forall_eq_nat]
  simp only [List.mem_map, forall_exists_index, and_imp, forall_apply_eq_imp_iff₂]
  refine forall₂_congr fun c _ => ?_
  rw [Chunk.isFilled_iff, ← UInt8.toNat_inj]
  rfl

/-- A chunk that is not empty has a used block. -/
theorem length_le (h : ∀ c ∈ cs, c.Sound z m) (hne : ∀ c ∈ cs, c.blocksAvailable ≠ z.numBlocks) :
    cs.length ≤ (cs.flatMap (Chunk.usedBlocks z m)).length := by
  induction cs with
  | nil => exact Nat.zero_le _
  | cons c cs ih =>
    have hsum := (h c (List.mem_cons_self ..)).length_usedBlocks
    have hc : c.blocksAvailable.toNat ≠ z.numBlocks.toNat := fun heq =>
      hne c (List.mem_cons_self ..) (UInt8.toNat_inj.mp heq)
    have hcs := ih (fun d hd => h d (List.mem_cons_of_mem c hd))
      fun d hd => hne d (List.mem_cons_of_mem c hd)
    simp only [List.flatMap_cons, List.length_append, List.length_cons]
    omega

/-- A block of a chunk is used if it is not free in that chunk. -/
theorem used_block_iff (h : Pool z m cs) (hc : c ∈ cs) {i : UInt8} (hi : i < z.numBlocks) :
    Used z m cs (c.block z i) ↔ i ∉ c.freeBlocks z m := by
  constructor
  · rintro ⟨d, hd, hu⟩
    obtain rfl := h.chunk_unique hc hd (Chunk.contains_block hi) hu.contains
    obtain ⟨j, -, hused, heq⟩ := hu
    exact Chunk.block_inj heq ▸ hused
  · exact fun hused => ⟨c, hc, i, hi, hused, rfl⟩

end Pool

namespace FixedAllocator.Sound

variable {f : FixedAllocator}

/-- The chunks are the empty one, if there is one, and others that are not empty. -/
theorem exists_perm (h : f.Sound z m) : ∃ es rest, f.chunks.items.Perm (es ++ rest) ∧
    es.length ≤ 1 ∧ ∀ c ∈ rest, c.blocksAvailable ≠ z.numBlocks := by
  cases he : f.emptyChunk with
  | none =>
    exact ⟨[], f.chunks.items, List.Perm.refl _, Nat.zero_le 1,
      fun c hc => h.not_empty_of_none he hc⟩
  | some p =>
    obtain ⟨c, hc, hempty⟩ := (h.emptyChunk p).mp he
    obtain ⟨rest, hperm, -⟩ := Vec.set_perm hc c
    refine ⟨[c], rest, hperm, Nat.le_refl 1, fun d hd => ?_⟩
    obtain ⟨i, -, hget⟩ := Vec.exists_get?_of_mem (hperm.mem_iff.mpr (List.mem_cons_of_mem c hd))
    refine h.not_empty hget fun heq => ?_
    -- no other chunk is where `c` is
    rw [← Option.some.inj (he.symm.trans heq), hc] at hget
    obtain rfl := Option.some.inj hget
    have hpos : 0 < (c.extent z).size := Nat.mul_pos z.numBlocks_pos z.blockSize_pos
    exact ((h.pool.perm hperm).apart hd).base_ne hpos hpos rfl

/-- There is never a second empty chunk. -/
theorem countP_le (h : f.Sound z m) :
    f.chunks.items.countP (Chunk.hasAvailable f.numBlocks) ≤ 1 := by
  obtain ⟨es, rest, hperm, hes, hrest⟩ := h.exists_perm
  have hzero : rest.countP (Chunk.hasAvailable f.numBlocks) = 0 := by
    refine List.countP_eq_zero.mpr fun c hc => ?_
    rw [h.numBlocks, Chunk.hasAvailable_iff]
    exact hrest c hc
  rw [hperm.countP_eq, List.countP_append, hzero]
  exact Nat.le_trans List.countP_le_length hes

/-- As there is one empty chunk at most, there is a used block for each other chunk. -/
theorem size_le (h : f.Sound z m) :
    f.chunks.size ≤ (f.chunks.items.flatMap (Chunk.usedBlocks z m)).length + 1 := by
  obtain ⟨es, rest, hperm, hes, hrest⟩ := h.exists_perm
  have hle := Pool.length_le
    (fun c hc => h.pool.sound (hperm.mem_iff.mpr (List.mem_append_right es hc))) hrest
  rw [(hperm.flatMap_right (Chunk.usedBlocks z m)).length_eq, Vec.size, hperm.length_eq]
  simp only [List.flatMap_append, List.length_append]
  omega

end FixedAllocator.Sound

end BstGenerator.SmallObj
