import BstGenerator.SmallObj.Chunk

/-!
# The blocks of a chunk

- `Sizes`: the two sizes that all chunks of an allocator share.
- `Chunk.block`, `Chunk.extent`: where the blocks of a chunk are.
- `Chunk.freeBlocks`: its free blocks, read along the stealth indexes.
- `Chunk.Sound`: a chunk that is allocated, and whose stealth indexes are a list of blocks
  without repetition. Each member function keeps it.
-/

namespace BstGenerator.SmallObj

open Memory Machine

/-- The size of a block and the number of blocks of a chunk, whose size is a
`std::size_t`. -/
structure Sizes where
  blockSize : Nat
  numBlocks : UInt8
  blockSize_pos : 0 < blockSize
  numBlocks_pos : 0 < numBlocks.toNat
  fits : numBlocks.toNat * blockSize < 2 ^ 64

/-- What fits into a `std::size_t` is not changed by it. -/
theorem sizeT_eq {n : Nat} (h : n < 2 ^ 64) : sizeT n = n := Nat.mod_eq_of_lt h

/-- The distance of two addresses in order is their difference. -/
theorem distance_eq {p q : Nat} (h : q ≤ p) (hlt : p - q < 2 ^ 64) :
    distance p q = p - q := by
  unfold distance sizeT
  omega

/-- A byte below another one can be counted up. -/
theorem toNat_succ {i j : UInt8} (h : i < j) : (i + 1).toNat = i.toNat + 1 := by
  have hlt := UInt8.lt_iff_toNat_lt.mp h
  have hj := j.toNat_lt
  rw [UInt8.toNat_add, UInt8.toNat_one]
  omega

/-- A byte that is not 0 can be counted down. -/
theorem toNat_pred {i : UInt8} (h : i ≠ 0) : i.toNat = (i - 1).toNat + 1 := by
  have hpos : i.toNat ≠ 0 := fun heq => h (UInt8.toNat_inj.mp heq)
  rw [UInt8.toNat_sub, UInt8.toNat_one]
  have := i.toNat_lt
  omega

theorem toNat_injective : Function.Injective UInt8.toNat := fun _ _ h => UInt8.toNat_inj.mp h

variable {z : Sizes} {m m' : Bytes} {c : Chunk} {i j : UInt8} {a : Nat}

/-- No block ends behind its chunk. -/
theorem Sizes.mul_lt (z : Sizes) (h : i < z.numBlocks) :
    i.toNat * z.blockSize + z.blockSize ≤ z.numBlocks.toNat * z.blockSize := by
  rw [← Nat.succ_mul]
  exact Nat.mul_le_mul_right _ (UInt8.lt_iff_toNat_lt.mp h)

/-- So the product that gives a block's offset does not overflow. -/
theorem Sizes.offset_eq (z : Sizes) (h : i < z.numBlocks) :
    sizeT (i.toNat * z.blockSize) = i.toNat * z.blockSize := by
  refine sizeT_eq ?_
  have := z.mul_lt h
  have := z.fits
  omega

theorem Sizes.length_eq (z : Sizes) :
    sizeT (z.numBlocks.toNat * z.blockSize) = z.numBlocks.toNat * z.blockSize := sizeT_eq z.fits

namespace Chunk

/-- The address of block `i`. -/
def block (z : Sizes) (c : Chunk) (i : UInt8) : Nat := c.pData + i.toNat * z.blockSize

/-- The bytes of block `i`. -/
def blockExtent (z : Sizes) (c : Chunk) (i : UInt8) : Extent := ⟨c.block z i, z.blockSize⟩

/-- The bytes of the chunk. -/
def extent (z : Sizes) (c : Chunk) : Extent := ⟨c.pData, z.numBlocks.toNat * z.blockSize⟩

/-- The stealth index in block `i`. -/
def next (z : Sizes) (m : Bytes) (c : Chunk) (i : UInt8) : UInt8 := m.byte (c.block z i)

/-- The free blocks, the one that is allocated next first. -/
def freeBlocks (z : Sizes) (m : Bytes) (c : Chunk) : List UInt8 :=
  follow (c.next z m) c.blocksAvailable.toNat c.firstAvailableBlock

/-- The chunk is allocated, and its stealth indexes are as they should be. -/
structure Sound (z : Sizes) (m : Bytes) (c : Chunk) : Prop where
  mapped : c.extent z ∈ m.extents
  free : SoundList (· < z.numBlocks) (c.freeBlocks z m)

/-- There are as many free blocks as the chunk counts, sound or not. -/
theorem length_freeBlocks : (c.freeBlocks z m).length = c.blocksAvailable.toNat := length_follow

/-- `HasBlock` says what is in the chunk. -/
theorem hasBlock_iff : c.hasBlock a (z.numBlocks.toNat * z.blockSize) = true ↔
    (c.extent z).Contains a := decide_eq_true_iff

theorem isFilled_iff : c.isFilled = true ↔ c.blocksAvailable = 0 := by
  rw [isFilled, decide_eq_true_iff, eq_comm]

/-- A chunk is filled if no block of it is free. -/
theorem isFilled_iff_freeBlocks : c.isFilled = true ↔ c.freeBlocks z m = [] := by
  rw [isFilled_iff, ← List.length_eq_zero_iff, length_freeBlocks, ← UInt8.toNat_inj]
  rfl

/-- `HasAvailable` says that the chunk is empty. -/
theorem hasAvailable_iff : c.hasAvailable z.numBlocks = true ↔
    c.blocksAvailable = z.numBlocks := decide_eq_true_iff

/-! ## Where the blocks are -/

/-- A block is in its chunk. -/
theorem extent_contains_of_block (h : i < z.numBlocks) (ha : (c.blockExtent z i).Contains a) :
    (c.extent z).Contains a := by
  obtain ⟨hle, hlt⟩ := ha
  have := z.mul_lt h
  simp only [blockExtent, block] at hle hlt
  exact ⟨by simp only [extent]; omega, by simp only [extent]; omega⟩

theorem blockExtent_contains_block : (c.blockExtent z i).Contains (c.block z i) :=
  Extent.contains_base z.blockSize_pos

theorem contains_block (h : i < z.numBlocks) : (c.extent z).Contains (c.block z i) :=
  extent_contains_of_block h blockExtent_contains_block

/-- Two blocks of a chunk are apart. -/
theorem blockExtent_apart (h : i ≠ j) : (c.blockExtent z i).Apart (c.blockExtent z j) := by
  have key : ∀ i j : UInt8, i.toNat < j.toNat →
      c.block z i + z.blockSize ≤ c.block z j := by
    intro i j hlt
    have := Nat.mul_le_mul_right z.blockSize (Nat.succ_le_of_lt hlt)
    rw [Nat.succ_mul] at this
    simp only [block]
    omega
  rcases Nat.lt_or_gt_of_ne fun heq => h (UInt8.toNat_inj.mp heq) with hlt | hlt
  · exact Or.inl (key i j hlt)
  · exact Or.inr (key j i hlt)

/-- Different blocks have different addresses. -/
theorem block_inj (h : c.block z i = c.block z j) : i = j := by
  by_contra hne
  exact (blockExtent_apart (z := z) (c := c) hne).base_ne z.blockSize_pos z.blockSize_pos h

theorem distance_block (h : i < z.numBlocks) :
    distance (c.block z i) c.pData = i.toNat * z.blockSize := by
  have := z.mul_lt h
  have := z.fits
  have hdiff : c.block z i - c.pData = i.toNat * z.blockSize := Nat.add_sub_cancel_left ..
  have hle : c.pData ≤ c.block z i := Nat.le_add_right ..
  rw [distance_eq hle (by omega), hdiff]

theorem distance_block_mod (h : i < z.numBlocks) :
    distance (c.block z i) c.pData % z.blockSize = 0 := by
  rw [distance_block h, Nat.mul_mod_left]

/-- `Deallocate` gets the number of a block back from its address. -/
theorem distance_block_div (h : i < z.numBlocks) :
    distance (c.block z i) c.pData / z.blockSize = i.toNat := by
  rw [distance_block h, Nat.mul_div_cancel _ z.blockSize_pos]

/-! ## Access -/

theorem assert_of {p : Prop} [Decidable p] (h : p) : assert p = .ok () := if_pos h

theorem load_eq (h : m.Mapped a) : load a m = .ok (m.byte a) := by
  rw [load, Bytes.read_eq h]

theorem store_eq {v : UInt8} (h : m.Mapped a) : store a v m = .ok (m.poke a v) := by
  rw [store, Bytes.write_eq h]

/-- The stealth index of a block can be read and written while the chunk is allocated. -/
theorem mapped_block (h : c.extent z ∈ m.extents) (hi : i < z.numBlocks) :
    m.Mapped (c.block z i) := ⟨_, h, contains_block hi⟩

/-! ## `Allocate` and `Deallocate` -/

/-- The free blocks depend on the stealth indexes in them only. -/
theorem freeBlocks_congr
    (h : ∀ i ∈ c.freeBlocks z m, m'.byte (c.block z i) = m.byte (c.block z i)) :
    c.freeBlocks z m' = c.freeBlocks z m := follow_congr h

/-- A sound chunk counts no more free blocks than it has blocks. -/
theorem Sound.length_le (h : c.Sound z m) :
    (c.freeBlocks z m).length ≤ z.numBlocks.toNat :=
  SoundList.length_le toNat_injective
    ⟨h.free.nodup, fun i hi => UInt8.lt_iff_toNat_lt.mp (h.free.mem i hi)⟩

/-- A block that is not free keeps its chunk from being empty. -/
theorem Sound.blocksAvailable_lt (h : c.Sound z m) (hi : i < z.numBlocks)
    (hused : i ∉ c.freeBlocks z m) : c.blocksAvailable < z.numBlocks := by
  have hfree : SoundList (UInt8.toNat · < z.numBlocks.toNat) (c.freeBlocks z m) :=
    ⟨h.free.nodup, fun i hi => UInt8.lt_iff_toNat_lt.mp (h.free.mem i hi)⟩
  have hne : (c.freeBlocks z m).length ≠ z.numBlocks.toNat := fun hl =>
    hused (hfree.mem_of_length toNat_injective hl (UInt8.lt_iff_toNat_lt.mp hi))
  rw [UInt8.lt_iff_toNat_lt, ← length_freeBlocks (z := z) (m := m)]
  exact Nat.lt_of_le_of_ne h.length_le hne

/-- An empty chunk has all its blocks free. -/
theorem Sound.mem_freeBlocks (h : c.Sound z m) (hempty : c.blocksAvailable = z.numBlocks)
    (hi : i < z.numBlocks) : i ∈ c.freeBlocks z m := by
  by_contra hused
  exact absurd (hempty ▸ h.blocksAvailable_lt hi hused) (UInt8.lt_irrefl _)

/-- `Allocate` takes the first free block. -/
theorem allocate_spec (h : c.Sound z m) (hne : c.isFilled = false) :
    ∃ i c', c.allocate z.blockSize m = .ok (some (c.block z i), c') ∧ c'.pData = c.pData ∧
      c.freeBlocks z m = i :: c'.freeBlocks z m := by
  have hpos : c.blocksAvailable ≠ 0 := fun heq =>
    absurd (isFilled_iff.mpr heq) (by simp [hne])
  have hfree : c.freeBlocks z m = c.firstAvailableBlock :: follow (c.next z m)
      (c.blocksAvailable - 1).toNat (m.byte (c.block z c.firstAvailableBlock)) := by
    rw [freeBlocks, toNat_pred hpos, follow_succ]
    rfl
  have hi : c.firstAvailableBlock < z.numBlocks := by
    refine h.free.mem _ ?_
    rw [hfree]
    exact List.mem_cons_self ..
  refine ⟨c.firstAvailableBlock, ⟨c.pData, m.byte (c.block z c.firstAvailableBlock),
    c.blocksAvailable - 1⟩, ?_, rfl, hfree⟩
  have hoffset := z.offset_eq hi
  simp only [allocate, hne, hoffset, Nat.mul_div_cancel _ z.blockSize_pos, assert_of]
  show (load (c.block z c.firstAvailableBlock) m >>= _) = _
  rw [load_eq (mapped_block h.mapped hi)]
  rfl

/-- What is left of a chunk when a block is taken, or put back, has one block fewer, or
more. -/
theorem toNat_blocksAvailable {c' : Chunk}
    (hfree : c.freeBlocks z m = i :: c'.freeBlocks z m') :
    c.blocksAvailable.toNat = c'.blocksAvailable.toNat + 1 := by
  have := congrArg List.length hfree
  rwa [List.length_cons, length_freeBlocks, length_freeBlocks] at this

/-- `Deallocate` puts the block in front of the free ones, and writes its first byte. -/
theorem deallocate_spec (h : c.Sound z m) (hi : i < z.numBlocks)
    (hused : i ∉ c.freeBlocks z m) :
    ∃ c', c.deallocate (c.block z i) z.blockSize m =
        .ok (c', m.poke (c.block z i) c.firstAvailableBlock) ∧ c'.pData = c.pData ∧
      c'.freeBlocks z (m.poke (c.block z i) c.firstAvailableBlock) =
        i :: c.freeBlocks z m := by
  refine ⟨⟨c.pData, i, c.blocksAvailable + 1⟩, ?_, rfl, ?_⟩
  · have hle : c.block z i ≥ c.pData := Nat.le_add_right ..
    have hindex : UInt8.ofNat i.toNat = i := UInt8.ofNat_toNat
    simp only [deallocate, hle, distance_block_mod hi, distance_block_div hi, hindex, assert_of,
      store_eq (mapped_block h.mapped hi)]
    rfl
  · have hnext : next z (m.poke (c.block z i) c.firstAvailableBlock)
        ⟨c.pData, i, c.blocksAvailable + 1⟩ =
        Function.update (c.next z m) i c.firstAvailableBlock := by
      funext j
      by_cases hj : j = i
      · subst hj
        rw [Function.update_self]
        exact if_pos rfl
      · rw [Function.update_of_ne hj]
        exact if_neg fun heq => hj (block_inj (c := c) heq)
    show follow _ (c.blocksAvailable + 1).toNat i = _
    rw [hnext, toNat_succ (h.blocksAvailable_lt hi hused)]
    exact follow_push hused

/-! ## `Init` -/

/-- The loop of `Reset` writes the first byte of each block that is left, and no other. -/
theorem resetLoop_spec (fuel : Nat) {p : Nat} (hi : i ≤ z.numBlocks)
    (hfuel : z.numBlocks.toNat - i.toNat < fuel)
    (hmap : ∀ k, i.toNat + k < z.numBlocks.toNat → m.Mapped (p + k * z.blockSize)) :
    ∃ m', resetLoop z.blockSize z.numBlocks fuel i p m = .ok m' ∧ m'.extents = m.extents ∧
      (∀ k, i.toNat + k < z.numBlocks.toNat →
        (m'.byte (p + k * z.blockSize)).toNat = i.toNat + k + 1) ∧
      ∀ a, (∀ k, i.toNat + k < z.numBlocks.toNat → a ≠ p + k * z.blockSize) →
        m'.byte a = m.byte a := by
  induction fuel generalizing i p m with
  | zero => exact absurd hfuel (Nat.not_lt_zero _)
  | succ fuel ih =>
    by_cases heq : i = z.numBlocks
    · subst heq
      exact ⟨m, by rw [resetLoop, if_neg (by simp)]; rfl, rfl,
        fun k hk => absurd hk (by omega), fun _ _ => rfl⟩
    · have hlt : i < z.numBlocks := UInt8.lt_of_le_of_ne hi heq
      have hsucc := toNat_succ hlt
      have hlt' := UInt8.lt_iff_toNat_lt.mp hlt
      have hstep : ∀ k, p + z.blockSize + k * z.blockSize = p + (k + 1) * z.blockSize := by
        intro k
        rw [Nat.succ_mul]
        omega
      obtain ⟨m', hrun, hext, hin, hout⟩ := ih (i := i + 1) (p := p + z.blockSize)
        (m := m.poke p (i + 1)) (UInt8.le_iff_toNat_le.mpr (by omega)) (by omega)
        fun k hk => by
          rw [hstep]
          exact hmap (k + 1) (by omega)
      have hp : m.Mapped p := by simpa using hmap 0 (by omega)
      refine ⟨m', ?_, hext, ?_, ?_⟩
      · rw [resetLoop, if_pos heq]
        simp only [store_eq hp]
        exact hrun
      · intro k hk
        cases k with
        | zero =>
          -- the rounds that follow write beyond this block
          have hsame := hout p fun k _ hk => by
            have := z.blockSize_pos
            omega
          rw [Nat.zero_mul, Nat.add_zero, hsame, Bytes.poke_byte, if_pos rfl]
          omega
        | succ k =>
          have := hin k (by omega)
          rw [hstep] at this
          omega
      · intro a ha
        rw [hout a fun k hk => hstep k ▸ ha (k + 1) (by omega), Bytes.poke_byte,
          if_neg (by simpa using ha 0 (by omega))]

/-- Blocks that each name the one after them are a sound list. -/
theorem soundList_of_succ {next : UInt8 → UInt8} {n : UInt8}
    (h : ∀ j, j < n → (next j).toNat = j.toNat + 1) (k : Nat) (hk : i.toNat + k = n.toNat) :
    SoundList (fun j => i ≤ j ∧ j < n) (follow next k i) := by
  induction k generalizing i with
  | zero => exact ⟨List.nodup_nil, fun j hj => absurd hj List.not_mem_nil⟩
  | succ k ih =>
    have hlt : i < n := UInt8.lt_iff_toNat_lt.mpr (by omega)
    have hnext := h i hlt
    have htail := ih (i := next i) (by omega)
    have hbeyond : ∀ j ∈ follow next k (next i), i < j := by
      intro j hj
      have := UInt8.le_iff_toNat_le.mp (htail.mem j hj).1
      exact UInt8.lt_iff_toNat_lt.mpr (by omega)
    rw [follow_succ]
    refine SoundList.push ⟨htail.nodup, fun j hj => ?_⟩ ⟨UInt8.le_refl i, hlt⟩
      fun hi => UInt8.lt_irrefl i (hbeyond i hi)
    exact ⟨UInt8.le_of_lt (hbeyond j hj), (htail.mem j hj).2⟩

/-- `Reset` frees every block. -/
theorem reset_spec (hext : c.extent z ∈ m.extents) :
    ∃ c' m', c.reset z.blockSize z.numBlocks m = .ok (c', m') ∧ c'.pData = c.pData ∧
      m'.extents = m.extents ∧ c'.Sound z m' ∧ c'.blocksAvailable = z.numBlocks ∧
      ∀ a, ¬ (c.extent z).Contains a → m'.byte a = m.byte a := by
  have hat : ∀ k, k < z.numBlocks.toNat → ∃ j < z.numBlocks, j.toNat = k ∧
      c.pData + k * z.blockSize = c.block z j := by
    intro k hk
    have hj : (UInt8.ofNat k).toNat = k :=
      UInt8.toNat_ofNat_of_lt' (Nat.lt_trans hk z.numBlocks.toNat_lt)
    exact ⟨UInt8.ofNat k, UInt8.lt_iff_toNat_lt.mpr (by omega), hj, by rw [block, hj]⟩
  obtain ⟨m', hrun, hextents, hin, hout⟩ := resetLoop_spec (z := z) (m := m) (i := 0)
    256 (p := c.pData) (UInt8.le_iff_toNat_le.mpr (Nat.zero_le _))
    (Nat.lt_of_le_of_lt (Nat.sub_le ..) z.numBlocks.toNat_lt) fun k hk => by
      obtain ⟨j, hj, -, heq⟩ := hat k (by simpa using hk)
      exact heq ▸ mapped_block hext hj
  have hpos : 0 < z.numBlocks := UInt8.lt_iff_toNat_lt.mpr z.numBlocks_pos
  have hcheck : sizeT (z.blockSize * z.numBlocks.toNat) / z.blockSize = z.numBlocks.toNat := by
    rw [Nat.mul_comm, z.length_eq, Nat.mul_div_cancel _ z.blockSize_pos]
  refine ⟨⟨c.pData, 0, z.numBlocks⟩, m', ?_, rfl, hextents, ⟨hextents ▸ hext, ?_⟩, rfl, ?_⟩
  · simp only [reset, hcheck, assert_of z.blockSize_pos, assert_of hpos, assert_of]
    show (resetLoop z.blockSize z.numBlocks 256 0 c.pData m >>= _) = _
    rw [hrun]
    rfl
  · have hnext : ∀ j < z.numBlocks,
        (next z m' ⟨c.pData, 0, z.numBlocks⟩ j).toNat = j.toNat + 1 := fun j hj => by
      have := hin j.toNat (by simpa using UInt8.lt_iff_toNat_lt.mp hj)
      simpa [next, block] using this
    have hsound := soundList_of_succ (i := 0) hnext z.numBlocks.toNat (by simp)
    exact ⟨hsound.nodup, fun j hj => (hsound.mem j hj).2⟩
  · intro a ha
    refine hout a fun k hk heq => ?_
    obtain ⟨j, hj, -, hblock⟩ := hat k (by simpa using hk)
    exact ha (heq ▸ hblock ▸ contains_block hj)

/-- `Init` gives an empty chunk where `malloc` finds room, and writes nowhere else. -/
theorem init_spec {answer : Option Nat} {p : Nat} {m₁ : Bytes}
    (h : m.malloc (z.numBlocks.toNat * z.blockSize) answer = some (p, m₁)) :
    ∃ c m', init z.blockSize z.numBlocks answer m = .ok (some (c, m')) ∧
      m'.extents = c.extent z :: m.extents ∧ c.Sound z m' ∧
      c.blocksAvailable = z.numBlocks ∧ ∀ a, ¬ (c.extent z).Contains a → m'.byte a = m.byte a := by
  obtain ⟨-, hextents, hbyte⟩ := Bytes.malloc_some h
  obtain ⟨c, m', hreset, hp, hextents', hsound, hempty, hout⟩ :=
    reset_spec (z := z) (m := m₁) (c := ⟨p, 0, 0⟩) (by rw [hextents]; exact List.mem_cons_self ..)
  have hpos : 0 < z.numBlocks := UInt8.lt_iff_toNat_lt.mpr z.numBlocks_pos
  have hcheck : z.numBlocks.toNat * z.blockSize / z.blockSize = z.numBlocks.toNat :=
    Nat.mul_div_cancel _ z.blockSize_pos
  have hext : c.extent z = ⟨p, z.numBlocks.toNat * z.blockSize⟩ := by rw [extent, hp]
  refine ⟨c, m', ?_, ?_, hsound, hempty, ?_⟩
  · simp only [init, Nat.mul_comm z.blockSize, z.length_eq, hcheck, assert_of z.blockSize_pos,
      assert_of hpos, assert_of, h]
    show (reset z.blockSize z.numBlocks ⟨p, 0, 0⟩ m₁ >>= _) = _
    rw [hreset]
    rfl
  · rw [hextents', hextents, hext]
  · intro a ha
    rw [hout a (by rwa [hext] at ha), hbyte]

/-- Without memory for the blocks there is no chunk. -/
theorem init_none {answer : Option Nat}
    (h : m.malloc (z.numBlocks.toNat * z.blockSize) answer = none) :
    init z.blockSize z.numBlocks answer m = .ok none := by
  have hpos : 0 < z.numBlocks := UInt8.lt_iff_toNat_lt.mpr z.numBlocks_pos
  have hcheck : z.numBlocks.toNat * z.blockSize / z.blockSize = z.numBlocks.toNat :=
    Nat.mul_div_cancel _ z.blockSize_pos
  simp only [init, Nat.mul_comm z.blockSize, z.length_eq, hcheck, assert_of z.blockSize_pos,
    assert_of hpos, assert_of, h]
  rfl

/-- `Release` gives the chunk's extent back. -/
theorem release_spec {es : List Extent} (h : m.extents.Perm (c.extent z :: es)) :
    ∃ m', c.release m = .ok m' ∧ m'.extents.Perm es ∧ m'.byte = m.byte := by
  obtain ⟨m', hfree, hperm, hbyte⟩ := Bytes.free_of_perm h
  have hne := (m.valid _ (h.mem_iff.mpr (List.mem_cons_self ..))).1
  refine ⟨m', ?_, hperm, hbyte⟩
  have hnull : NULL ≠ c.pData := Ne.symm hne
  have hfree : m.free c.pData = some m' := hfree
  simp only [release, assert_of hnull, hfree]
  rfl

end Chunk

end BstGenerator.SmallObj
