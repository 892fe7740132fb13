import BstGenerator.SmallObj.Allocate

/-!
# `Deallocate`

- `vicinityFind_eq`: the search from `deallocChunk_` in both directions finds what the
  search from the front finds.
- `Sound.deallocate`: a used block is put back, and nothing else changes. If a second chunk
  becomes empty by that, one of the two is released.
-/

namespace BstGenerator.SmallObj

open Memory Machine

variable {z : Sizes} {m m' : Bytes} {f f' : FixedAllocator} {p q d e : Vec.Ptr} {c : Chunk}
  {a b : Nat}

namespace FixedAllocator

/-! ## `VicinityFind` -/

/-- Chunk `i` has the byte. -/
def At (f : FixedAllocator) (a i : Nat) : Prop :=
  ∃ c, f.chunks.items[i]? = some c ∧ c.hasBlock a f.chunkLength = true

theorem At.lt {i : Nat} (h : f.At a i) : i < f.chunks.size := by
  obtain ⟨c, hc, -⟩ := h
  exact (List.getElem?_eq_some_iff.mp hc).1

/-- No byte is in two chunks. -/
theorem Sound.at_unique (h : f.Sound z m) {i j : Nat} (hi : f.At a i) (hj : f.At a j) :
    i = j := by
  have key : ∀ i j, f.At a i → f.At a j → ¬ i < j := by
    rintro i j ⟨c, hc, hca⟩ ⟨d, hd, hda⟩ hlt
    rw [h.chunkLength, Chunk.hasBlock_iff] at hca hda
    obtain ⟨hi', rfl⟩ := List.getElem?_eq_some_iff.mp hc
    obtain ⟨hj', rfl⟩ := List.getElem?_eq_some_iff.mp hd
    have hapart := List.pairwise_iff_getElem.mp h.pool.pairwise i j (by simpa using hi')
      (by simpa using hj') hlt
    simp only [List.getElem_map] at hapart
    exact hapart.not_contains hca hda
  rcases Nat.lt_trichotomy i j with hlt | heq | hgt
  · exact absurd hlt (key i j hi hj)
  · exact heq
  · exact absurd hgt (key j i hj hi)

/-- The linear search finds the chunk that has the byte. -/
theorem hasBlock_cases (f : FixedAllocator) (a : Nat) :
    (f.hasBlock a = none ∧ ∀ i, ¬ f.At a i) ∨
      ∃ i, f.hasBlock a = some (f.chunks.ptr i) ∧ f.At a i := by
  unfold hasBlock
  cases hi : f.chunks.items.findIdx? fun chunk => chunk.hasBlock a f.chunkLength with
  | none =>
    refine Or.inl ⟨rfl, ?_⟩
    rintro i ⟨c, hc, hca⟩
    have := List.findIdx?_eq_none_iff.mp hi c (List.mem_of_getElem? hc)
    rw [hca] at this
    cases this
  | some i =>
    obtain ⟨hlt, hca, -⟩ := List.findIdx?_eq_some_iff_getElem.mp hi
    exact Or.inr ⟨i, rfl, _, List.getElem?_eq_getElem hlt, hca⟩

/-- `lo`, when the chunks below `k` are still to be looked at. -/
def loCursor (v : Vec Chunk) (k : Nat) : Option Vec.Ptr :=
  if k = 0 then none else some (v.ptr (k - 1))

/-- `hi`, when the chunks from `h` on are still to be looked at. -/
def hiCursor (v : Vec Chunk) (h : Nat) : Option Vec.Ptr :=
  if h = v.size then none else some (v.ptr h)

/-- The look at a chunk decides whether it has the byte. -/
theorem at_cases {i : Nat} (hi : i < f.chunks.size) :
    ∃ c, f.deref (some (f.chunks.ptr i)) = .ok c ∧
      (f.At a i ↔ c.hasBlock a f.chunkLength = true) := by
  have hc : f.chunks.items[i]? = some f.chunks.items[i] := List.getElem?_eq_getElem hi
  refine ⟨f.chunks.items[i], deref_eq (by rw [Vec.get?_ptr, hc]), ?_, fun hca => ⟨_, hc, hca⟩⟩
  rintro ⟨c, hc', hca⟩
  rw [hc] at hc'
  cases hc'
  exact hca

/-- The look at `lo` finds the chunk, ends the search or moves `lo` down. -/
theorem lookLo_cases {k h : Nat} (hk : k ≤ f.chunks.size) (hgo : ¬ (k = 0 ∧ h = f.chunks.size)) :
    (∃ i, f.At a i ∧
      f.lookLo a (loCursor f.chunks k) (hiCursor f.chunks h) = .ok (.found (f.chunks.ptr i))) ∨
    (k = 1 ∧ h = f.chunks.size ∧ ¬ f.At a 0 ∧
      f.lookLo a (loCursor f.chunks k) (hiCursor f.chunks h) = .ok .stop) ∨
    (¬ (k - 1 = 0 ∧ h = f.chunks.size) ∧ (∀ i, f.At a i → i < k → i < k - 1) ∧
      f.lookLo a (loCursor f.chunks k) (hiCursor f.chunks h) =
        .ok (.goOn (loCursor f.chunks (k - 1)))) := by
  cases k with
  | zero => exact Or.inr (Or.inr ⟨hgo, fun i _ hi => absurd hi (Nat.not_lt_zero i), rfl⟩)
  | succ k =>
    obtain ⟨c, hc, hat⟩ := at_cases (a := a) hk
    have hlo : loCursor f.chunks (k + 1) = some (f.chunks.ptr k) := if_neg (Nat.succ_ne_zero k)
    by_cases hfound : f.At a k
    · refine Or.inl ⟨k, hfound, ?_⟩
      simp [lookLo, hlo, hc, hat.mp hfound]
    have hmiss : c.hasBlock a f.chunkLength = false :=
      Bool.eq_false_iff.mpr fun hca => hfound (hat.mpr hca)
    by_cases hlast : k = 0 ∧ h = f.chunks.size
    · obtain ⟨rfl, rfl⟩ := hlast
      refine Or.inr (Or.inl ⟨rfl, rfl, hfound, ?_⟩)
      simp [lookLo, hlo, hc, hmiss, Vec.front, hiCursor]
    · refine Or.inr (Or.inr ⟨hlast, fun i hi hlt => ?_, ?_⟩)
      · refine Nat.lt_of_le_of_ne (Nat.le_of_lt_succ hlt) ?_
        rintro rfl
        exact hfound hi
      · by_cases hk0 : k = 0
        · subst hk0
          have hh : h ≠ f.chunks.size := fun heq => hlast ⟨rfl, heq⟩
          simp [lookLo, hc, hmiss, Vec.front, hiCursor, loCursor, hh]
        · simp [lookLo, hc, hmiss, Vec.mk_buffer, Vec.front, hk0, loCursor]

/-- The look at `hi` finds the chunk, ends the search or moves `hi` up. -/
theorem lookHi_cases {k h : Nat} (hh : h ≤ f.chunks.size) (hgo : ¬ (k = 0 ∧ h = f.chunks.size)) :
    (∃ i, f.At a i ∧
      f.lookHi a (loCursor f.chunks k) (hiCursor f.chunks h) = .ok (.found (f.chunks.ptr i))) ∨
    (k = 0 ∧ (∀ i, f.At a i → ¬ h ≤ i) ∧
      f.lookHi a (loCursor f.chunks k) (hiCursor f.chunks h) = .ok .stop) ∨
    ∃ h', h' ≤ f.chunks.size ∧ f.chunks.size - h' ≤ f.chunks.size - h - 1 ∧
      ¬ (k = 0 ∧ h' = f.chunks.size) ∧ (∀ i, f.At a i → h ≤ i → h' ≤ i) ∧
      f.lookHi a (loCursor f.chunks k) (hiCursor f.chunks h) =
        .ok (.goOn (hiCursor f.chunks h')) := by
  by_cases hend : h = f.chunks.size
  · refine Or.inr (Or.inr ⟨h, hh, by omega, hgo, fun _ _ hi => hi, ?_⟩)
    simp [lookHi, hiCursor, hend]
  have hlt : h < f.chunks.size := Nat.lt_of_le_of_ne hh hend
  obtain ⟨c, hc, hat⟩ := at_cases (a := a) hlt
  have hhi : hiCursor f.chunks h = some (f.chunks.ptr h) := if_neg hend
  by_cases hfound : f.At a h
  · refine Or.inl ⟨h, hfound, ?_⟩
    simp [lookHi, hhi, hc, hat.mp hfound]
  have hmiss : c.hasBlock a f.chunkLength = false :=
    Bool.eq_false_iff.mpr fun hca => hfound (hat.mpr hca)
  have hnext : ∀ i, f.At a i → h ≤ i → h + 1 ≤ i := by
    intro i hi hle
    refine Nat.lt_of_le_of_ne hle ?_
    rintro rfl
    exact hfound hi
  by_cases hlast : k = 0 ∧ h + 1 = f.chunks.size
  · refine Or.inr (Or.inl ⟨hlast.1, fun i hi hle => ?_, ?_⟩)
    · have := hnext i hi hle
      exact absurd hi.lt (by omega)
    · simp [lookHi, hhi, hc, hmiss, Vec.mk_buffer, hlast.2, loCursor, hlast.1]
  · refine Or.inr (Or.inr ⟨h + 1, hlt, by omega, hlast, hnext, ?_⟩)
    by_cases hsize : h + 1 = f.chunks.size
    · have hk : k ≠ 0 := fun heq => hlast ⟨heq, hsize⟩
      have hhi' : hiCursor f.chunks f.chunks.size = none := if_pos rfl
      simp [lookHi, hhi, hc, hmiss, Vec.mk_buffer, hsize, hhi', loCursor, hk]
    · have hhi' : hiCursor f.chunks (h + 1) = some (f.chunks.ptr (h + 1)) := if_neg hsize
      simp [lookHi, hhi, hc, hmiss, hhi', Vec.mk_buffer, hsize]

/-- What the two cursors have passed has been looked at. Each round moves both of them, so
there are no more rounds than chunks to either side. -/
theorem vicinityLoop_spec (fuel : Nat) {k h : Nat} (hk : k ≤ f.chunks.size) (hh : h ≤ f.chunks.size)
    (hgo : ¬ (k = 0 ∧ h = f.chunks.size)) (hkf : k ≤ fuel) (hhf : f.chunks.size - h ≤ fuel)
    (hseen : ∀ i, f.At a i → i < k ∨ h ≤ i) :
    (∃ i, f.At a i ∧ f.vicinityLoop a fuel (loCursor f.chunks k) (hiCursor f.chunks h) =
      .ok (some (f.chunks.ptr i))) ∨
    ((∀ i, ¬ f.At a i) ∧
      f.vicinityLoop a fuel (loCursor f.chunks k) (hiCursor f.chunks h) = .ok none) := by
  induction fuel generalizing k h with
  | zero => exact absurd ⟨by omega, by omega⟩ hgo
  | succ fuel ih =>
    rcases lookLo_cases (a := a) hk hgo with
      ⟨i, hi, hlo⟩ | ⟨rfl, rfl, hnot, hlo⟩ | ⟨hgo', hdown, hlo⟩
    · exact Or.inl ⟨i, hi, by simp [vicinityLoop, hlo]⟩
    · refine Or.inr ⟨fun i hi => ?_, by simp [vicinityLoop, hlo]⟩
      have hlt := hi.lt
      obtain rfl : i = 0 := by
        have := hseen i hi
        omega
      exact hnot hi
    · rcases lookHi_cases (a := a) hh hgo' with
        ⟨i, hi, hhi⟩ | ⟨hk0, hnot, hhi⟩ | ⟨h', hh', hmove, hgo'', hup, hhi⟩
      · exact Or.inl ⟨i, hi, by simp [vicinityLoop, hlo, hhi]⟩
      · refine Or.inr ⟨fun i hi => ?_, by simp [vicinityLoop, hlo, hhi]⟩
        rcases hseen i hi with hlt | hle
        · have := hdown i hi hlt
          omega
        · exact hnot i hi hle
      · have hrest := ih (k := k - 1) (h := h') (by omega) hh' hgo'' (by omega) (by omega)
          fun i hi => (hseen i hi).imp (hdown i hi) (hup i hi)
        have hrun : f.vicinityLoop a (fuel + 1) (loCursor f.chunks k) (hiCursor f.chunks h) =
            f.vicinityLoop a fuel (loCursor f.chunks (k - 1)) (hiCursor f.chunks h') := by
          simp [vicinityLoop, hlo, hhi]
        rw [hrun]
        exact hrest

/-- **The search in both directions agrees with the search from the front**, for every
address and wherever `deallocChunk_` points to. -/
theorem Sound.vicinityFind_eq (h : f.Sound z m) (a : Nat) :
    f.vicinityFind a = .ok (f.hasBlock a) := by
  unfold vicinityFind
  by_cases hnil : f.chunks.items = []
  · rw [if_pos hnil]
    rcases f.hasBlock_cases a with ⟨hnone, -⟩ | ⟨i, -, hi⟩
    · rw [hnone]
      rfl
    · have := hi.lt
      rw [Vec.size, hnil] at this
      exact absurd this (Nat.not_lt_zero i)
  · rw [if_neg hnil]
    obtain ⟨d, hd, hholds⟩ := Vec.exists_of_holds h.deallocChunk hnil
    obtain ⟨k, hk, rfl⟩ := Vec.holds_iff.mp hholds
    have hstart := vicinityLoop_spec (f := f) (a := a) f.chunks.size (k := k + 1)
      (h := k + 1) hk hk (by omega) hk (by omega) fun i _ => by omega
    have hlo : loCursor f.chunks (k + 1) = some (f.chunks.ptr k) := if_neg (Nat.succ_ne_zero k)
    have hhi : hiCursor f.chunks (k + 1) =
        if f.chunks.ptr (k + 1) = f.chunks.ptr f.chunks.size then none
        else some (f.chunks.ptr (k + 1)) := by
      simp only [hiCursor, Vec.ptr_inj]
    rw [hlo, hhi] at hstart
    simp only [hd]
    rcases f.hasBlock_cases a with ⟨hnone, hnot⟩ | ⟨i, hsome, hi⟩
    · rw [hnone]
      rcases hstart with ⟨i, hi, -⟩ | ⟨-, hrun⟩
      · exact absurd hi (hnot i)
      · exact hrun
    · rw [hsome]
      rcases hstart with ⟨j, hj, hrun⟩ | ⟨hnot, -⟩
      · rw [h.at_unique hi hj]
        exact hrun
      · exact absurd hi (hnot i)

/-! ## Two empty chunks -/

/-- `deallocChunk_` has become empty while another chunk was. -/
structure TwoEmpty (z : Sizes) (f : FixedAllocator) (m : Bytes) (d e : Vec.Ptr) : Prop where
  blockSize : f.blockSize = z.blockSize
  numBlocks : f.numBlocks = z.numBlocks
  room : f.chunks.size ≤ f.chunks.capacity
  pool : Pool z m f.chunks.items
  allocChunk : f.chunks.Holds f.allocChunk
  deallocChunk : f.deallocChunk = some d
  emptyChunk : f.emptyChunk = some e
  ne : d ≠ e
  empty (q : Vec.Ptr) : (q = d ∨ q = e) ↔
    ∃ c, f.chunks.get? q = some c ∧ c.blocksAvailable = z.numBlocks

/-- The last chunk is empty, and the one `deallocChunk_` points to, and no other. -/
structure LastEmpty (z : Sizes) (f : FixedAllocator) (m : Bytes) (d : Vec.Ptr) : Prop where
  blockSize : f.blockSize = z.blockSize
  numBlocks : f.numBlocks = z.numBlocks
  room : f.chunks.size ≤ f.chunks.capacity
  pool : Pool z m f.chunks.items
  allocChunk : f.chunks.Holds f.allocChunk
  deallocChunk : f.deallocChunk = some d
  ne : d ≠ f.chunks.back
  last : ∃ c, f.chunks.get? f.chunks.back = some c ∧ c.blocksAvailable = z.numBlocks
  empty (q : Vec.Ptr) (hq : q ≠ f.chunks.back) : q = d ↔
    ∃ c, f.chunks.get? q = some c ∧ c.blocksAvailable = z.numBlocks

/-- Whichever of the two it is, an empty chunk is made the last. -/
theorem TwoEmpty.moveEmptyLast (h : TwoEmpty z f m d e) :
    (∃ d', LastEmpty z f.moveEmptyLast m d') ∧
      f.moveEmptyLast.chunks.items.Perm f.chunks.items := by
  obtain ⟨cd, hcd, hempd⟩ := (h.empty d).mp (Or.inl rfl)
  obtain ⟨ce, hce, hempe⟩ := (h.empty e).mp (Or.inr rfl)
  have hnil : f.chunks.items ≠ [] := List.ne_nil_of_mem (Vec.mem_of_get? hcd)
  by_cases hlast : f.chunks.back = d
  · -- `deallocChunk_` is the last
    have hmove : f.moveEmptyLast = { f with deallocChunk := f.emptyChunk } := by
      simp [FixedAllocator.moveEmptyLast, h.deallocChunk, hlast]
    rw [hmove]
    refine ⟨⟨e, h.blockSize, h.numBlocks, h.room, h.pool, h.allocChunk, h.emptyChunk, ?_,
      ⟨cd, hlast ▸ hcd, hempd⟩, fun q hq => ?_⟩, List.Perm.refl _⟩
    · exact fun heq => h.ne (hlast.symm.trans heq.symm)
    · rw [← h.empty q]
      exact ⟨Or.inr, fun hor => hor.resolve_left fun heq => hq (heq.trans hlast.symm)⟩
  · by_cases hlast' : f.chunks.back = e
    · -- `emptyChunk_` is
      have hmove : f.moveEmptyLast = f := by
        simp [FixedAllocator.moveEmptyLast, h.deallocChunk, h.emptyChunk, hlast', h.ne.symm]
      rw [hmove]
      refine ⟨⟨d, h.blockSize, h.numBlocks, h.room, h.pool, h.allocChunk, h.deallocChunk,
        fun heq => hlast heq.symm, ⟨ce, hlast' ▸ hce, hempe⟩, fun q hq => ?_⟩, List.Perm.refl _⟩
      rw [← h.empty q]
      exact ⟨Or.inl, fun hor => hor.resolve_right fun heq => hq (heq.trans hlast'.symm)⟩
    · -- neither is, and `emptyChunk_` is exchanged with the last
      obtain ⟨cl, hcl⟩ := Vec.exists_get?_of_holds (Vec.holds_back hnil)
      have hperm := Vec.swap_perm hce hcl hlast'
      have hmove : f.moveEmptyLast = { f with chunks := f.chunks.swap e f.chunks.back } := by
        simp [FixedAllocator.moveEmptyLast, h.deallocChunk, hlast, h.emptyChunk, hlast']
      rw [hmove]
      refine ⟨⟨d, h.blockSize, h.numBlocks, by simpa using h.room, h.pool.perm hperm.symm, ?_,
        h.deallocChunk, ?_, ⟨ce, ?_, hempe⟩, fun q hq => ?_⟩, hperm⟩
      · exact Vec.swap_holds.mpr h.allocChunk
      · rw [Vec.swap_back]
        exact fun heq => hlast heq.symm
      · rw [Vec.swap_back, Vec.get?_swap hce hcl, if_pos rfl]
      · rw [Vec.swap_back] at hq
        rw [Vec.get?_swap hce hcl, if_neg hq]
        by_cases hqe : q = e
        · -- what was the last chunk is not empty
          rw [if_pos hqe]
          refine iff_of_false (fun heq => h.ne (heq.symm.trans hqe)) ?_
          rintro ⟨c, hc, havail⟩
          obtain rfl := Option.some.inj hc
          rcases (h.empty f.chunks.back).mpr ⟨cl, hcl, havail⟩ with heq | heq
          · exact hlast heq
          · exact hlast' heq
        · rw [if_neg hqe, ← h.empty q]
          exact ⟨Or.inl, fun hor => hor.resolve_right hqe⟩

/-- The last chunk is released, and `deallocChunk_` points to the empty one. -/
theorem LastEmpty.releaseLast (h : LastEmpty z f m d) :
    ∃ f' m', f.releaseLast m = .ok (f', m') ∧
      Sound z { f' with emptyChunk := f'.deallocChunk } m' ∧ m'.byte = m.byte ∧
      ∀ q, Used z m' f'.chunks.items q ↔ Used z m f.chunks.items q := by
  obtain ⟨c, hc, hempty⟩ := h.last
  have hperm := Vec.popBack_perm hc
  have hnil : f.chunks.items ≠ [] := List.ne_nil_of_mem (Vec.mem_of_get? hc)
  obtain ⟨m', hrun, hpool, hbyte, hused⟩ := (h.pool.perm hperm).release hempty
  have hhas : c.hasAvailable f.numBlocks = true := by
    rw [h.numBlocks]
    exact Chunk.hasAvailable_iff.mpr hempty
  -- a pointer to another chunk than the last is still to one
  have hstay : ∀ p, p ≠ f.chunks.back → f.chunks.popBack.get? p = f.chunks.get? p := by
    intro p hp
    rw [Vec.get?_popBack hnil, if_neg hp]
  have hd : f.chunks.popBack.Holds (some d) := by
    obtain ⟨cd, hcd, -⟩ := (h.empty d h.ne).mp rfl
    exact Vec.holds_of_get? ((hstay d h.ne).trans hcd)
  have hsound : ∀ a, f.chunks.popBack.Holds a →
      Sound z { f with chunks := f.chunks.popBack, allocChunk := a,
                       emptyChunk := f.deallocChunk } m' := by
    intro a ha
    refine ⟨h.blockSize, h.numBlocks, ?_, hpool, ha, ?_, fun q => ?_⟩
    · rw [Vec.popBack_size]
      exact Nat.le_trans (Nat.sub_le ..) h.room
    · show f.chunks.popBack.Holds f.deallocChunk
      rw [h.deallocChunk]
      exact hd
    · show f.deallocChunk = some q ↔ _
      rw [h.deallocChunk, Vec.get?_popBack hnil]
      by_cases hq : q = f.chunks.back
      · rw [if_pos hq]
        refine iff_of_false (fun heq => h.ne ((Option.some.inj heq).trans hq)) ?_
        rintro ⟨c, hc, -⟩
        cases hc
      · rw [if_neg hq, ← h.empty q hq]
        exact ⟨fun heq => (Option.some.inj heq).symm, fun heq => congrArg some heq.symm⟩
  have hdealloc : f.chunks.popBack.Holds f.deallocChunk := by
    rw [h.deallocChunk]
    exact hd
  have hcount : ∀ q, Used z m' f.chunks.popBack.items q ↔ Used z m f.chunks.items q := fun q => by
    rw [hused, Used.perm hperm]
  obtain ⟨p, hp, hholds⟩ := Vec.exists_of_holds h.allocChunk hnil
  by_cases hlast : p = f.chunks.back
  · refine ⟨{ f with chunks := f.chunks.popBack, allocChunk := f.deallocChunk }, m', ?_,
      hsound _ hdealloc, hbyte, hcount⟩
    simp [FixedAllocator.releaseLast, deref, hc, Chunk.assert_of hhas, hrun, hp, hlast]
  · obtain ⟨ca, hca⟩ := Vec.exists_get?_of_holds hholds
    have hca' := (hstay p hlast).trans hca
    by_cases hfilled : ca.isFilled = true
    · refine ⟨{ f with chunks := f.chunks.popBack, allocChunk := f.deallocChunk }, m', ?_,
        hsound _ hdealloc, hbyte, hcount⟩
      simp [FixedAllocator.releaseLast, deref, hc, Chunk.assert_of hhas, hrun, hp, hlast,
        hca', hfilled]
    · refine ⟨{ f with chunks := f.chunks.popBack }, m', ?_, hsound f.allocChunk ?_, hbyte, hcount⟩
      · simp [FixedAllocator.releaseLast, deref, hc, Chunk.assert_of hhas, hrun, hp, hlast,
          hca', hfilled]
      · rw [hp]
        exact Vec.holds_of_get? hca'

/-! ## `DoDeallocate` and `Deallocate` -/

/-- The block is back in the chunk `deallocChunk_` points to, which may have become empty. -/
structure PutBack (z : Sizes) (f : FixedAllocator) (m : Bytes) (d : Vec.Ptr) : Prop where
  blockSize : f.blockSize = z.blockSize
  numBlocks : f.numBlocks = z.numBlocks
  room : f.chunks.size ≤ f.chunks.capacity
  pool : Pool z m f.chunks.items
  allocChunk : f.chunks.Holds f.allocChunk
  deallocChunk : f.deallocChunk = some d
  holds : f.chunks.Holds (some d)
  emptyChunk (q : Vec.Ptr) : f.emptyChunk = some q ↔
    q ≠ d ∧ ∃ c, f.chunks.get? q = some c ∧ c.blocksAvailable = z.numBlocks

/-- The invariants hold again, with at most one empty chunk. -/
theorem PutBack.updateEmptyChunk (h : PutBack z f m d) :
    ∃ f' m', f.updateEmptyChunk m = .ok (f', m') ∧ f'.Sound z m' ∧ m'.byte = m.byte ∧
      ∀ q, Used z m' f'.chunks.items q ↔ Used z m f.chunks.items q := by
  obtain ⟨c, hc⟩ := Vec.exists_get?_of_holds h.holds
  have hne : f.emptyChunk ≠ f.deallocChunk := by
    rw [h.deallocChunk]
    exact fun he => ((h.emptyChunk d).mp he).1 rfl
  have hdealloc : f.chunks.Holds f.deallocChunk := by
    rw [h.deallocChunk]
    exact h.holds
  have hderef : f.deref f.deallocChunk = .ok c := by rw [h.deallocChunk, deref_eq hc]
  by_cases hempty : c.blocksAvailable = z.numBlocks
  · have hhas : c.hasAvailable f.numBlocks = true := by
      rw [h.numBlocks, Chunk.hasAvailable_iff]
      exact hempty
    cases he : f.emptyChunk with
    | none =>
      -- it is the only one
      have hnone : ¬ none ≠ f.emptyChunk := by
        rw [he]
        exact not_not.mpr rfl
      refine ⟨{ f with emptyChunk := f.deallocChunk }, m, ?_, ?_, rfl, fun _ => Iff.rfl⟩
      · simp only [FixedAllocator.updateEmptyChunk, hderef, ok_bind, if_pos hhas,
          Chunk.assert_of hne, if_neg hnone]
        rfl
      · refine ⟨h.blockSize, h.numBlocks, h.room, h.pool, h.allocChunk, hdealloc, fun q => ?_⟩
        show f.deallocChunk = some q ↔ _
        rw [h.deallocChunk]
        constructor
        · intro heq
          cases heq
          exact ⟨c, hc, hempty⟩
        · intro hq
          by_contra hqd
          have hq' := (h.emptyChunk q).mpr ⟨fun heq => hqd (congrArg some heq.symm), hq⟩
          rw [he] at hq'
          cases hq'
    | some e =>
      have hsome : none ≠ f.emptyChunk := by
        rw [he]
        exact (Option.some_ne_none e).symm
      obtain ⟨hed, hce⟩ := (h.emptyChunk e).mp he
      have htwo : TwoEmpty z f m d e := by
        refine ⟨h.blockSize, h.numBlocks, h.room, h.pool, h.allocChunk, h.deallocChunk, he,
          Ne.symm hed, fun q => ?_⟩
        constructor
        · rintro (rfl | rfl)
          · exact ⟨c, hc, hempty⟩
          · exact hce
        · intro hq
          by_cases hqd : q = d
          · exact Or.inl hqd
          · have hq' := (h.emptyChunk q).mpr ⟨hqd, hq⟩
            rw [he] at hq'
            exact Or.inr (Option.some.inj hq').symm
      obtain ⟨⟨d', hlast⟩, hperm⟩ := htwo.moveEmptyLast
      obtain ⟨f', m', hrun, hsound, hbyte, hused⟩ := hlast.releaseLast
      refine ⟨{ f' with emptyChunk := f'.deallocChunk }, m', ?_, hsound, hbyte, fun q => ?_⟩
      · simp only [FixedAllocator.updateEmptyChunk, hderef, ok_bind, if_pos hhas,
          Chunk.assert_of hne, if_pos hsome, hrun]
        rfl
      · rw [← Used.perm hperm]
        exact hused q
  · have hhas : ¬ c.hasAvailable f.numBlocks = true := by
      rw [h.numBlocks, Chunk.hasAvailable_iff]
      exact hempty
    refine ⟨f, m, ?_, ?_, rfl, fun _ => Iff.rfl⟩
    · simp only [FixedAllocator.updateEmptyChunk, hderef, ok_bind, if_neg hhas]
      rfl
    · refine ⟨h.blockSize, h.numBlocks, h.room, h.pool, h.allocChunk, hdealloc, fun q => ?_⟩
      rw [h.emptyChunk]
      refine and_iff_right_of_imp ?_
      rintro ⟨c', hc', havail⟩ rfl
      rw [hc] at hc'
      cases hc'
      exact hempty havail

/-- `DoDeallocate` puts a used block back into the chunk it is in, and writes its first
byte. -/
theorem Sound.doDeallocate (h : f.Sound z m) (hd : f.chunks.get? d = some c)
    (hdealloc : f.deallocChunk = some d) (ha : c.Uses z m a) :
    ∃ f' m', f.doDeallocate a m = .ok (f', m') ∧ f'.Sound z m' ∧
      (∀ q, Used z m' f'.chunks.items q ↔ q ≠ a ∧ Used z m f.chunks.items q) ∧
      ∀ b, b ≠ a → m'.byte b = m.byte b := by
  have hholds := Vec.holds_of_get? hd
  obtain ⟨rest, hperm, -⟩ := Vec.set_perm hd c
  have hc := h.pool.sound (Vec.mem_of_get? hd)
  obtain ⟨c', v, hrun, hpool, -, hused⟩ := (h.pool.perm hperm).deallocate ha
  obtain ⟨rest', hperm₀, hperm'⟩ := Vec.set_perm hd c'
  have hrest : rest'.Perm rest := (List.perm_cons c).mp (hperm₀.symm.trans hperm)
  have hset : (f.chunks.set d c').items.Perm (c' :: rest) := hperm'.trans (hrest.cons c')
  -- the chunk was not empty
  have hlt : c.blocksAvailable ≠ z.numBlocks := by
    obtain ⟨i, hi, hnot, -⟩ := ha
    exact UInt8.ne_of_lt (hc.blocksAvailable_lt hi hnot)
  have hne : f.emptyChunk ≠ some d := by
    intro he
    obtain ⟨c₁, hc₁, havail⟩ := (h.emptyChunk d).mp he
    rw [hd] at hc₁
    cases hc₁
    exact hlt havail
  have hback : PutBack z (f.assign f.deallocChunk c') (m.poke a v) d := by
    rw [hdealloc]
    refine ⟨h.blockSize, h.numBlocks, by simpa [assign] using h.room, hpool.perm hset.symm,
      Vec.set_holds.mpr h.allocChunk, hdealloc, Vec.set_holds.mpr hholds, fun q => ?_⟩
    show f.emptyChunk = some q ↔ q ≠ d ∧ ∃ c, (f.chunks.set d c').get? q = some c ∧ _
    rw [h.emptyChunk, Vec.get?_set hholds]
    by_cases hq : q = d
    · rw [if_pos hq]
      refine iff_of_false (fun hempty => hne ?_) fun hdq => hdq.1 hq
      rw [← hq]
      exact (h.emptyChunk q).mpr hempty
    · rw [if_neg hq]
      exact (and_iff_right hq).symm
  obtain ⟨f', m', hupdate, hsound, hbyte, hused'⟩ := hback.updateEmptyChunk
  refine ⟨f', m', ?_, hsound, fun q => ?_, fun b hb => ?_⟩
  · have hhas : c.hasBlock a f.chunkLength = true := by
      rw [h.chunkLength, Chunk.hasBlock_iff]
      exact ha.contains
    have hnot : ¬ c.hasAvailable f.numBlocks = true := by
      rw [h.numBlocks, Chunk.hasAvailable_iff]
      exact hlt
    have hbefore := assertEmptyChunk_eq h.numBlocks fun p hp => (h.emptyChunk p).mp hp
    have hafter := assertEmptyChunk_eq hsound.numBlocks fun p hp => (hsound.emptyChunk p).mp hp
    rw [← h.blockSize] at hrun
    rw [hdealloc] at hupdate
    simp only [FixedAllocator.doDeallocate, hdealloc, deref_eq hd, ok_bind, Chunk.assert_of hhas,
      Chunk.assert_of hne, Chunk.assert_of hnot, hbefore, hrun, hupdate, hafter]
    rfl
  · have hassign : (f.assign f.deallocChunk c').chunks = f.chunks.set d c' := by
      rw [hdealloc]
      rfl
    rw [hused', hassign, Used.perm hset, hused, Used.perm hperm]
  · rw [hbyte]
    exact if_neg hb

/-- A pointer that holds is between those to the first and the last chunk. -/
theorem position_of_holds (h : f.chunks.Holds (some p)) :
    ∃ i : Nat, i < f.chunks.size ∧ f.position (some p) = .ok (i : Int) := by
  obtain ⟨i, hi, rfl⟩ := Vec.holds_iff.mp h
  exact ⟨i, hi, if_pos rfl⟩

theorem position_front : f.position (some f.chunks.front) = .ok ((0 : Nat) : Int) := if_pos rfl

theorem position_back : f.position (some f.chunks.back) = .ok ((f.chunks.size - 1 : Nat) : Int) :=
  if_pos rfl

theorem Sound.assertPointers (h : f.Sound z m) (hnil : f.chunks.items ≠ []) :
    f.assertPointers = .ok () := by
  obtain ⟨d, hd, hdholds⟩ := Vec.exists_of_holds h.deallocChunk hnil
  obtain ⟨p, hp, hpholds⟩ := Vec.exists_of_holds h.allocChunk hnil
  obtain ⟨i, hi, hdpos⟩ := position_of_holds hdholds
  obtain ⟨j, hj, hppos⟩ := position_of_holds hpholds
  have hlow : ∀ i : Nat, ((0 : Nat) : Int) ≤ i := fun i => Int.ofNat_le.mpr (Nat.zero_le i)
  have hhigh : ∀ i : Nat, i < f.chunks.size → ((f.chunks.size - 1 : Nat) : Int) ≥ i :=
    fun i hi => Int.ofNat_le.mpr (Nat.le_sub_one_of_lt hi)
  simp only [FixedAllocator.assertPointers, hd, hp, position_front, position_back, hdpos, hppos,
    ok_bind, Chunk.assert_of hnil, Chunk.assert_of (hlow i), Chunk.assert_of (hlow j),
    Chunk.assert_of (hhigh i hi), Chunk.assert_of (hhigh j hj),
    Chunk.assert_of countEmptyChunks_lt]

/-- A used block is in a chunk, which both searches find. -/
theorem Sound.exists_of_used (h : f.Sound z m) (ha : Used z m f.chunks.items a) :
    ∃ p c, f.hasBlock a = some p ∧ f.chunks.get? p = some c ∧ c.Uses z m a := by
  obtain ⟨c, hc, hu⟩ := ha
  obtain ⟨i, hi, hget⟩ := Vec.exists_get?_of_mem hc
  rw [Vec.get?_ptr] at hget
  have hat : f.At a i := by
    refine ⟨c, hget, ?_⟩
    rw [h.chunkLength, Chunk.hasBlock_iff]
    exact hu.contains
  rcases f.hasBlock_cases a with ⟨-, hnot⟩ | ⟨j, hj, hat'⟩
  · exact absurd hat (hnot i)
  · rw [h.at_unique hat' hat] at hj
    exact ⟨f.chunks.ptr i, c, hj, by rw [Vec.get?_ptr, hget], hu⟩

/-- **`Deallocate` of a used block**, without a hint or with the chunk `HasBlock` finds: the
block is used no longer, the invariants hold, and no byte but the block's first has
changed. -/
theorem Sound.deallocate (h : f.Sound z m) (ha : Used z m f.chunks.items a)
    {hint : Option Vec.Ptr} (hhint : hint = none ∨ hint = f.hasBlock a) :
    ∃ f' m', f.deallocate a hint m = .ok (true, f', m') ∧ f'.Sound z m' ∧
      (∀ q, Used z m' f'.chunks.items q ↔ q ≠ a ∧ Used z m f.chunks.items q) ∧
      ∀ b, b ≠ a → m'.byte b = m.byte b := by
  obtain ⟨p, c, hp, hc, hu⟩ := h.exists_of_used ha
  have hnil : f.chunks.items ≠ [] := List.ne_nil_of_mem (Vec.mem_of_get? hc)
  have hfound : f.foundChunk a hint = .ok (some p) := by
    rcases hhint with rfl | rfl
    · exact (h.vicinityFind_eq a).trans (congrArg Except.ok hp)
    · rw [hp]
      rfl
  have hsound : Sound z { f with deallocChunk := some p } m :=
    ⟨h.blockSize, h.numBlocks, h.room, h.pool, h.allocChunk, Vec.holds_of_get? hc, h.emptyChunk⟩
  obtain ⟨f', m', hrun, hsound', hused, hbyte⟩ := hsound.doDeallocate hc rfl hu
  refine ⟨f', m', ?_, hsound', hused, hbyte⟩
  have hhas : c.hasBlock a f.chunkLength = true := by
    rw [h.chunkLength, Chunk.hasBlock_iff]
    exact hu.contains
  simp only [FixedAllocator.deallocate, h.assertPointers hnil, hfound, deref_eq hc, ok_bind,
    Chunk.assert_of hhas, hrun, Chunk.assert_of countEmptyChunks_lt]
  rfl

/-- `Deallocate` of an address in no chunk does nothing. -/
theorem Sound.deallocate_foreign (h : f.Sound z m) (hnil : f.chunks.items ≠ [])
    (ha : ∀ i, ¬ f.At a i) : f.deallocate a none m = .ok (false, f, m) := by
  have hfound : f.foundChunk a none = .ok none := by
    rcases f.hasBlock_cases a with ⟨hnone, -⟩ | ⟨i, -, hi⟩
    · exact (h.vicinityFind_eq a).trans (congrArg Except.ok hnone)
    · exact absurd hi (ha i)
  simp only [FixedAllocator.deallocate, h.assertPointers hnil, hfound, ok_bind]
  rfl

/-! ## Lost pointers -/

theorem position_of_not_holds (hnil : f.chunks.items ≠ []) {o : Option Vec.Ptr}
    (ho : ¬ f.chunks.Holds o) : (∃ x, f.position o = .error x) ∨
      ∃ k : Int, f.position o = .ok k ∧
        ¬ (((0 : Nat) : Int) ≤ k ∧ ((f.chunks.size - 1 : Nat) : Int) ≥ k) := by
  cases o with
  | none => exact Or.inr ⟨-1, rfl, by omega⟩
  | some p =>
    by_cases hb : p.buffer = f.chunks.buffer
    · refine Or.inr ⟨p.index, if_pos hb, fun hk => ho ⟨hb, ?_⟩⟩
      have hpos : 0 < f.chunks.size := List.length_pos_of_ne_nil hnil
      omega
    · exact Or.inl ⟨_, if_neg hb⟩

/-- The two assertions about a pointer, and what comes after them. -/
theorem assert_position_fails (hnil : f.chunks.items ≠ []) {o : Option Vec.Ptr}
    (ho : ¬ f.chunks.Holds o) (rest : Except Fault Unit) : ∃ x, (do
      assert (((0 : Nat) : Int) ≤ (← f.position o))
      assert (((f.chunks.size - 1 : Nat) : Int) ≥ (← f.position o))
      rest) = .error x := by
  rcases position_of_not_holds hnil ho with ⟨x, hx⟩ | ⟨k, hk, hnot⟩
  · exact ⟨x, by simp only [hx, error_bind]⟩
  · refine ⟨.assertion, ?_⟩
    simp only [hk, ok_bind]
    by_cases hlow : ((0 : Nat) : Int) ≤ k
    · have hhigh : ¬ ((f.chunks.size - 1 : Nat) : Int) ≥ k := fun h => hnot ⟨hlow, h⟩
      simp only [assert, if_pos hlow, if_neg hhigh, ok_bind, error_bind]
    · simp only [assert, if_neg hlow, error_bind]

/-- A byte of no chunk is outside. -/
theorem Sound.outside_of_hasBlock (h : f.Sound z m) (ha : f.hasBlock a = none) :
    Outside z m f.chunks.items a := by
  intro c hc i hi hia
  have hin := Chunk.extent_contains_of_block ((h.pool.free c hc).mem i hi) hia
  rcases f.hasBlock_cases a with ⟨-, hnot⟩ | ⟨j, hj, -⟩
  · obtain ⟨j, -, hget⟩ := Vec.exists_get?_of_mem hc
    rw [Vec.get?_ptr] at hget
    refine hnot j ⟨c, hget, ?_⟩
    rw [h.chunkLength, Chunk.hasBlock_iff]
    exact hin
  · rw [ha] at hj
    cases hj

/-- A write outside of the free blocks keeps the invariants. -/
theorem Sound.poke (h : f.Sound z m) (ha : Outside z m f.chunks.items a) (v : UInt8) :
    f.Sound z (m.poke a v) ∧
      ∀ q, Used z (m.poke a v) f.chunks.items q ↔ Used z m f.chunks.items q := by
  obtain ⟨hpool, hused⟩ := h.pool.poke ha v
  exact ⟨⟨h.blockSize, h.numBlocks, h.room, hpool, h.allocChunk, h.deallocChunk, h.emptyChunk⟩,
    hused⟩

/-- Once a pointer is lost, every `Deallocate` fails. -/
theorem Lost.deallocate (h : f.Lost) (a : Nat) (hint : Option Vec.Ptr) (m : Bytes) :
    ∃ x, f.deallocate a hint m = .error x := by
  obtain ⟨hnil, hnot⟩ := h
  have hpointers : ∃ x, f.assertPointers = .error x := by
    by_cases hd : f.chunks.Holds f.deallocChunk
    · have ha : ¬ f.chunks.Holds f.allocChunk := fun ha => hnot ⟨ha, hd⟩
      obtain ⟨d, heq, hdholds⟩ := Vec.exists_of_holds hd hnil
      obtain ⟨i, hi, hpos⟩ := position_of_holds hdholds
      have hlow : ((0 : Nat) : Int) ≤ i := Int.ofNat_le.mpr (Nat.zero_le i)
      have hhigh : ((f.chunks.size - 1 : Nat) : Int) ≥ i :=
        Int.ofNat_le.mpr (Nat.le_sub_one_of_lt hi)
      obtain ⟨x, hx⟩ := assert_position_fails hnil ha (assert (f.countEmptyChunks < 2))
      refine ⟨x, ?_⟩
      rw [← hx]
      simp only [FixedAllocator.assertPointers, heq, position_front, position_back, hpos, ok_bind,
        Chunk.assert_of hnil, Chunk.assert_of hlow, Chunk.assert_of hhigh]
    · obtain ⟨x, hx⟩ := assert_position_fails hnil hd (do
        assert (((0 : Nat) : Int) ≤ (← f.position f.allocChunk))
        assert (((f.chunks.size - 1 : Nat) : Int) ≥ (← f.position f.allocChunk))
        assert (f.countEmptyChunks < 2))
      refine ⟨x, ?_⟩
      rw [← hx]
      simp only [FixedAllocator.assertPointers, position_front, position_back, ok_bind,
        Chunk.assert_of hnil]
  obtain ⟨x, hx⟩ := hpointers
  exact ⟨x, by simp only [FixedAllocator.deallocate, hx, error_bind]⟩

end FixedAllocator

end BstGenerator.SmallObj
