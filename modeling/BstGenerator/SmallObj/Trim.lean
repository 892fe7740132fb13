import BstGenerator.SmallObj.Allocate

/-!
# Giving memory back

`TrimEmptyChunk` releases the empty chunk, `TrimChunkList` the room the vector has for more
chunks, and the destructor all chunks. None of them touches a used block. The first two can
break the class level invariants, each in one situation:

- `FixedAllocator.LosesLast`: the last chunk takes the place of the empty one, and a pointer
  to it stays where it was.
- `FixedAllocator.LosesBuffer`: the vector moves, and all pointers stay where they were.
-/

namespace BstGenerator.SmallObj

open Memory Machine

variable {z : Sizes} {m m' : Bytes} {f f' : FixedAllocator} {p q e : Vec.Ptr} {c : Chunk}

namespace FixedAllocator

/-- The last chunk is moved, and `allocChunk_` or `deallocChunk_` points to it. -/
def LosesLast (f : FixedAllocator) : Prop :=
  ∃ e, f.emptyChunk = some e ∧ e ≠ f.chunks.back ∧
    (f.allocChunk = some f.chunks.back ∨ f.deallocChunk = some f.chunks.back)

/-- The vector has chunks, and room for more. -/
def LosesBuffer (f : FixedAllocator) : Prop :=
  f.chunks.items ≠ [] ∧ f.chunks.size ≠ f.chunks.capacity

/-- The empty chunk is brought to the end of the vector. -/
theorem Sound.emptyLast (h : f.Sound z m) (he : f.emptyChunk = some e) :
    ∃ v : Vec Chunk, f.bringLast e = { f with chunks := v } ∧
      v.items.Perm f.chunks.items ∧ v.back = f.chunks.back ∧ v.size = f.chunks.size ∧
      v.capacity = f.chunks.capacity ∧ (∀ o, v.Holds o ↔ f.chunks.Holds o) ∧
      (∃ c, v.get? v.back = some c ∧ c.blocksAvailable = z.numBlocks) ∧
      ∀ q c, q ≠ v.back → v.get? q = some c → c.blocksAvailable ≠ z.numBlocks := by
  obtain ⟨ce, hce, hempty⟩ := (h.emptyChunk e).mp he
  have honly : ∀ q c, q ≠ e → f.chunks.get? q = some c → c.blocksAvailable ≠ z.numBlocks :=
    fun q c hq hc => h.not_empty hc fun heq => hq (Option.some.inj (heq.symm.trans he))
  by_cases hlast : f.chunks.back = e
  · refine ⟨f.chunks, if_neg (not_not.mpr hlast), List.Perm.refl _, rfl, rfl, rfl,
      fun _ => Iff.rfl, ⟨ce, hlast ▸ hce, hempty⟩, fun q c hq hc => ?_⟩
    exact honly q c (fun heq => hq (heq.trans hlast.symm)) hc
  · have hnil : f.chunks.items ≠ [] := List.ne_nil_of_mem (Vec.mem_of_get? hce)
    obtain ⟨cl, hcl⟩ := Vec.exists_get?_of_holds (Vec.holds_back hnil)
    refine ⟨f.chunks.swap e f.chunks.back, if_pos hlast, Vec.swap_perm hce hcl hlast,
      Vec.swap_back, Vec.swap_size, Vec.swap_capacity, fun _ => Vec.swap_holds,
      ⟨ce, ?_, hempty⟩, fun q c hq hc => ?_⟩
    · rw [Vec.swap_back, Vec.get?_swap hce hcl, if_pos rfl]
    · rw [Vec.swap_back] at hq
      rw [Vec.get?_swap hce hcl, if_neg hq] at hc
      by_cases hqe : q = e
      · rw [if_pos hqe] at hc
        cases hc
        exact honly f.chunks.back cl hlast hcl
      · rw [if_neg hqe] at hc
        exact honly q c hqe hc

/-- What `redirect` makes of a pointer, where no chunk is empty. -/
theorem redirect_eq {target : Vec.Ptr} (hn : f.numBlocks = z.numBlocks)
    (hpool : Pool z m f.chunks.items) (ht : f.chunks.Holds (some target))
    (huse : ∀ q c, f.chunks.get? q = some c → c.blocksAvailable ≠ z.numBlocks)
    (o : Option Vec.Ptr) :
    f.redirect e target o = .ok (if o = some e then some target else o) := by
  unfold redirect
  by_cases ho : o = some e
  · obtain ⟨c, hc⟩ := Vec.exists_get?_of_holds ht
    have hle := (hpool.sound (Vec.mem_of_get? hc)).length_le
    rw [Chunk.length_freeBlocks] at hle
    have hlt : c.blocksAvailable < f.numBlocks := by
      rw [hn]
      exact UInt8.lt_of_le_of_ne (UInt8.le_iff_toNat_le.mpr hle) (huse target c hc)
    rw [if_pos ho, if_pos ho]
    simp only [assertInUse, deref_eq hc, ok_bind, Chunk.assert_of hlt]
    rfl
  · rw [if_neg ho, if_neg ho]
    rfl

/-- A pointer that held holds after the last chunk is gone, unless it was to that one and is
not redirected. -/
theorem holds_redirect {v : Vec Chunk} {o : Option Vec.Ptr} {target : Vec.Ptr}
    (hne : v.popBack.items ≠ []) (ho : v.Holds o) (ht : v.popBack.Holds (some target)) :
    v.popBack.Holds (if o = some e then some target else o) ↔
      ¬ (e ≠ v.back ∧ o = some v.back) := by
  have hnil : v.items ≠ [] := fun heq => hne (by rw [Vec.popBack, heq]; rfl)
  by_cases hoe : o = some e
  · rw [if_pos hoe]
    exact iff_of_true ht fun hl => hl.1 (Option.some.inj (hoe.symm.trans hl.2))
  · rw [if_neg hoe]
    obtain ⟨p, rfl, hp⟩ := Vec.exists_of_holds ho hnil
    rw [Vec.holds_iff_get?, Vec.get?_popBack hnil]
    by_cases hlast : p = v.back
    · rw [if_pos hlast]
      refine iff_of_false ?_ fun hl => hl ⟨?_, congrArg some hlast⟩
      · rintro ⟨c, hc⟩
        cases hc
      · rintro rfl
        exact hoe (congrArg some hlast)
    · rw [if_neg hlast]
      exact iff_of_true (Vec.exists_get?_of_holds hp) fun hl => hlast (Option.some.inj hl.2)

/-- The end of `TrimEmptyChunk`, when the vector `v`, in which the empty chunk was brought to
the end, has lost that chunk. -/
theorem Sound.forgetEmptyChunk (h : f.Sound z m) (he : f.emptyChunk = some e) {v : Vec Chunk}
    (hback : v.back = f.chunks.back) (hsize : v.size = f.chunks.size)
    (hcap : v.capacity = f.chunks.capacity) (hholds : ∀ o, v.Holds o ↔ f.chunks.Holds o)
    (hpool : Pool z m' v.popBack.items)
    (hinuse : ∀ q c, v.popBack.get? q = some c → c.blocksAvailable ≠ z.numBlocks) :
    ∃ f', ({ f with chunks := v.popBack } : FixedAllocator).forgetEmptyChunk e = .ok f' ∧
      f'.chunks = v.popBack ∧ f'.emptyChunk = none ∧
      (¬ f.LosesLast → f'.Sound z m') ∧ (f.LosesLast → f'.Lost) := by
  have hroom : v.popBack.size ≤ v.popBack.capacity := by
    have := h.room
    rw [Vec.popBack_size]
    show v.size - 1 ≤ v.capacity
    omega
  have hnone : ∀ p, none = some p ↔
      ∃ c, v.popBack.get? p = some c ∧ c.blocksAvailable = z.numBlocks := by
    intro p
    refine iff_of_false nofun ?_
    rintro ⟨c, hc, havail⟩
    exact hinuse p c hc havail
  by_cases hlast : v.popBack.items = []
  · -- there was no other chunk
    refine ⟨{ f with chunks := v.popBack, allocChunk := none, deallocChunk := none,
                     emptyChunk := none }, ?_, rfl, rfl,
      fun _ => ⟨h.blockSize, h.numBlocks, hroom, hpool, hlast, hlast, hnone⟩, ?_⟩
    · simp only [FixedAllocator.forgetEmptyChunk, if_pos hlast]
      rfl
    · rintro ⟨e', he', hne, -⟩
      obtain rfl := Option.some.inj (he.symm.trans he')
      have hone : f.chunks.size ≤ 1 := by
        have hpsize := Vec.popBack_size (v := v)
        rw [Vec.size, hlast, hsize] at hpsize
        simp only [List.length_nil] at hpsize
        omega
      obtain ⟨i, hi, rfl⟩ := Vec.holds_iff.mp
        (Vec.holds_iff_get?.mpr (((h.emptyChunk e).mp he).imp fun _ h => h.1))
      refine absurd ?_ hne
      rw [Vec.back, Vec.ptr_inj]
      omega
  · have hfront := redirect_eq (f := { f with chunks := v.popBack }) (e := e) h.numBlocks hpool
      (Vec.holds_front hlast) hinuse f.deallocChunk
    have hbackptr := redirect_eq (f := { f with chunks := v.popBack }) (e := e) h.numBlocks hpool
      (Vec.holds_back hlast) hinuse f.allocChunk
    have hdealloc := holds_redirect (e := e) hlast ((hholds _).mpr h.deallocChunk)
      (Vec.holds_front hlast)
    have halloc := holds_redirect (e := e) hlast ((hholds _).mpr h.allocChunk)
      (Vec.holds_back hlast)
    rw [hback] at hdealloc halloc
    refine ⟨{ f with
      chunks := v.popBack
      allocChunk := if f.allocChunk = some e then some v.popBack.back else f.allocChunk
      deallocChunk := if f.deallocChunk = some e then some v.popBack.front else f.deallocChunk
      emptyChunk := none }, ?_, rfl, rfl, ?_, ?_⟩
    · simp only [FixedAllocator.forgetEmptyChunk, if_neg hlast, hfront, hbackptr, ok_bind]
      rfl
    · intro hkeeps
      exact ⟨h.blockSize, h.numBlocks, hroom, hpool,
        halloc.mpr fun hl => hkeeps ⟨e, he, hl.1, Or.inl hl.2⟩,
        hdealloc.mpr fun hl => hkeeps ⟨e, he, hl.1, Or.inr hl.2⟩, hnone⟩
    · rintro ⟨e', he', hne, hor⟩
      obtain rfl := Option.some.inj (he.symm.trans he')
      refine ⟨hlast, fun hboth => ?_⟩
      rcases hor with ha | hd
      · exact halloc.mp hboth.1 ⟨hne, ha⟩
      · exact hdealloc.mp hboth.2 ⟨hne, hd⟩

/-- **`TrimEmptyChunk`** releases the empty chunk if there is one. No block that is used is
lost and no byte is written. The invariants hold, but a pointer is lost if the last chunk is
moved and the pointer is to it. -/
theorem Sound.trimEmptyChunk (h : f.Sound z m) :
    ∃ r f' m', f.trimEmptyChunk m = .ok (r, f', m') ∧ (r = true ↔ f.emptyChunk ≠ none) ∧
      Pool z m' f'.chunks.items ∧ (∀ c ∈ f'.chunks.items, c.blocksAvailable ≠ z.numBlocks) ∧
      (∀ q, Used z m' f'.chunks.items q ↔ Used z m f.chunks.items q) ∧ m'.byte = m.byte ∧
      (¬ f.LosesLast → f'.Sound z m') ∧ (f.LosesLast → f'.Lost) := by
  have hbefore := assertEmptyChunk_eq h.numBlocks fun p hp => (h.emptyChunk p).mp hp
  cases he : f.emptyChunk with
  | none =>
    refine ⟨false, f, m, ?_, by simp, h.pool, fun c hc => h.not_empty_of_none he hc,
      fun _ => Iff.rfl, rfl, fun _ => h, ?_⟩
    · simp only [FixedAllocator.trimEmptyChunk, hbefore, he, ok_bind]
      rfl
    · rintro ⟨e, he', -⟩
      rw [he] at he'
      cases he'
  | some e =>
    obtain ⟨v, hmove, hperm, hback, hsize, hcap, hholds, ⟨c, hc, hempty⟩, huse⟩ := h.emptyLast he
    have hpop := Vec.popBack_perm hc
    have hvnil : v.items ≠ [] := List.ne_nil_of_mem (Vec.mem_of_get? hc)
    have hnil : f.chunks.items ≠ [] := fun heq => hvnil (List.perm_nil.mp (heq ▸ hperm))
    obtain ⟨m', hrun, hpool, hbyte, hused⟩ :=
      ((h.pool.perm hperm.symm).perm hpop).release hempty
    have hinuse : ∀ q c, v.popBack.get? q = some c → c.blocksAvailable ≠ z.numBlocks := by
      intro q c hq
      rw [Vec.get?_popBack hvnil] at hq
      by_cases hlast : q = v.back
      · rw [if_pos hlast] at hq
        cases hq
      · rw [if_neg hlast] at hq
        exact huse q c hlast hq
    obtain ⟨f', hforget, hchunks, hnone, hsound, hlost⟩ :=
      h.forgetEmptyChunk he hback hsize hcap hholds hpool hinuse
    -- the assertions on the way
    have hhas : c.hasAvailable f.numBlocks = true := by
      rw [h.numBlocks, Chunk.hasAvailable_iff]
      exact hempty
    have hcount : 1 = f.countEmptyChunks := by
      rw [countEmptyChunks, he]
      rfl
    have hcount' : 0 = f'.countEmptyChunks := by
      rw [countEmptyChunks, hnone]
      rfl
    have hderef : ({ f with chunks := v } : FixedAllocator).deref (some f.chunks.back) = .ok c :=
      deref_eq (hback ▸ hc)
    refine ⟨true, f', m', ?_, by simp, hchunks ▸ hpool, ?_, fun q => ?_, hbyte, hsound, hlost⟩
    · rw [he] at hforget hmove hderef
      simp only [FixedAllocator.trimEmptyChunk, hbefore, he, ok_bind, Chunk.assert_of hnil,
        Chunk.assert_of hcount, hmove, hderef, Chunk.assert_of hhas, hrun, hforget,
        Chunk.assert_of hcount']
      rfl
    · intro d hd
      obtain ⟨i, -, hget⟩ := Vec.exists_get?_of_mem (hchunks ▸ hd)
      exact hinuse _ d hget
    · rw [hchunks, hused, ← Used.perm hpop, Used.perm hperm]

/-- **`TrimChunkList`** moves the vector if it has room for more chunks. The invariants hold,
but the pointers are lost if there are any. -/
theorem Sound.trimChunkList (h : f.Sound z m) :
    ∃ r f', f.trimChunkList = .ok (r, f') ∧ f'.chunks.items = f.chunks.items ∧
      (¬ f.LosesBuffer → f'.Sound z m) ∧ (f.LosesBuffer → f'.Lost) := by
  by_cases hnil : f.chunks.items = []
  · have hnull : ∀ o, f.chunks.Holds o → none = o := by
      intro o ho
      cases o with
      | none => rfl
      | some p => exact absurd (Vec.length_pos_of_holds ho) (by simp [Vec.size, hnil])
    have halloc := hnull _ h.allocChunk
    have hdealloc := hnull _ h.deallocChunk
    have hloses : ¬ f.LosesBuffer := fun hl => hl.1 hnil
    by_cases hfull : f.chunks.size = f.chunks.capacity
    · refine ⟨false, f, ?_, rfl, fun _ => h, fun hl => absurd hl hloses⟩
      simp [FixedAllocator.trimChunkList, hnil, Chunk.assert_of halloc, Chunk.assert_of hdealloc,
        hfull]
    · refine ⟨true, { f with chunks := f.chunks.shrink }, ?_, rfl, fun _ => ?_,
        fun hl => absurd hl hloses⟩
      · simp [FixedAllocator.trimChunkList, hnil, Chunk.assert_of halloc,
          Chunk.assert_of hdealloc, hfull]
      · refine ⟨h.blockSize, h.numBlocks, Nat.le_refl _, h.pool,
          Vec.holds_of_eq_nil h.allocChunk hnil hnil,
          Vec.holds_of_eq_nil h.deallocChunk hnil hnil, fun p => ?_⟩
        show f.emptyChunk = some p ↔ _
        have hnone : ∀ v : Vec Chunk, v.items = [] → ¬ ∃ c, v.get? p = some c ∧
            c.blocksAvailable = z.numBlocks := by
          rintro v hv ⟨c, hc, -⟩
          have hc := Vec.mem_of_get? hc
          rw [hv] at hc
          exact List.not_mem_nil hc
        rw [h.emptyChunk]
        exact iff_of_false (hnone _ hnil) (hnone _ hnil)
  · by_cases hfull : f.chunks.size = f.chunks.capacity
    · refine ⟨false, f, ?_, rfl, fun _ => h, fun hl => absurd hfull hl.2⟩
      simp [FixedAllocator.trimChunkList, hnil, hfull]
    · refine ⟨true, { f with chunks := f.chunks.shrink }, ?_, rfl,
        fun hl => absurd ⟨hnil, hfull⟩ hl, fun _ => ⟨hnil, fun hboth => ?_⟩⟩
      · simp [FixedAllocator.trimChunkList, hnil, hfull]
      · -- the old pointers are into the buffer that was left
        obtain ⟨p, hp, hbuffer, -⟩ := Vec.exists_of_holds h.allocChunk hnil
        have hnew : f.chunks.shrink.Holds f.allocChunk := hboth.1
        rw [hp] at hnew
        exact absurd (hnew.1.symm.trans hbuffer) (Nat.succ_ne_self _)

/-! ## The destructor -/

/-- All chunks are released, each once. -/
theorem release_all {cs : List Chunk} (h : m.extents.Perm (cs.map (Chunk.extent z))) :
    ∃ m', cs.foldlM (fun m chunk => chunk.release m) m = (.ok m' : Except Fault Bytes) ∧
      m'.extents = [] := by
  induction cs generalizing m with
  | nil => exact ⟨m, rfl, List.perm_nil.mp h⟩
  | cons c cs ih =>
    obtain ⟨m₁, hrun, hperm, -⟩ := Chunk.release_spec (c := c) h
    obtain ⟨m', hrest, hnil⟩ := ih hperm
    refine ⟨m', ?_, hnil⟩
    simp only [List.foldlM_cons, hrun, ok_bind]
    exact hrest

/-- The destructor gives back all that was allocated. -/
theorem Sound.destruct (h : f.Sound z m) : ∃ m', f.destruct m = .ok m' ∧ m'.extents = [] :=
  release_all h.pool.extents

end FixedAllocator

end BstGenerator.SmallObj
