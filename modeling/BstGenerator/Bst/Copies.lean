import BstGenerator.Bst.Objects
import BstGenerator.Memory.Ownership

/-!
# What a copy comes to

After a copy two objects hold one sentinel, and one destructor is enough to leave the
other object with a sentinel that is deleted. From then on there is no way back: an
object that is assigned to shares the sentinel of another one again, and the destructor
of an object whose sentinel is deleted faults.

- `Older s s'`: the ledger of `s'` goes on from that of `s`, and the sentinel is the
  same. It holds of all methods, on whatever heap they run.
- `Tangled w`: two objects hold one sentinel, or the sentinel of an object is deleted.
- `step_tangled`: no step that ends untangles the objects.
- `no_copy_enough_and_needed`: so objects are independent in every program that copies
  nothing, and a program that destroys all its objects has them so only if it copies nothing.
- `copy_not_independent`: with one copy of an object, both being destroyed, the
  sentinel is deleted twice.
-/

namespace BstGenerator.Bst

open Machine Memory Trees

variable {T V : Type}

/-! ## The ledger goes on -/

/-- The state `s'` comes from `s`, whatever was done in between. -/
def Older (s s' : State T V) : Prop := ∃ evs, Effect s s' evs

theorem Older.refl (s : State T V) : Older s s := ⟨[], Effect.refl s⟩

theorem Older.trans {s s' s'' : State T V} (h : Older s s') (h' : Older s' s'') :
    Older s s'' := by
  obtain ⟨evs, heff⟩ := h
  obtain ⟨evs', heff'⟩ := h'
  exact ⟨evs ++ evs', heff.trans heff'⟩

/-- What has been recorded stays recorded. -/
theorem Older.mem {s s' : State T V} (h : Older s s') {e : Event} (he : e ∈ s.heap.log) :
    e ∈ s'.heap.log := by
  obtain ⟨evs, heff⟩ := h
  rw [heff.log]
  exact List.mem_append_left evs he

section Primitives

variable (s : State T V)

theorem older_new (n : Node T V) : Older s (s.new n).2 :=
  ⟨[.new s.heap.next], rfl, Heap.new_log ..⟩

theorem older_store (σ : Slot) (p : Addr) : Ensures (s.store σ p) (Older s) := by
  intro s' h
  cases σ with
  | root =>
    cases h
    exact ⟨[], rfl, (List.append_nil _).symm⟩
  | child d a =>
    cases hn : s.heap.cells a with
    | none =>
      simp only [State.store, hn] at h
      cases h
    | some n =>
      simp only [State.store, hn] at h
      cases h
      exact ⟨[.write a], rfl, Heap.write_log hn _⟩

/-- A `delete` that goes through deletes a node not deleted before. -/
theorem delete_ensures (a : Addr) : Ensures (s.delete a) fun s' =>
    .delete a ∉ s.heap.log ∧ Effect s s' [.delete a] := by
  intro s' h
  cases hn : s.heap.cells a with
  | none =>
    simp only [State.delete, hn] at h
    cases h
  | some n =>
    simp only [State.delete, hn] at h
    cases h
    exact ⟨Heap.not_mem_delete_of_live hn, rfl, Heap.delete_log hn⟩

theorem older_delete (a : Addr) : Ensures (s.delete a) (Older s) := by
  intro s' h
  exact ⟨_, (delete_ensures s a s' h).2⟩

end Primitives

theorem older_releaseLoop (fuel : Nat) (q : List Addr) (s : State T V) :
    Ensures (releaseLoop fuel q s) (Older s) := by
  induction fuel generalizing q s with
  | zero =>
    cases q with
    | nil => exact .pure (Older.refl s)
    | cons c q => exact fun _ h => nomatch h
  | succ fuel ih =>
    cases q with
    | nil => exact .pure (Older.refl s)
    | cons c q =>
      refine .skip fun l => .skip fun r => .bind (older_delete s c) fun u hu => ?_
      exact fun s' h => hu.trans (ih _ u s' h)

/-- The destructor deletes the sentinel, which so far was not deleted. -/
theorem release_ensures (fuel : Nat) (s : State T V) : Ensures (release fuel s) fun s' =>
    .delete s.null ∉ s.heap.log ∧ .delete s.null ∈ s'.heap.log ∧
      ∀ e ∈ s.heap.log, e ∈ s'.heap.log := by
  refine .bind (older_releaseLoop fuel _ s) fun u hu => ?_
  refine .bind (delete_ensures u u.null) fun t ht => .pure ?_
  obtain ⟨hnot, hdel⟩ := ht
  have hnull : u.null = s.null := hu.choose_spec.null
  rw [hnull] at hnot hdel
  refine ⟨fun hmem => hnot (hu.mem hmem), ?_, fun e he => Older.mem ⟨_, hdel⟩ (hu.mem he)⟩
  show _ ∈ t.heap.log
  rw [hdel.log]
  exact List.mem_append_right _ (List.mem_singleton_self _)

/-- The constructor adds to the ledger. -/
theorem construct_ensures [Inhabited T] [Inhabited V] (h : Heap (Node T V)) :
    Ensures (construct h) fun s => ∀ e ∈ h.log, e ∈ s.heap.log := by
  refine .bind (older_store _ _ _) fun s₁ h₁ => .skip fun q => ?_
  intro s₂ hs₂
  have h₂ : Older s₁ s₂ := older_store s₁ _ q s₂ hs₂
  intro e he
  refine (h₁.trans h₂).mem ?_
  show e ∈ (h.new _).log
  rw [Heap.new_log]
  exact List.mem_append_left _ he

section Methods

variable [LinearOrder T]

theorem older_insert (fuel : Nat) (k : T) (v : V) (s : State T V) :
    Ensures (insert fuel k v s) fun r => Older s r.2 := by
  refine .skip fun σ => .skip fun p => .ite (.pure (Older.refl s)) ?_
  refine .bind (older_store (s.new _).2 σ _) fun u hu => .skip fun q => .pure ?_
  exact (older_new s _).trans hu

theorem older_remove (fuel : Nat) (k : T) (s : State T V) :
    Ensures (remove fuel k s) fun r => Older s r.2 := by
  -- an assignment to the slot and the `delete` of the node, in the case of one child
  have hunlink (σ : Slot) (p old : Addr) : Ensures (do
      let s ← s.store σ p
      let s ← s.delete old
      return (true, s)) fun r => Older s r.2 := by
    refine .bind (older_store s σ p) fun s₁ h₁ => .bind (older_delete s₁ old) fun s₂ h₂ => ?_
    exact .pure (h₁.trans h₂)
  refine .skip fun σ => .skip fun p => .ite (.pure (Older.refl s)) ?_
  refine .skip fun _ => .skip fun l => .skip fun _ => .skip fun r => .ite ?_ ?_
  · refine .skip fun _ => .skip fun min => .skip fun old => .skip fun _ =>
      .bind (older_store s σ _) fun s₁ h₁ => ?_
    refine .skip fun _ => .skip fun _ => .bind (older_store s₁ min _) fun s₂ h₂ => ?_
    refine .skip fun _ => .skip fun _ => .bind (older_store s₂ _ _) fun s₃ h₃ => ?_
    refine .skip fun _ => .skip fun _ => .bind (older_store s₃ _ _) fun s₄ h₄ => ?_
    refine .bind (older_delete s₄ old) fun s₅ h₅ => .pure ?_
    exact h₁.trans (h₂.trans (h₃.trans (h₄.trans h₅)))
  · refine .skip fun old => .skip fun _ => .skip fun _ => .ite ?_ ?_
    · exact .skip fun _ => .skip fun q => hunlink σ q old
    · exact .skip fun _ => .skip fun q => hunlink σ q old

theorem older_exec (fuel : Nat) (s : State T V) (op : Op T V) :
    Ensures (exec fuel s op) fun r => Older s r.2 := by
  cases op with
  | insert k v => exact .bind (older_insert fuel k v s) fun r hr => .pure hr
  | remove k => exact .bind (older_remove fuel k s) fun r hr => .pure hr
  | find k => exact .skip fun σ => .pure (Older.refl s)

end Methods

/-! ## Objects that are tangled -/

/-- The sentinel an object holds. -/
def World.sentinelOf (w : World T V) (i : Addr) : Option Addr :=
  (w.objs.cells i).map Members.null

/-- Two objects hold one sentinel, or the sentinel of an object is deleted. -/
inductive Tangled (w : World T V) : Prop
  | shared {i j p : Addr} : i ≠ j → w.sentinelOf i = some p → w.sentinelOf j = some p →
      Tangled w
  | dangling {i p : Addr} : w.sentinelOf i = some p → .delete p ∈ w.heap.log → Tangled w

section Tables

variable {w : World T V} {heap : Heap (Node T V)} {M : Members} {i : Addr}

theorem sentinelOf_new :
    World.sentinelOf ⟨heap, w.objs.new M⟩ = give w.sentinelOf w.objs.next M.null := by
  funext k
  rw [World.sentinelOf, Heap.new_cells, give_apply]
  split <;> rfl

theorem sentinelOf_write (hi : (w.objs.cells i).isSome) :
    World.sentinelOf ⟨heap, w.objs.write i M⟩ = give w.sentinelOf i M.null := by
  obtain ⟨N, hN⟩ := Option.isSome_iff_exists.mp hi
  funext k
  rw [World.sentinelOf, Heap.write_cells hN, give_apply]
  split <;> rfl

theorem sentinelOf_delete (hi : (w.objs.cells i).isSome) :
    World.sentinelOf ⟨heap, w.objs.delete i⟩ = drop w.sentinelOf i := by
  obtain ⟨N, hN⟩ := Option.isSome_iff_exists.mp hi
  funext k
  rw [World.sentinelOf, Heap.delete_cells hN, drop_apply]
  split <;> rfl

end Tables

theorem World.sentinelOf_eq {w : World T V} {i : Addr} {M : Members}
    (hi : w.objs.cells i = some M) : w.sentinelOf i = some M.null := by
  rw [World.sentinelOf, hi]
  rfl

/-- An object to be acted on lives. -/
theorem World.members_ensures (w : World T V) (i : Addr) :
    Ensures (w.members i) fun M => w.objs.cells i = some M := by
  intro M h
  cases hi : w.objs.cells i with
  | none =>
    simp only [World.members, hi] at h
    cases h
  | some N =>
    simp only [World.members, hi] at h
    cases h
    rfl

/-- A destructor does not untangle: it deletes the sentinel that another object goes on
holding, and cannot delete it again. -/
theorem Tangled.of_drop {w w' : World T V} (hw : Tangled w) {k p : Addr}
    (hlog : ∀ e ∈ w.heap.log, e ∈ w'.heap.log) (hk : w.sentinelOf k = some p)
    (htable : w'.sentinelOf = drop w.sentinelOf k) (hnot : .delete p ∉ w.heap.log)
    (hdel : .delete p ∈ w'.heap.log) : Tangled w' := by
  have hkeep {i q : Addr} (hne : i ≠ k) (hi : w.sentinelOf i = some q) :
      w'.sentinelOf i = some q := by
    rw [htable, drop_apply, if_neg hne, hi]
  cases hw with
  | @shared i j q hij hi hj =>
    -- one of the two objects that share `q` is destroyed, or neither is
    by_cases hik : i = k
    · subst hik
      obtain rfl : q = p := Option.some.inj (hi.symm.trans hk)
      exact .dangling (hkeep (Ne.symm hij) hj) hdel
    · by_cases hjk : j = k
      · subst hjk
        obtain rfl : q = p := Option.some.inj (hj.symm.trans hk)
        exact .dangling (hkeep hik hi) hdel
      · exact .shared hij (hkeep hik hi) (hkeep hjk hj)
  | @dangling i q hi hq =>
    have hik : i ≠ k := by
      rintro rfl
      obtain rfl : q = p := Option.some.inj (hi.symm.trans hk)
      exact hnot hq
    exact .dangling (hkeep hik hi) (hlog _ hq)

/-- Where every object keeps its sentinel, the objects stay tangled. -/
theorem Tangled.of_keep {w w' : World T V} (hw : Tangled w)
    (hlog : ∀ e ∈ w.heap.log, e ∈ w'.heap.log)
    (hkeep : ∀ i q, w.sentinelOf i = some q → w'.sentinelOf i = some q) : Tangled w' := by
  cases hw with
  | shared hij hi hj => exact .shared hij (hkeep _ _ hi) (hkeep _ _ hj)
  | dangling hi hq => exact .dangling (hkeep _ _ hi) (hlog _ hq)

section Steps

variable [LinearOrder T] [Inhabited T] [Inhabited V] {w w' : World T V} {c : Cmd T V}

/-- A copy makes an object hold the sentinel of another one. -/
theorem step_copies (fuel : Nat) (hc : ¬ c.CopiesNothing) (w : World T V) :
    Ensures (step fuel c w) fun w' => ∃ i j p, i ≠ j ∧ w.sentinelOf j = some p ∧
      w'.sentinelOf = give w.sentinelOf i p := by
  cases c with
  | construct => exact absurd trivial hc
  | copyConstruct j =>
    refine .bind (w.members_ensures j) fun M hM => .pure ?_
    refine ⟨w.objs.next, j, M.null, ?_, World.sentinelOf_eq hM, sentinelOf_new⟩
    rintro rfl
    rw [w.objs.cells_next] at hM
    cases hM
  | copyAssign i j =>
    refine .bind (w.members_ensures i) fun M hM => ?_
    refine .bind (w.members_ensures j) fun N hN => .pure ?_
    exact ⟨i, j, N.null, hc, World.sentinelOf_eq hN,
      sentinelOf_write (Option.isSome_iff_exists.mpr ⟨M, hM⟩)⟩
  | call i op => exact absurd trivial hc
  | destroy i => exact absurd trivial hc

/-- What a step that copies nothing does to who holds which sentinel. -/
theorem step_keeps (fuel : Nat) (hc : c.CopiesNothing) (w : World T V) :
    Ensures (step fuel c w) fun w' => (∀ e ∈ w.heap.log, e ∈ w'.heap.log) ∧
      ((∃ p, w'.sentinelOf = give w.sentinelOf w.objs.next p) ∨
        w'.sentinelOf = w.sentinelOf ∨
        ∃ i p, w.sentinelOf i = some p ∧ w'.sentinelOf = drop w.sentinelOf i ∧
          .delete p ∉ w.heap.log ∧ .delete p ∈ w'.heap.log) := by
  -- writing an object back with the sentinel it had
  have hsame {i : Addr} {M N : Members} (hi : w.objs.cells i = some M) (hN : N.null = M.null)
      (heap : Heap (Node T V)) :
      World.sentinelOf ⟨heap, w.objs.write i N⟩ = w.sentinelOf := by
    rw [sentinelOf_write (Option.isSome_iff_exists.mpr ⟨M, hi⟩)]
    funext k
    rw [give_apply]
    by_cases hk : k = i
    · rw [if_pos hk, hk, World.sentinelOf_eq hi, hN]
    · rw [if_neg hk]
  cases c with
  | construct =>
    refine .bind (construct_ensures w.heap) fun s hs => .pure ?_
    exact ⟨hs, Or.inl ⟨_, sentinelOf_new⟩⟩
  | copyConstruct j => exact hc.elim
  | copyAssign i j =>
    obtain rfl : i = j := hc
    refine .bind (w.members_ensures i) fun M hM => ?_
    refine .bind (w.members_ensures i) fun N hN => .pure ?_
    obtain rfl : M = N := Option.some.inj (hM.symm.trans hN)
    exact ⟨fun e he => he, Or.inr (Or.inl (hsame hM rfl _))⟩
  | call i op =>
    refine .bind (w.members_ensures i) fun M hM => ?_
    refine .bind (older_exec fuel ⟨M, w.heap⟩ op) fun r hr => .pure ?_
    refine ⟨fun e he => hr.mem he, Or.inr (Or.inl (hsame hM ?_ _))⟩
    obtain ⟨evs, heff⟩ := hr
    exact heff.null
  | destroy i =>
    refine .bind (w.members_ensures i) fun M hM => ?_
    refine .bind (release_ensures fuel ⟨M, w.heap⟩) fun s hs => .pure ?_
    obtain ⟨hnot, hdel, hlog⟩ := hs
    exact ⟨hlog, Or.inr (Or.inr ⟨i, M.null, World.sentinelOf_eq hM,
      sentinelOf_delete (Option.isSome_iff_exists.mpr ⟨M, hM⟩), hnot, hdel⟩)⟩

/-- A copy tangles. -/
theorem tangled_of_copies (fuel : Nat) (hc : ¬ c.CopiesNothing) (w : World T V) :
    Ensures (step fuel c w) Tangled := by
  intro w' h
  obtain ⟨i, j, p, hij, hj, htable⟩ := step_copies fuel hc w w' h
  refine .shared hij (p := p) ?_ ?_
  · rw [htable, give_apply, if_pos rfl]
  · rw [htable, give_apply, if_neg (Ne.symm hij), hj]

/-- **No step untangles.** -/
theorem step_tangled (fuel : Nat) (c : Cmd T V) {w : World T V} (hw : Tangled w) :
    Ensures (step fuel c w) Tangled := by
  by_cases hc : c.CopiesNothing
  · intro w' h
    obtain ⟨hlog, ⟨p, htable⟩ | htable | ⟨k, p, hk, htable, hnot, hdel⟩⟩ :=
      step_keeps fuel hc w w' h
    · -- an object that lives is not the one constructed
      refine hw.of_keep hlog ?_
      intro i q hi
      have hne : i ≠ w.objs.next := by
        rintro rfl
        rw [World.sentinelOf, w.objs.cells_next] at hi
        cases hi
      rw [htable, give_apply, if_neg hne, hi]
    · exact hw.of_keep hlog fun i q hi => htable ▸ hi
    · -- a destruction, after which another holder of the sentinel is left dangling
      exact hw.of_drop hlog hk htable hnot hdel
  · exact tangled_of_copies fuel hc w

/-- **A program that ends with all its objects destroyed** copied no object but onto
itself. -/
theorem copiesNothing_of_all_destroyed {cmds : List (Cmd T V)} (hw : Ends cmds w)
    (hdead : ∀ i, w.objs.cells i = none) : ∀ c ∈ cmds, c.CopiesNothing := by
  obtain ⟨N, hN⟩ := hw
  have hrun : run (step N) cmds World.empty = .ok w := hN N (Nat.le_refl N)
  intro c hc
  by_contra hcopy
  obtain ⟨pre, post, rfl⟩ := List.append_of_mem hc
  obtain ⟨u, -, hrest⟩ := (run_append_ok _).mp hrun
  obtain ⟨u', hstep, hpost⟩ := (run_cons_ok _).mp hrest
  -- the copy tangles, and the rest of the program leaves the objects tangled
  have htangled : Tangled u' := tangled_of_copies N hcopy u u' hstep
  have hend : Tangled w :=
    run_invariant (fun d s s' hs h => step_tangled N d hs s' h) htangled hpost
  -- but no object is left to be tangled
  have hnone (i : Addr) : w.sentinelOf i = none := by
    rw [World.sentinelOf, hdead i]
    rfl
  cases hend with
  | shared _ hi _ => cases (hnone _).symm.trans hi
  | dangling hi _ => cases (hnone _).symm.trans hi

/-- The program names no object that does not live, and destroys all its objects. -/
structure Complete (cmds : List (Cmd T V)) : Prop where
  lives : ∀ i, ¬ Fails (fun fuel => run (step fuel) cmds World.empty) (.noObject i)
  destroys : ∀ w, Ends cmds w → ∀ i, w.objs.cells i = none

/-- **Copying nothing is enough, and needed**, where an assignment of an object to itself does
not count as a copy. In every program that copies nothing objects are independent. The other
way round only programs that destroy all their objects have to copy nothing: the destructors
are what a copy goes wrong in. -/
theorem no_copy_enough_and_needed (cmds : List (Cmd T V)) :
    ((∀ c ∈ cmds, c.CopiesNothing) → Independent cmds) ∧
      (Complete cmds → Independent cmds → ∀ c ∈ cmds, c.CopiesNothing) := by
  refine ⟨independent_of_no_copy cmds, ?_⟩
  intro hcomplete hind
  rcases hind.no_fault with ⟨w, hw⟩ | ⟨i, hfail⟩
  · exact copiesNothing_of_all_destroyed hw (hcomplete.destroys w hw)
  · exact absurd hfail (hcomplete.lives i)

end Steps

/-- Two objects, one of them assigned to itself on the way. -/
theorem no_copy_enough_and_needed_two : Independent (T := Nat) (V := Nat)
    [.construct, .construct, .call 1 (.insert 1 10), .copyAssign 1 1, .call 2 (.insert 1 20),
      .call 1 (.remove 1), .destroy 1, .destroy 2] :=
  (no_copy_enough_and_needed _).1 (by simp [Cmd.CopiesNothing])

/-- **An object and its copy, both destroyed**: the second destructor deletes the
sentinel the first one has deleted. -/
theorem copy_not_independent : ¬ Independent (T := Nat) (V := Nat)
    [.construct, .copyConstruct 1, .destroy 2, .destroy 1] := by
  have hfail : Fails (fun fuel => run (step fuel)
      [.construct, .copyConstruct 1, .destroy 2, .destroy 1] (World.empty : World Nat Nat))
      (.invalidDelete 1) := by
    refine ⟨0, ?_⟩
    intro fuel _
    cases fuel <;> rfl
  intro h
  rcases h.no_fault with ⟨w, hw⟩ | ⟨i, N, hN⟩
  · exact hfail.not_returns hw
  · obtain ⟨M, hM⟩ := hfail
    have heq := (hN _ (Nat.le_max_left N M)).symm.trans (hM _ (Nat.le_max_right N M))
    cases heq

end BstGenerator.Bst
