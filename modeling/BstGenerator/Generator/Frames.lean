import Mathlib.Data.List.Induction
import BstGenerator.Generator.Model
import BstGenerator.Machine.Run
import BstGenerator.Memory.Ownership

/-!
# Who owns a coroutine frame

A `Generator` owns the frame its `m_coroutine` is a handle of. Read as a table of
owners (`World.table`), the special members are the operations of
`Memory/Ownership.lean`: a coroutine call gives the new object the new frame, a move
construction and a move assignment take over, a destruction drops, having destroyed the
frame.

- `exclusive_frames`: **ownership is exclusive** in every reachable state, so no frame
  is destroyed twice and none is resumed after it was destroyed.
- `noOrphans_iff`: frames are lost by exactly those move assignments whose target
  holds a frame: `operator=` overwrites `m_coroutine` and destroys nothing
  (test_yield.cpp:74–80).
-/

namespace BstGenerator.Generator

open Machine Memory

variable {σ T E : Type} {body : σ → Outcome σ T E}

/-- What a handle owns: the null handle owns nothing. -/
def owns : Option Addr → Option Addr
  | some h => if h = nullptr then none else some h
  | none => none

/-- The frame each object owns. -/
def World.table (w : World σ T) (i : Addr) : Option Addr := owns (w.gens.cells i)

/-- The frame has been created and not been destroyed. -/
def World.Live (w : World σ T) (h : Addr) : Prop := (w.frames.cells h).isSome

/-- Frames have one owner at most, and owned frames are live. -/
structure Consistent (w : World σ T) : Prop where
  exclusive : Exclusive w.table
  live : ∀ h, Owned w.table h → w.Live h

theorem owns_eq_some {o : Option Addr} {h : Addr} :
    owns o = some h ↔ o = some h ∧ h ≠ nullptr := by
  cases o with
  | none => simp [owns]
  | some k =>
    by_cases hk : k = nullptr
    · subst hk
      simp only [owns, if_true, Option.some.injEq]
      constructor
      · exact fun h => nomatch h
      · rintro ⟨rfl, hne⟩
        exact absurd rfl hne
    · simp only [owns, if_neg hk, Option.some.injEq]
      exact ⟨fun hkh => ⟨hkh, hkh ▸ hk⟩, fun hkh => hkh.1⟩

theorem table_eq_some {w : World σ T} {i h : Addr} :
    w.table i = some h ↔ w.gens.cells i = some h ∧ h ≠ nullptr := owns_eq_some

/-- A frame that is live does not lie at the null handle. -/
theorem World.Live.ne_null {w : World σ T} {h : Addr} (hl : w.Live h) : h ≠ nullptr := by
  obtain ⟨f, hf⟩ := Option.isSome_iff_exists.mp hl
  exact Heap.ne_nullptr_of_live hf

/-! ## What the operations do to the table -/

section Operations

variable {w w' : World σ T} {g : Heap Addr} {i h k : Addr}

/-- A new object owns what it holds. -/
theorem table_new (g : Heap Addr) (h : Addr) :
    owns ∘ (g.new h).cells = Function.update (owns ∘ g.cells) g.next (owns (some h)) :=
  Function.comp_update owns g.cells g.next (some h)

theorem table_write (hi : g.cells i = some k) (h : Addr) :
    owns ∘ (g.write i h).cells = Function.update (owns ∘ g.cells) i (owns (some h)) := by
  funext j
  rw [Function.comp_apply, Heap.write_cells hi, Function.update_apply]
  split <;> rfl

theorem table_delete (hi : g.cells i = some k) :
    owns ∘ (g.delete i).cells = drop (owns ∘ g.cells) i := by
  funext j
  rw [Function.comp_apply, Heap.delete_cells hi, drop_apply]
  split <;> rfl

/-- The null handle owns nothing. -/
theorem owns_nullptr : owns (some nullptr) = none := rfl

/-- An object that is not there owns nothing. -/
theorem table_next (w : World σ T) : w.table w.gens.next = none := by
  rw [World.table, w.gens.cells_next]
  rfl

theorem table_coroutine (s : σ) (w : World σ T) :
    (coroutine s w).table = give w.table w.gens.next w.frames.next := by
  show owns ∘ (w.gens.new w.frames.next).cells = _
  rw [table_new, owns, if_neg w.frames.next_ne_nullptr]
  rfl

theorem live_coroutine (s : σ) (w : World σ T) (h : Addr) :
    (coroutine s w).Live h ↔ h = w.frames.next ∨ w.Live h := by
  show ((w.frames.new ⟨some s, none⟩).cells h).isSome ↔ _
  rw [Heap.new_cells]
  by_cases hh : h = w.frames.next
  · simp [hh]
  · simp [hh, World.Live]

theorem table_defaultConstruct (w : World σ T) : (defaultConstruct w).table = w.table := by
  show owns ∘ (w.gens.new nullptr).cells = _
  rw [table_new, owns_nullptr, ← table_next w]
  exact Function.update_eq_self w.gens.next w.table

/-- Handing over: the target gets the handle of the source, and the source the null
handle. -/
theorem table_take {i j h : Addr} (hj : w.table j = owns (some h)) :
    Function.update (Function.update w.table i (owns (some h))) j (owns (some nullptr)) =
      take w.table i j := by
  rw [← hj, owns_nullptr]
  rfl

/-- A move construction: the new object takes over what the source owned. -/
theorem moveConstruct_cases (j : Addr) (w : World σ T) :
    (w.gens.cells j = none ∧ moveConstruct j w = .error (.noObject j)) ∨
      ∃ w', moveConstruct j w = .ok w' ∧ w.gens.next ≠ j ∧
        w'.table = take w.table w.gens.next j ∧ w'.frames = w.frames := by
  cases hj : w.gens.cells j with
  | none =>
    refine Or.inl ⟨rfl, ?_⟩
    simp only [moveConstruct, World.handle, hj, error_bind]
  | some h =>
    have hne : j ≠ w.gens.next := by
      rintro rfl
      rw [w.gens.cells_next] at hj
      cases hj
    have hj' : (w.gens.new h).cells j = some h := by
      rw [Heap.new_cells, if_neg hne, hj]
    refine Or.inr ⟨{ w with gens := (w.gens.new h).write j nullptr }, ?_, hne.symm, ?_, rfl⟩
    · simp only [moveConstruct, World.handle, hj, ok_bind, pure_eq_ok]
    · show owns ∘ ((w.gens.new h).write j nullptr).cells = _
      rw [table_write hj', table_new]
      exact table_take (congrArg owns hj)

/-- A move assignment to itself changes nothing, any other takes over. -/
theorem moveAssign_cases (i j : Addr) (w : World σ T) :
    (∃ k, (k = i ∨ k = j) ∧ w.gens.cells k = none ∧
        moveAssign i j w = .error (.noObject k)) ∨
      ∃ w', moveAssign i j w = .ok w' ∧ (w.gens.cells j).isSome ∧ w'.frames = w.frames ∧
        (i = j ∧ w' = w ∨ i ≠ j ∧ w'.table = take w.table i j) := by
  cases hi : w.gens.cells i with
  | none =>
    refine Or.inl ⟨i, Or.inl rfl, hi, ?_⟩
    simp only [moveAssign, World.handle, hi, error_bind]
  | some g =>
    cases hj : w.gens.cells j with
    | none =>
      refine Or.inl ⟨j, Or.inr rfl, hj, ?_⟩
      simp only [moveAssign, World.handle, hi, hj, ok_bind, error_bind]
    | some h =>
      right
      by_cases hij : i = j
      · refine ⟨w, ?_, rfl, rfl, Or.inl ⟨hij, rfl⟩⟩
        simp only [moveAssign, World.handle, hj, ok_bind, hij, ne_eq, not_true_eq_false,
          if_false, pure_eq_ok]
      · have hj' : (w.gens.write i h).cells j = some h := by
          rw [Heap.write_cells hi, if_neg (Ne.symm hij), hj]
        refine ⟨{ w with gens := (w.gens.write i h).write j nullptr }, ?_, rfl, rfl,
          Or.inr ⟨hij, ?_⟩⟩
        · simp only [moveAssign, World.handle, hi, hj, ok_bind, hij, ne_eq, not_false_eq_true,
            if_true, pure_eq_ok]
        · show owns ∘ ((w.gens.write i h).write j nullptr).cells = _
          rw [table_write hj', table_write hi]
          exact table_take (congrArg owns hj)

/-- The destructor destroys the frame the object owns, and the object owns nothing
any more. The second part is what makes destroying it possible. -/
theorem destructor_cases (w : World σ T) (i : Addr) :
    (w.gens.cells i = none ∧ destructor i w = .error (.noObject i)) ∨
      (∃ h, w.table i = some h ∧ w.frames.cells h = none ∧
        destructor i w = .error (.destroyDestroyed h)) ∨
      (∃ w', destructor i w = .ok w' ∧ w'.table = drop w.table i ∧
        ∀ h, w'.Live h ↔ w.Live h ∧ w.table i ≠ some h) := by
  cases hi : w.gens.cells i with
  | none =>
    refine Or.inl ⟨rfl, ?_⟩
    simp only [destructor, World.handle, hi]
    rfl
  | some h =>
    right
    by_cases hnull : h = nullptr
    · right
      have htable : w.table i = none := by
        rw [World.table, hi, hnull]
        rfl
      refine ⟨{ w with gens := w.gens.delete i }, ?_, table_delete hi, ?_⟩
      · simp only [destructor, World.handle, hi, hnull]
        rfl
      · intro k
        rw [htable]
        exact ⟨fun hk => ⟨hk, fun hc => nomatch hc⟩, fun hk => hk.1⟩
    · have htable : w.table i = some h := table_eq_some.mpr ⟨hi, hnull⟩
      cases hf : w.frames.cells h with
      | none =>
        refine Or.inl ⟨h, htable, hf, ?_⟩
        simp only [destructor, World.handle, hi, destroy, hf, ok_bind, error_bind, ne_eq, hnull,
          not_false_eq_true, if_true]
      | some f =>
        refine Or.inr ⟨{ w with frames := w.frames.delete h, gens := w.gens.delete i }, ?_,
          table_delete hi, ?_⟩
        · simp only [destructor, World.handle, hi, destroy, hf, ok_bind, pure_eq_ok, ne_eq, hnull,
            not_false_eq_true, if_true]
        · intro k
          show ((w.frames.delete h).cells k).isSome ↔ _
          rw [Heap.delete_cells hf, htable]
          by_cases hk : k = h
          · simp [hk]
          · simp [hk, Ne.symm hk, World.Live]

end Operations

/-! ## `resume()` -/

section Resume

variable {w : World σ T} {h : Addr} {f : Frame σ T} {s : σ}

/-- The body runs to its next `co_yield`. -/
theorem resume_yield (hf : w.frames.cells h = some f) (hb : f.body = some s) {v : T} {s' : σ}
    (ho : body s = .yield v s') :
    resume body h w = .ok (.ok (), coAwait (yieldValue h { f with body := some s' } v w)) := by
  rw [resume, if_neg (Heap.ne_nullptr_of_live hf)]
  simp only [hf, hb, ho]

/-- The body runs to its end. -/
theorem resume_ret (hf : w.frames.cells h = some f) (hb : f.body = some s)
    (ho : body s = .ret) :
    resume body h w = .ok (.ok (), { coAwait (finalSuspend (returnVoid w)) with
      frames := w.frames.write h { f with body := none } }) := by
  rw [resume, if_neg (Heap.ne_nullptr_of_live hf)]
  simp only [hf, hb, ho]
  rfl

/-- The body throws. -/
theorem resume_throw (hf : w.frames.cells h = some f) (hb : f.body = some s) {e : E}
    (ho : body s = .throw e) :
    resume body h w = .ok (.error e, { w with
      frames := w.frames.write h { f with body := none } }) := by
  rw [resume, if_neg (Heap.ne_nullptr_of_live hf)]
  simp only [hf, hb, ho]

/-- At the final suspension point there is nothing to resume. -/
theorem resume_done (body : σ → Outcome σ T E) (hf : w.frames.cells h = some f)
    (hb : f.body = none) : resume body h w = .error (.resumeDone h) := by
  rw [resume, if_neg (Heap.ne_nullptr_of_live hf)]
  simp only [hf, hb]

/-- `resume()` on a suspended body touches no object and keeps frames live. -/
theorem resume_ok (body : σ → Outcome σ T E) (hf : w.frames.cells h = some f)
    (hb : f.body = some s) : ∃ r w', resume body h w = .ok (r, w') ∧ w'.gens = w.gens ∧
      ∀ k, w'.Live k ↔ w.Live k := by
  have hlive (f' : Frame σ T) (k : Addr) :
      ((w.frames.write h f').cells k).isSome ↔ w.Live k := by
    rw [Heap.write_cells hf]
    by_cases hk : k = h
    · simp [hk, World.Live, hf]
    · simp [hk, World.Live]
  cases ho : body s with
  | yield v s' => exact ⟨_, _, resume_yield hf hb ho, rfl, hlive _⟩
  | ret => exact ⟨_, _, resume_ret hf hb ho, rfl, hlive _⟩
  | throw e => exact ⟨_, _, resume_throw hf hb ho, rfl, hlive _⟩

/-- What `resume()` does with a handle, the undefined cases first. -/
theorem resume_cases (body : σ → Outcome σ T E) (h : Addr) (w : World σ T) :
    (h = nullptr ∧ resume body h w = .error .resumeNull) ∨
      (h ≠ nullptr ∧ ¬ w.Live h ∧ resume body h w = .error (.resumeDestroyed h)) ∨
      (∃ f, w.frames.cells h = some f ∧ f.body = none ∧
        resume body h w = .error (.resumeDone h)) ∨
      (∃ f s r w', w.frames.cells h = some f ∧ f.body = some s ∧
        resume body h w = .ok (r, w') ∧ w'.gens = w.gens ∧ ∀ k, w'.Live k ↔ w.Live k) := by
  by_cases hnull : h = nullptr
  · exact Or.inl ⟨hnull, if_pos hnull⟩
  · right
    cases hf : w.frames.cells h with
    | none =>
      refine Or.inl ⟨hnull, ?_, ?_⟩
      · simp [World.Live, hf]
      · simp only [resume, if_neg hnull, hf]
    | some f =>
      right
      cases hb : f.body with
      | none => exact Or.inl ⟨f, rfl, hb, resume_done body hf hb⟩
      | some s =>
        obtain ⟨r, w', hr, hgens, hlive⟩ := resume_ok body hf hb
        exact Or.inr ⟨f, s, r, w', rfl, hb, hr, hgens, hlive⟩

/-- Where `resume()` was possible the body was suspended, and no object has changed. -/
theorem of_resume_ok {r : Except E Unit} {w' : World σ T}
    (hr : resume body h w = .ok (r, w')) :
    (∃ f s, w.frames.cells h = some f ∧ f.body = some s) ∧ w'.gens = w.gens ∧
      ∀ k, w'.Live k ↔ w.Live k := by
  rcases resume_cases body h w with ⟨-, he⟩ | ⟨-, -, he⟩ | ⟨_, -, -, he⟩ |
    ⟨f, s, _, _, hf, hb, he, hgens, hlive⟩
  · cases he.symm.trans hr
  · cases he.symm.trans hr
  · cases he.symm.trans hr
  · cases he.symm.trans hr
    exact ⟨⟨f, s, hf, hb⟩, hgens, hlive⟩

/-- Only its end can stop `resume()` on a live frame. -/
theorem of_resume_error (hl : w.Live h) {e : Fault} (hr : resume body h w = .error e) :
    e = .resumeDone h ∧ ∃ f, w.frames.cells h = some f ∧ f.body = none := by
  rcases resume_cases body h w with ⟨hnull, -⟩ | ⟨-, hdead, -⟩ | ⟨f, hf, hb, he⟩ |
    ⟨_, _, _, _, -, -, he, -⟩
  · exact absurd hnull hl.ne_null
  · exact absurd hl hdead
  · cases he.symm.trans hr
    exact ⟨rfl, f, hf, hb⟩
  · cases he.symm.trans hr

/-- What `begin()` does: nothing on the null handle, else it resumes. -/
theorem begin_cases (body : σ → Outcome σ T E) (i : Addr) (w : World σ T) :
    (w.gens.cells i = none ∧ begin body i w = .error (.noObject i)) ∨
      (w.gens.cells i = some nullptr ∧ begin body i w = .ok (.ok ⟨nullptr⟩, w)) ∨
      (∃ h e, w.table i = some h ∧ resume body h w = .error e ∧
        begin body i w = .error e) ∨
      (∃ h r w', w.table i = some h ∧ resume body h w = .ok (r, w') ∧
        begin body i w = .ok (r.map fun _ => ⟨h⟩, w')) := by
  cases hi : w.gens.cells i with
  | none =>
    refine Or.inl ⟨rfl, ?_⟩
    simp only [begin, World.handle, hi]
    rfl
  | some h =>
    right
    by_cases hnull : h = nullptr
    · subst hnull
      refine Or.inl ⟨rfl, ?_⟩
      simp only [begin, World.handle, hi, ok_bind, ne_eq, not_true_eq_false, if_false, pure_eq_ok]
    · right
      have htable : w.table i = some h := table_eq_some.mpr ⟨hi, hnull⟩
      cases hr : resume body h w with
      | error e =>
        refine Or.inl ⟨h, e, htable, hr, ?_⟩
        simp only [begin, World.handle, hi, ok_bind, ne_eq, hnull, not_false_eq_true, if_true, hr,
          error_bind]
      | ok p =>
        obtain ⟨r, w'⟩ := p
        refine Or.inr ⟨h, r, w', htable, hr, ?_⟩
        simp only [begin, World.handle, hi, ok_bind, ne_eq, hnull, not_false_eq_true, if_true, hr]
        cases r <;> rfl

end Resume

/-! ## Steps -/

section Steps

variable {w w' : World σ T} {c : Cmd σ}

/-- What a command does to who owns which frame, and to which frames are live. -/
theorem step_cases (hs : step body c w = .ok w') :
    (∃ s, c = .coroutine s ∧ w'.table = give w.table w.gens.next w.frames.next ∧
      ∀ h, w'.Live h ↔ h = w.frames.next ∨ w.Live h) ∨
    (∃ i, c = .destroy i ∧ w'.table = drop w.table i ∧
      ∀ h, w'.Live h ↔ w.Live h ∧ w.table i ≠ some h) ∨
    ((∀ h, w'.Live h ↔ w.Live h) ∧
      (w'.table = w.table ∨ (∃ j, w.gens.next ≠ j ∧ w'.table = take w.table w.gens.next j) ∨
        ∃ i j, c = .moveAssign i j ∧ i ≠ j ∧ (w.gens.cells j).isSome ∧
          w'.table = take w.table i j)) := by
  cases c with
  | coroutine s =>
    cases hs
    exact Or.inl ⟨s, rfl, table_coroutine s w, live_coroutine s w⟩
  | default =>
    cases hs
    exact Or.inr (Or.inr ⟨fun _ => Iff.rfl, Or.inl (table_defaultConstruct w)⟩)
  | moveConstruct j =>
    rcases moveConstruct_cases j w with ⟨-, he⟩ | ⟨u, he, hne, htable, hframes⟩
    · cases he.symm.trans hs
    · cases he.symm.trans hs
      refine Or.inr (Or.inr ⟨?_, Or.inr (Or.inl ⟨j, hne, htable⟩)⟩)
      intro h
      rw [World.Live, hframes]
      rfl
  | moveAssign i j =>
    rcases moveAssign_cases i j w with ⟨k, -, -, he⟩ | ⟨u, he, hj, hframes, htable⟩
    · cases he.symm.trans hs
    · cases he.symm.trans hs
      rcases htable with ⟨-, rfl⟩ | ⟨hij, htable⟩
      · exact Or.inr (Or.inr ⟨fun _ => Iff.rfl, Or.inl rfl⟩)
      · refine Or.inr (Or.inr ⟨?_, Or.inr (Or.inr ⟨i, j, rfl, hij, hj, htable⟩)⟩)
        intro h
        rw [World.Live, hframes]
        rfl
  | begin i =>
    obtain ⟨⟨r, u⟩, hbegin, hu⟩ := bind_eq_ok.mp hs
    obtain rfl : u = w' := Except.ok.inj hu
    rcases begin_cases body i w with ⟨-, he⟩ | ⟨-, he⟩ | ⟨h, e, -, -, he⟩ |
      ⟨h, r', u', -, hresume, he⟩
    · cases he.symm.trans hbegin
    · cases he.symm.trans hbegin
      exact Or.inr (Or.inr ⟨fun _ => Iff.rfl, Or.inl rfl⟩)
    · cases he.symm.trans hbegin
    · cases he.symm.trans hbegin
      obtain ⟨-, hgens, hlive⟩ := of_resume_ok hresume
      refine Or.inr (Or.inr ⟨hlive, Or.inl ?_⟩)
      funext k
      rw [World.table, hgens]
      rfl
  | destroy i =>
    rcases destructor_cases w i with ⟨-, he⟩ | ⟨h, -, -, he⟩ | ⟨u, he, htable, hlive⟩
    · cases he.symm.trans hs
    · cases he.symm.trans hs
    · cases he.symm.trans hs
      exact Or.inr (Or.inl ⟨i, rfl, htable, hlive⟩)

theorem Consistent.empty : Consistent (World.empty : World σ T) where
  exclusive := fun _ _ _ h => nomatch h
  live := fun _ ⟨_, h⟩ => nomatch h

/-- What creates and destroys no frame, and lets nobody own one that was not owned,
keeps owned frames live. -/
theorem Consistent.of_owned (hw : Consistent w) (hexcl : Exclusive w'.table)
    (hlive : ∀ h, w'.Live h ↔ w.Live h) (howned : ∀ h, Owned w'.table h → Owned w.table h) :
    Consistent w' where
  exclusive := hexcl
  live := fun h ho => (hlive h).mpr (hw.live h (howned h ho))

/-- **A step keeps ownership exclusive** and owned frames live. -/
theorem step_consistent (hw : Consistent w) (hs : step body c w = .ok w') :
    Consistent w' := by
  have hnext : ¬ Owned w.table w.frames.next := by
    intro ho
    have hl := hw.live _ ho
    rw [World.Live, w.frames.cells_next] at hl
    cases hl
  rcases step_cases hs with ⟨s, -, htable, hlive⟩ | ⟨i, -, htable, hlive⟩ | ⟨hlive, htable⟩
  · -- a coroutine call gives the new object a frame nobody owns yet
    refine ⟨htable ▸ exclusive_give hw.exclusive _ hnext, ?_⟩
    intro h ho
    rw [htable, owned_give (table_next w)] at ho
    exact (hlive h).mpr (ho.imp_right (hw.live h))
  · -- a destruction: the frame destroyed is the one dropped
    refine ⟨htable ▸ exclusive_drop hw.exclusive i, ?_⟩
    intro h ho
    rw [htable, owned_drop hw.exclusive] at ho
    exact (hlive h).mpr ⟨hw.live h ho.1, ho.2⟩
  · rcases htable with htable | ⟨j, -, htable⟩ | ⟨i, j, -, -, -, htable⟩
    · exact hw.of_owned (htable ▸ hw.exclusive) hlive fun h ho => htable ▸ ho
    · -- the moves: what is owned after them was owned before
      exact hw.of_owned (htable ▸ exclusive_take hw.exclusive _ j) hlive fun h ho =>
        owned_of_owned_take (htable ▸ ho)
    · exact hw.of_owned (htable ▸ exclusive_take hw.exclusive i j) hlive fun h ho =>
        owned_of_owned_take (htable ▸ ho)

/-- The only faults of a step are to name an object that does not exist, and to begin on
a finished coroutine. -/
theorem step_fault (hw : Consistent w) {e : Fault} (hs : step body c w = .error e) :
    (∃ i, e = .noObject i) ∨ ∃ h, e = .resumeDone h := by
  cases c with
  | coroutine s => cases hs
  | default => cases hs
  | moveConstruct j =>
    rcases moveConstruct_cases j w with ⟨-, he⟩ | ⟨u, he, -⟩
    · cases he.symm.trans hs
      exact Or.inl ⟨j, rfl⟩
    · cases he.symm.trans hs
  | moveAssign i j =>
    rcases moveAssign_cases i j w with ⟨k, -, -, he⟩ | ⟨u, he, -⟩
    · cases he.symm.trans hs
      exact Or.inl ⟨k, rfl⟩
    · cases he.symm.trans hs
  | begin i =>
    rcases begin_cases body i w with ⟨-, he⟩ | ⟨-, he⟩ | ⟨h, e', htable, hresume, he⟩ |
      ⟨h, r, u, -, -, he⟩
    · rw [step, he] at hs
      cases hs
      exact Or.inl ⟨i, rfl⟩
    · rw [step, he] at hs
      cases hs
    · rw [step, he] at hs
      cases hs
      -- the object owns the frame, so it is live
      have hl : w.Live h := hw.live h ⟨i, htable⟩
      exact Or.inr ⟨h, (of_resume_error hl hresume).1⟩
    · rw [step, he] at hs
      cases hs
  | destroy i =>
    rcases destructor_cases w i with ⟨-, he⟩ | ⟨h, htable, hdead, he⟩ | ⟨u, he, -, -⟩
    · cases he.symm.trans hs
      exact Or.inl ⟨i, rfl⟩
    · have hl : w.Live h := hw.live h ⟨i, htable⟩
      rw [World.Live, hdead] at hl
      cases hl
    · cases he.symm.trans hs

end Steps

/-! ## Exclusive ownership -/

/-- The program, from a world with no frame and no object, ends in `w`. -/
def Ends (body : σ → Outcome σ T E) (cmds : List (Cmd σ)) (w : World σ T) : Prop :=
  run (step body) cmds World.empty = .ok w

theorem Ends.consistent {cmds : List (Cmd σ)} {w : World σ T} (h : Ends body cmds w) :
    Consistent w :=
  run_invariant (fun _ _ _ hw hs => step_consistent hw hs) Consistent.empty h

/-- **Frame ownership is exclusive**: in every reachable state no two objects hold the
same frame and no object holds a frame that was destroyed. No frame is destroyed
twice, and the only things that can end a program are naming an object that does not
exist and `begin()` on a finished coroutine; never `destroy()` or `resume()` on a
destroyed frame. -/
theorem exclusive_frames (body : σ → Outcome σ T E) (cmds : List (Cmd σ)) :
    (∀ w, Ends body cmds w →
      (∀ i j h, w.gens.cells i = some h → w.gens.cells j = some h → h ≠ nullptr → i = j) ∧
      (∀ i h, w.gens.cells i = some h → h ≠ nullptr →
        (w.frames.cells h).isSome ∧ .delete h ∉ w.frames.log) ∧
      ∀ h, w.frames.log.count (.delete h) ≤ 1) ∧
    ∀ e, run (step body) cmds (World.empty : World σ T) = .error e →
      (∃ i, e = .noObject i) ∨ ∃ h, e = .resumeDone h := by
  constructor
  · intro w hw
    have hcons := hw.consistent
    refine ⟨?_, ?_, w.frames.delete_once⟩
    · intro i j h hi hj hne
      exact hcons.exclusive i j h (table_eq_some.mpr ⟨hi, hne⟩) (table_eq_some.mpr ⟨hj, hne⟩)
    · intro i h hi hne
      have hl : w.Live h := hcons.live h ⟨i, table_eq_some.mpr ⟨hi, hne⟩⟩
      obtain ⟨f, hf⟩ := Option.isSome_iff_exists.mp hl
      exact ⟨hl, Heap.not_mem_delete_of_live hf⟩
  · intro e he
    obtain ⟨pre, c, post, w, -, hpre, hs⟩ := run_error he
    exact step_fault (Ends.consistent hpre) hs

/-! ## Orphans -/

/-- Every live frame has an owner. -/
def Kept (w : World σ T) : Prop := ∀ h, w.Live h → Owned w.table h

/-- A move assignment to another object drops the frame the target holds. -/
def Cmd.Drops (c : Cmd σ) (w : World σ T) : Prop :=
  ∃ i j h, c = .moveAssign i j ∧ i ≠ j ∧ (w.gens.cells j).isSome ∧ w.gens.cells i = some h ∧
    h ≠ nullptr

/-- **A step that drops no frame orphans none.** -/
theorem step_kept {w w' : World σ T} {c : Cmd σ} (hw : Consistent w) (hk : Kept w)
    (hs : step body c w = .ok w') (hc : ¬ c.Drops w) : Kept w' := by
  intro h hl
  rcases step_cases hs with ⟨s, -, htable, hlive⟩ | ⟨i, -, htable, hlive⟩ | ⟨hlive, htable⟩
  · rw [htable, owned_give (table_next w)]
    exact ((hlive h).mp hl).imp_right (hk h)
  · rw [htable, owned_drop hw.exclusive]
    obtain ⟨hl, hne⟩ := (hlive h).mp hl
    exact ⟨hk h hl, hne⟩
  · have ho : Owned w.table h := hk h ((hlive h).mp hl)
    rcases htable with htable | ⟨j, hne, htable⟩ | ⟨i, j, hcmd, hij, hj, htable⟩
    · rwa [htable]
    · -- a new object that takes over owned nothing
      rw [htable, owned_take hw.exclusive hne, table_next]
      exact ⟨ho, fun hc => nomatch hc⟩
    · -- `operator=`: what the target owned is lost, and by hypothesis that was nothing
      rw [htable, owned_take hw.exclusive hij]
      exact ⟨ho, fun hi => hc ⟨i, j, h, hcmd, hij, hj, table_eq_some.mp hi⟩⟩

/-- A step that drops a frame goes through, and leaves the frame live without an owner. -/
theorem step_not_kept (body : σ → Outcome σ T E) {w : World σ T} {c : Cmd σ}
    (hw : Consistent w) (hc : c.Drops w) : ∃ w', step body c w = .ok w' ∧ ¬ Kept w' := by
  obtain ⟨i, j, h, rfl, hij, hj, hi⟩ := hc
  have hi' : w.table i = some h := table_eq_some.mpr hi
  rcases moveAssign_cases i j w with ⟨k, hk, hnone, -⟩ | ⟨w', hs, -, hframes, htable⟩
  · rcases hk with rfl | rfl
    · cases hnone.symm.trans hi.1
    · rw [hnone] at hj
      cases hj
  · refine ⟨w', hs, ?_⟩
    rcases htable with ⟨heq, -⟩ | ⟨-, htable⟩
    · exact absurd heq hij
    · intro hk
      have hl : w'.Live h := by
        rw [World.Live, hframes]
        exact hw.live h ⟨i, hi'⟩
      have ho : Owned w'.table h := hk h hl
      rw [htable, owned_take hw.exclusive hij] at ho
      exact ho.2 hi'

/-- No frame is ever orphaned: in every state the program reaches, frames that have not
been destroyed are held by an object, so that all are destroyed once all objects are. -/
def NoOrphans (body : σ → Outcome σ T E) (cmds : List (Cmd σ)) : Prop :=
  ∀ pre post w, cmds = pre ++ post → Ends body pre w →
    (∀ h, (w.frames.cells h).isSome → ∃ i, w.gens.cells i = some h) ∧
    ((∀ i, w.gens.cells i = none) → ∀ h, .new h ∈ w.frames.log → .delete h ∈ w.frames.log)

/-- Being kept, in terms of the handles. -/
theorem kept_iff {w : World σ T} :
    Kept w ↔ ∀ h, (w.frames.cells h).isSome → ∃ i, w.gens.cells i = some h := by
  constructor
  · intro hk h hl
    obtain ⟨i, hi⟩ := hk h hl
    exact ⟨i, (table_eq_some.mp hi).1⟩
  · intro hk h hl
    obtain ⟨i, hi⟩ := hk h hl
    exact ⟨i, table_eq_some.mpr ⟨hi, hl.ne_null⟩⟩

/-- A program that drops no frame keeps all of them. -/
theorem Ends.kept {cmds : List (Cmd σ)}
    (hdrops : ∀ pre c post w, cmds = pre ++ c :: post → Ends body pre w → ¬ c.Drops w)
    {pre post : List (Cmd σ)} (hcmds : cmds = pre ++ post) {w : World σ T}
    (hw : Ends body pre w) : Kept w := by
  induction pre using List.reverseRecOn generalizing post w with
  | nil =>
    cases hw
    exact fun h hl => nomatch hl
  | append_singleton pre c ih =>
    obtain ⟨u, hu, hs⟩ := (run_snoc_ok _).mp hw
    have hcmds' : cmds = pre ++ c :: post := by
      rw [hcmds, List.append_assoc]
      rfl
    exact step_kept (Ends.consistent hu) (ih hcmds' hu) hs (hdrops pre c post u hcmds' hu)

theorem not_noOrphans_of_drops {cmds pre post : List (Cmd σ)} {c : Cmd σ} {w : World σ T}
    (hcmds : cmds = pre ++ c :: post) (hw : Ends body pre w) (hc : c.Drops w) :
    ¬ NoOrphans body cmds := by
  intro h
  obtain ⟨w', hs, hlost⟩ := step_not_kept body hw.consistent hc
  have hend : Ends body (pre ++ [c]) w' := (run_snoc_ok _).mpr ⟨w, hw, hs⟩
  have hcmds' : cmds = pre ++ [c] ++ post := by
    rw [hcmds, List.append_assoc]
    rfl
  exact hlost (kept_iff.mpr (h _ _ _ hcmds' hend).1)

/-- **No frame is orphaned iff no move assignment drops one.** -/
theorem noOrphans_iff (body : σ → Outcome σ T E) (cmds : List (Cmd σ)) :
    NoOrphans body cmds ↔
      ∀ pre c post w, cmds = pre ++ c :: post → Ends body pre w → ¬ c.Drops w := by
  constructor
  · intro h pre c post w hcmds hw hc
    exact not_noOrphans_of_drops hcmds hw hc h
  · intro h pre post w hcmds hw
    have hk : Kept w := hw.kept h hcmds
    refine ⟨kept_iff.mp hk, ?_⟩
    intro hnone a ha
    -- a live frame would have an owner, and no object is left
    have hdead : w.frames.cells a = none := by
      cases hc : w.frames.cells a with
      | none => rfl
      | some f =>
        obtain ⟨i, hi⟩ := kept_iff.mp hk a (by rw [hc]; rfl)
        rw [hnone i] at hi
        cases hi
    exact List.count_pos_iff.mp (Heap.delete_count_of_dead ha hdead ▸ Nat.one_pos)

/-- **Assigning over a `Generator` that holds a frame**: the frame of the first of two
generators is lost when the second is moved into it. -/
theorem orphan_of_moveAssign :
    ¬ NoOrphans (fun _ : Unit => (.ret : Outcome Unit Nat Unit))
      [.coroutine (), .coroutine (), .moveAssign 1 2, .destroy 1, .destroy 2] := by
  have hend : Ends (fun _ : Unit => (.ret : Outcome Unit Nat Unit))
      [.coroutine (), .coroutine ()] _ := rfl
  exact not_noOrphans_of_drops (c := .moveAssign 1 2) rfl hend
    ⟨1, 2, 1, rfl, by decide, rfl, rfl, by decide⟩

end BstGenerator.Generator
