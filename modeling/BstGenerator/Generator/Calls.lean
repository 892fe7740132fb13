import BstGenerator.Generator.Frames

/-!
# `begin()` and `operator++` on one object

Whether `resume()` is called on a coroutine that can be resumed is guarded in two
places. `operator++` relies on the caller having compared the iterator with `end()`,
which asks both for a handle and for `done()`; `begin()` asks for a handle only
(test_yield.cpp:103–108). `safe_iff` says what follows: any sequence of calls is safe
iff no `begin()` finds the coroutine at its final suspension point, and so a second
loop over a generator that has run to its end is not (`second_loop_resumes_done`).
-/

namespace BstGenerator.Generator

open Machine Memory

variable {σ T E : Type} {body : σ → Outcome σ T E}

/-- A call on an object or on one of its iterators. -/
inductive Call
  | begin
  /-- `operator++` on the iterator the `k`-th call of `begin()` returned, made only if
  that iterator compares unequal to `end()`. -/
  | next (k : Nat)
  deriving DecidableEq, Repr

/-- Execute a call on the object `i`, `its` being the iterators obtained so far. What a
call throws is caught. -/
def callStep (body : σ → Outcome σ T E) (i : Addr) :
    Call → List Iter × World σ T → Except Fault (List Iter × World σ T)
  | .begin, (its, w) => do
    match ← Generator.begin body i w with
    | (.ok it, w) => return (its ++ [it], w)
    | (.error _, w) => return (its, w)
  | .next k, (its, w) =>
    match its[k]? with
    | some it => do
      if ← it.atEnd w then
        return (its, w)
      else
        let (_, w) ← it.next body w
        return (its, w)
    | none => .ok (its, w)

/-- The coroutine is at its final suspension point. -/
def World.Done (w : World σ T) (h : Addr) : Prop :=
  ∃ f, w.frames.cells h = some f ∧ f.body = none

/-- The object `i` holds the handle `h` of a live frame or the null handle, and the
iterators obtained from it hold the same. -/
structure Holding (i h : Addr) (r : List Iter × World σ T) : Prop where
  handle : r.2.gens.cells i = some h
  live : h ≠ nullptr → r.2.Live h
  iters : ∀ it ∈ r.1, it = ⟨h⟩

/-- Where resuming is possible the coroutine is not at its final suspension point. -/
theorem not_done_of_body {w : World σ T} {h : Addr} {f : Frame σ T} {s : σ}
    (hf : w.frames.cells h = some f) (hb : f.body = some s) : ¬ w.Done h := by
  rintro ⟨g, hg, hdone⟩
  obtain rfl : f = g := Option.some.inj (hf.symm.trans hg)
  rw [hb] at hdone
  cases hdone

section Calls

variable {i h : Addr} {its : List Iter} {w : World σ T}

/-- After a call that touches no object the handles are as before. -/
theorem Holding.of_gens (hr : Holding i h (its, w)) {w' : World σ T}
    (hgens : w'.gens = w.gens) (hlive : ∀ k, w'.Live k ↔ w.Live k) :
    Holding i h (its, w') where
  handle := (congrArg (fun g => g.cells i) hgens).trans hr.handle
  live := fun hne => (hlive h).mpr (hr.live hne)
  iters := hr.iters

theorem Holding.snoc (hr : Holding i h (its, w)) : Holding i h (its ++ [⟨h⟩], w) where
  handle := hr.handle
  live := hr.live
  iters := by
    intro it hit
    rcases List.mem_append.mp hit with hit | hit
    · exact hr.iters it hit
    · exact List.mem_singleton.mp hit

/-- `begin()` on the object: its only fault is to find the coroutine done. -/
theorem callStep_begin (body : σ → Outcome σ T E) (hr : Holding i h (its, w)) :
    (∃ r', callStep body i .begin (its, w) = .ok r' ∧ Holding i h r' ∧ ¬ w.Done h) ∨
      (w.Done h ∧ callStep body i .begin (its, w) = .error (.resumeDone h)) := by
  have htable {k : Addr} (hk : w.table i = some k) : k = h ∧ h ≠ nullptr := by
    obtain ⟨hcell, hne⟩ := table_eq_some.mp hk
    obtain rfl : k = h := Option.some.inj (hcell.symm.trans hr.handle)
    exact ⟨rfl, hne⟩
  rcases begin_cases body i w with ⟨hnone, -⟩ | ⟨hnull, he⟩ | ⟨k, e, hk, hresume, he⟩ |
    ⟨k, r, w', hk, hresume, he⟩
  · cases hnone.symm.trans hr.handle
  · -- an empty object: nothing is resumed
    obtain rfl : nullptr = h := Option.some.inj (hnull.symm.trans hr.handle)
    refine Or.inl ⟨(its ++ [⟨nullptr⟩], w), ?_, hr.snoc, ?_⟩
    · simp only [callStep, he, ok_bind, pure_eq_ok]
    · rintro ⟨f, hf, -⟩
      exact Heap.ne_nullptr_of_live hf rfl
  · obtain ⟨rfl, hne⟩ := htable hk
    obtain ⟨rfl, hdone⟩ := of_resume_error (hr.live hne) hresume
    refine Or.inr ⟨hdone, ?_⟩
    simp only [callStep, he, error_bind]
  · obtain ⟨rfl, hne⟩ := htable hk
    obtain ⟨⟨f, s, hf, hb⟩, hgens, hlive⟩ := of_resume_ok hresume
    left
    cases r with
    | ok u =>
      refine ⟨(its ++ [⟨k⟩], w'), ?_, (hr.of_gens hgens hlive).snoc, not_done_of_body hf hb⟩
      simp only [callStep, he, ok_bind, Except.map, pure_eq_ok]
    | error e =>
      refine ⟨(its, w'), ?_, hr.of_gens hgens hlive, not_done_of_body hf hb⟩
      simp only [callStep, he, ok_bind, Except.map, pure_eq_ok]

/-- `operator++` behind the comparison with `end()` never faults. -/
theorem callStep_next (hr : Holding i h (its, w)) (k : Nat) :
    ∃ r', callStep body i (.next k) (its, w) = .ok r' ∧ Holding i h r' := by
  cases hk : its[k]? with
  | none => exact ⟨(its, w), by simp only [callStep, hk], hr⟩
  | some it =>
    obtain rfl : it = ⟨h⟩ := hr.iters it (List.mem_of_getElem? hk)
    -- the iterator of an empty object is `end()`; any other one asks `done()` before it resumes
    by_cases hnull : h = nullptr
    · refine ⟨(its, w), ?_, hr⟩
      simp only [callStep, hk, Iter.atEnd, if_pos hnull, ok_bind, if_true, pure_eq_ok]
    · obtain ⟨f, hf⟩ : ∃ f, w.frames.cells h = some f :=
        Option.isSome_iff_exists.mp (hr.live hnull)
      cases hb : f.body with
      | none =>
        refine ⟨(its, w), ?_, hr⟩
        simp only [callStep, hk, Iter.atEnd, if_neg hnull, hf, hb, Option.isNone_none, ok_bind,
          if_true, pure_eq_ok]
      | some s =>
        obtain ⟨r, w', hresume, hgens, hlive⟩ := resume_ok body hf hb
        refine ⟨(its, w'), ?_, hr.of_gens hgens hlive⟩
        simp only [callStep, hk, Iter.atEnd, if_neg hnull, hf, hb, Option.isNone_some, ok_bind,
          Bool.false_eq_true, if_false, Iter.next, hresume, pure_eq_ok]

end Calls

/-- **A call keeps the handles as they are**, and its only fault is a `begin()` at the
final suspension point. -/
theorem callStep_cases {i h : Addr} {r : List Iter × World σ T} (hr : Holding i h r)
    (c : Call) :
    (∃ r', callStep body i c r = .ok r' ∧ Holding i h r' ∧ ¬ (c = .begin ∧ r.2.Done h)) ∨
      (c = .begin ∧ r.2.Done h ∧ callStep body i c r = .error (.resumeDone h)) := by
  obtain ⟨its, w⟩ := r
  cases c with
  | begin =>
    rcases callStep_begin body hr with ⟨r', he, hr', hdone⟩ | ⟨hdone, he⟩
    · exact Or.inl ⟨r', he, hr', fun hc => hdone hc.2⟩
    · exact Or.inr ⟨rfl, hdone, he⟩
  | next k =>
    obtain ⟨r', he, hr'⟩ := callStep_next hr k
    exact Or.inl ⟨r', he, hr', fun hc => nomatch hc.1⟩

/-- The calls resume nothing but a coroutine that can be resumed: resuming anything else
is a fault. -/
def Safe (body : σ → Outcome σ T E) (i : Addr) (calls : List Call) (w : World σ T) : Prop :=
  ∃ r, run (callStep body i) calls ([], w) = .ok r

/-- The handle of an object in a reachable state. -/
theorem Ends.holding {cmds : List (Cmd σ)} {w : World σ T} (hw : Ends body cmds w) {i h : Addr}
    (hi : w.gens.cells i = some h) : Holding i h (([] : List Iter), w) where
  handle := hi
  live := fun hne => hw.consistent.live h ⟨i, table_eq_some.mpr ⟨hi, hne⟩⟩
  iters := fun _ hit => nomatch hit

/-- **Calls on an object are safe iff no `begin()` finds its coroutine at the final
suspension point.** The object may be fresh, empty, moved from, or have been run any
way. -/
theorem safe_iff (body : σ → Outcome σ T E) (cmds : List (Cmd σ)) (w : World σ T)
    (hw : Ends body cmds w) (i h : Addr) (hi : w.gens.cells i = some h) (calls : List Call) :
    Safe body i calls w ↔
      ∀ pre post r, calls = pre ++ .begin :: post →
        run (callStep body i) pre ([], w) = .ok r → ¬ r.2.Done h := by
  have hstart : Holding i h (([] : List Iter), w) := hw.holding hi
  have hkeep {cs : List Call} {r : List Iter × World σ T}
      (hr : run (callStep body i) cs ([], w) = .ok r) : Holding i h r := by
    refine run_invariant (fun c r r' hrc hs => ?_) hstart hr
    rcases callStep_cases hrc c with ⟨r'', he, hr'', -⟩ | ⟨-, -, he⟩
    · cases he.symm.trans hs
      exact hr''
    · cases he.symm.trans hs
  constructor
  · -- a `begin()` at the final suspension point is the fault
    rintro ⟨r', hr'⟩ pre post r rfl hr hdone
    obtain ⟨t, ht, hpost⟩ := (run_append_ok _).mp hr'
    obtain rfl : r = t := Except.ok.inj (hr.symm.trans ht)
    obtain ⟨u, hu, -⟩ := (run_cons_ok _).mp hpost
    rcases callStep_cases (hkeep hr) .begin with ⟨-, -, -, hne⟩ | ⟨-, -, he⟩
    · exact hne ⟨rfl, hdone⟩
    · cases he.symm.trans hu
  · -- a run that fails fails at such a `begin()`
    intro hsafe
    cases hrun : run (callStep body i) calls ([], w) with
    | ok r => exact ⟨r, hrun⟩
    | error e =>
      obtain ⟨pre, c, post, r, rfl, hr, he⟩ := run_error hrun
      rcases callStep_cases (hkeep hr) c with ⟨r', he', -, -⟩ | ⟨rfl, hdone, -⟩
      · cases he'.symm.trans he
      · exact absurd hdone (hsafe pre post r rfl hr)

/-- A coroutine that counts down. -/
def countdown : Nat → Outcome Nat Nat Unit
  | 0 => .ret
  | n + 1 => .yield n n

/-- One loop over two elements, left before the end, and the beginning of another. -/
theorem safe_two_loops :
    Safe countdown 1 [.begin, .next 0, .begin] (coroutine 2 World.empty) := by
  refine (safe_iff countdown [.coroutine 2] _ rfl 1 1 rfl _).mpr ?_
  rintro pre post r hcalls hr ⟨f, hf, hdone⟩
  -- a `begin()` is the first call or the last
  rcases pre with - | ⟨c, - | ⟨d, - | ⟨e, pre⟩⟩⟩
  · cases hr
    cases hf
    cases hdone
  · cases hcalls
  · cases hcalls
    cases hr
    cases hf
    cases hdone
  · have hlen := congrArg List.length hcalls
    simp at hlen

/-- **A second loop over a generator that has run to its end** resumes a coroutine at its
final suspension point. -/
theorem second_loop_resumes_done :
    ¬ Safe countdown 1 [.begin, .next 0, .begin] (coroutine 1 World.empty) := by
  rintro ⟨r, hr⟩
  have he : run (callStep countdown 1) [.begin, .next 0, .begin]
      ([], coroutine 1 World.empty) = .error (.resumeDone 1) := rfl
  cases he.symm.trans hr

end BstGenerator.Generator
