import BstGenerator.Generator.Calls
import BstGenerator.Machine.Fuel

/-!
# Range-for loops over a generator

A coroutine that yields finitely many values and then returns or throws is a `Script`;
that any other body yields the same values is said by `Yields`. Consuming it loop by loop
is, seen from outside, cutting a list into pieces: each loop takes elements until it
breaks off, the next one goes on behind it (`takeLoop`, `takeLoops`).

- `resumeLoop_spec`: resuming the body and going on with the loop does what `takeLoop`
  does. The next element is never behind the iterator but always ahead of it, whether
  `begin()` or `operator++` does the resuming.
- `consume_refines`: **loops and moves in any number** do what `takeLoops` does.
- `Loop.BrokenOff`, `Finished`: what the loops say of where they were left.
- `consume_spec`: what all this means for the elements seen.
-/

namespace BstGenerator.Generator

open Machine Memory

/-! ## The model -/

/-- How a loop was left. -/
inductive Exit (E : Type)
  | ranToEnd
  | broke
  | threw (e : E)
  deriving DecidableEq, Repr

/-- A range-for loop and the number of move constructions of the generator before it.
The loop breaks off as `brk` says of the elements its body has seen. -/
structure Loop (T : Type) where
  moves : Nat
  brk : List T → Bool

section Model

variable {σ T E : Type}

/-- The loop on the iterator `begin()` returned: compare with `end()`, run the loop body
on `*it`, break off or go on with `++it`. -/
def forLoop (body : σ → Outcome σ T E) (brk : List T → Bool) (it : Iter) :
    Nat → List T → World σ T → Except Fault (List T × Exit E × World σ T)
  | 0, _, _ => .error .outOfFuel
  | fuel + 1, seen, w => do
    if ← it.atEnd w then
      return (seen, .ranToEnd, w)
    else
      let x ← it.deref w
      let seen := seen ++ [x]
      if brk seen then
        return (seen, .broke, w)
      else
        match ← it.next body w with
        | (.ok (), w) => forLoop body brk it fuel seen w
        | (.error e, w) => return (seen, .threw e, w)

/-- A range-for loop over the object `i`: the elements its body saw, and how it was
left. -/
def rangeFor (body : σ → Outcome σ T E) (fuel : Nat) (brk : List T → Bool) (i : Addr)
    (w : World σ T) : Except Fault (List T × Exit E × World σ T) := do
  match ← begin body i w with
  | (.ok it, w) => forLoop body brk it fuel [] w
  | (.error e, w) => return ([], .threw e, w)

/-- Move the generator into a new object, so many times over. -/
def moves : Nat → Addr → World σ T → Except Fault (Addr × World σ T)
  | 0, i, w => .ok (i, w)
  | n + 1, i, w => do
    let j := w.gens.next
    let w ← moveConstruct i w
    moves n j w

/-- Consume a generator by one loop after another, up to the first that is not broken
off: the elements each of them saw, and how the last was left. -/
def consume (body : σ → Outcome σ T E) (fuel : Nat) :
    List (Loop T) → Addr → World σ T → Except Fault (List (List T) × Exit E × World σ T)
  | [], _, w => .ok ([], .broke, w)
  | l :: ls, i, w => do
    let (i, w) ← moves l.moves i w
    let (seen, exit, w) ← rangeFor body fuel l.brk i w
    match exit with
    | .broke =>
      let (rest, exit, w) ← consume body fuel ls i w
      return (seen :: rest, exit, w)
    | exit => return ([seen], exit, w)

end Model

/-! ## Scripts -/

/-- The values still to be yielded, and the exception thrown in the end, if any. -/
structure Script (T E : Type) where
  yields : List T
  ending : Option E
  deriving DecidableEq, Repr

variable {T E : Type}

/-- A script as a coroutine body. -/
def Script.body : Script T E → Outcome (Script T E) T E
  | ⟨v :: vs, ending⟩ => .yield v ⟨vs, ending⟩
  | ⟨[], none⟩ => .ret
  | ⟨[], some e⟩ => .throw e

/-- The loop that breaks off as `brk` says, on a list: what its body sees, and the rest of
the list if it was broken off. -/
def takeLoop (brk : List T → Bool) : List T → List T → List T × Option (List T)
  | seen, [] => (seen, none)
  | seen, x :: xs =>
    if brk (seen ++ [x]) then (seen ++ [x], some xs) else takeLoop brk (seen ++ [x]) xs

/-- A loop that is never broken off sees everything. -/
theorem takeLoop_never (seen ys : List T) :
    takeLoop (fun _ => false) seen ys = (seen ++ ys, none) := by
  induction ys generalizing seen with
  | nil => rw [takeLoop, List.append_nil]
  | cons y ys ih => rw [takeLoop, if_neg Bool.false_ne_true, ih, List.append_assoc,
      List.singleton_append]

/-- One loop after another, each on what the one before left. -/
def takeLoops : List (Loop T) → List T → List (List T) × Option (List T)
  | [], ys => ([], some ys)
  | l :: ls, ys =>
    match takeLoop l.brk [] ys with
    | (seen, some rest) => (seen :: (takeLoops ls rest).1, (takeLoops ls rest).2)
    | (seen, none) => ([seen], none)

/-- A loop loses and repeats nothing. -/
theorem takeLoop_append (brk : List T → Bool) (seen ys : List T) :
    (takeLoop brk seen ys).1 ++ (takeLoop brk seen ys).2.getD [] = seen ++ ys := by
  induction ys generalizing seen with
  | nil => rfl
  | cons x xs ih =>
    rw [takeLoop]
    split
    · simp
    · rw [ih]
      simp

/-- Nor do several of them. -/
theorem takeLoops_append (ls : List (Loop T)) (ys : List T) :
    (takeLoops ls ys).1.flatten ++ (takeLoops ls ys).2.getD [] = ys := by
  induction ls generalizing ys with
  | nil => rfl
  | cons l ls ih =>
    have hl := takeLoop_append l.brk [] ys
    rw [takeLoops]
    split
    next seen rest heq =>
      rw [heq] at hl
      simp only [List.flatten_cons, List.append_assoc, ih]
      exact hl
    next seen heq =>
      rw [heq] at hl
      simpa using hl

/-- What a loop has seen it keeps. -/
theorem prefix_takeLoop (brk : List T → Bool) (seen ys : List T) :
    seen <+: (takeLoop brk seen ys).1 := by
  induction ys generalizing seen with
  | nil => exact List.prefix_refl seen
  | cons x xs ih =>
    rw [takeLoop]
    split
    · exact List.prefix_append ..
    · exact (List.prefix_append ..).trans (ih _)

/-- A loop that leaves something was broken off behind an element. -/
theorem takeLoop_breaks {brk : List T → Bool} {seen ys rest : List T}
    (h : (takeLoop brk seen ys).2 = some rest) :
    seen.length < (takeLoop brk seen ys).1.length ∧
      brk (takeLoop brk seen ys).1 = true := by
  induction ys generalizing seen with
  | nil => cases h
  | cons x xs ih =>
    rw [takeLoop] at h ⊢
    split at h
    next hbrk =>
      rw [if_pos hbrk]
      refine ⟨?_, hbrk⟩
      rw [List.length_append]
      exact Nat.lt_succ_self _
    next hbrk =>
      rw [if_neg hbrk]
      obtain ⟨hlt, hbrk'⟩ := ih h
      rw [List.length_append] at hlt
      exact ⟨Nat.lt_of_succ_lt hlt, hbrk'⟩

/-- Behind every element but the one it was broken off at, a loop goes on. -/
theorem takeLoop_goes_on {brk : List T → Bool} {seen ys : List T} {k : Nat}
    (hk : seen.length < k) (hle : k ≤ (takeLoop brk seen ys).1.length)
    (hlast : (takeLoop brk seen ys).2 = none ∨ k < (takeLoop brk seen ys).1.length) :
    brk ((takeLoop brk seen ys).1.take k) = false := by
  induction ys generalizing seen with
  | nil => exact absurd hle (Nat.not_le_of_gt hk)
  | cons x xs ih =>
    rw [takeLoop] at hle hlast ⊢
    split at hle
    next hbrk =>
      rw [if_pos hbrk] at hlast
      have hlt := hlast.resolve_left (Option.some_ne_none xs)
      rw [List.length_append] at hlt
      exact absurd hk (Nat.not_lt_of_le (Nat.le_of_lt_succ hlt))
    next hbrk =>
      rw [if_neg hbrk] at hlast ⊢
      -- `x` is the `k`-th element, or comes before it
      rcases Nat.eq_or_lt_of_le hk with hx | hx
      · obtain ⟨zs, hzs⟩ := prefix_takeLoop brk (seen ++ [x]) xs
        have htake : (takeLoop brk (seen ++ [x]) xs).1.take k = seen ++ [x] := by
          rw [← hzs]
          refine List.take_left' ?_
          rw [← hx, List.length_append, List.length_singleton]
        rw [htake]
        exact Bool.eq_false_iff.mpr hbrk
      · refine ih ?_ hle hlast
        rw [List.length_append]
        exact hx

/-! ## What the loops say of what they have seen -/

/-- The loop was broken off behind its last element, and not before. -/
structure Loop.BrokenOff (l : Loop T) (seen : List T) : Prop where
  nonempty : seen ≠ []
  breaks : l.brk seen = true
  goesOn (k : Nat) (hk : 0 < k) (hlt : k < seen.length) : l.brk (seen.take k) = false

/-- The loop was not broken off. -/
def Loop.Finished (l : Loop T) (seen : List T) : Prop :=
  ∀ k, 0 < k → k ≤ seen.length → l.brk (seen.take k) = false

/-- Every loop was broken off but the last that was entered. -/
inductive Finished : List (Loop T) → List (List T) → Prop
  | last {l : Loop T} {ls : List (Loop T)} {seen : List T} (h : l.Finished seen) :
    Finished (l :: ls) [seen]
  | cons {l : Loop T} {ls : List (Loop T)} {seen : List T} {seens : List (List T)}
    (h : l.BrokenOff seen) (hs : Finished ls seens) : Finished (l :: ls) (seen :: seens)

/-- A loop that leaves something was broken off. -/
theorem brokenOff_takeLoop {l : Loop T} {ys rest : List T}
    (h : (takeLoop l.brk [] ys).2 = some rest) : l.BrokenOff (takeLoop l.brk [] ys).1 where
  nonempty := List.length_pos_iff.mp (takeLoop_breaks h).1
  breaks := (takeLoop_breaks h).2
  goesOn _ hk hlt := takeLoop_goes_on hk (Nat.le_of_lt hlt) (Or.inr hlt)

/-- A loop that leaves nothing was not. -/
theorem finished_takeLoop {l : Loop T} {ys : List T} (h : (takeLoop l.brk [] ys).2 = none) :
    l.Finished (takeLoop l.brk [] ys).1 :=
  fun _ hk hle => takeLoop_goes_on hk hle (Or.inl h)

/-- Loops that leave something were all broken off. -/
theorem brokenOff_takeLoops {ls : List (Loop T)} {ys rest : List T}
    (h : (takeLoops ls ys).2 = some rest) :
    List.Forall₂ Loop.BrokenOff ls (takeLoops ls ys).1 := by
  induction ls generalizing ys with
  | nil => exact List.Forall₂.nil
  | cons l ls ih =>
    rw [takeLoops] at h ⊢
    split
    next seen rest' heq =>
      rw [heq] at h
      have hl := brokenOff_takeLoop (congrArg Prod.snd heq)
      rw [heq] at hl
      exact List.Forall₂.cons hl (ih h)
    next seen heq =>
      rw [heq] at h
      cases h

/-- Of loops that leave nothing one came to the end. -/
theorem finished_takeLoops {ls : List (Loop T)} {ys : List T}
    (h : (takeLoops ls ys).2 = none) : Finished ls (takeLoops ls ys).1 := by
  induction ls generalizing ys with
  | nil => cases h
  | cons l ls ih =>
    rw [takeLoops] at h ⊢
    split
    next seen rest' heq =>
      rw [heq] at h
      have hl := brokenOff_takeLoop (congrArg Prod.snd heq)
      rw [heq] at hl
      exact Finished.cons hl (ih h)
    next seen heq =>
      have hl := finished_takeLoop (congrArg Prod.snd heq)
      rw [heq] at hl
      exact Finished.last hl

/-! ## How a loop is left -/

/-- How a loop was left that left `rest`, or ran into the end of the script. -/
def exitOf (ending : Option E) (rest : Option (List T)) : Exit E :=
  match rest, ending with
  | some _, _ => .broke
  | none, none => .ranToEnd
  | none, some e => .threw e

/-- The coroutine after a loop: suspended with `rest` still to be yielded, or done. -/
def After (w : World (Script T E) T) (h : Addr) (ending : Option E) :
    Option (List T) → Prop
  | some rest => ∃ v, w.frames.cells h = some ⟨some ⟨rest, ending⟩, v⟩
  | none => w.Done h

/-- Resume the body and go on with the loop, as both `begin()` and `operator++` do. -/
def resumeLoop {σ : Type} (body : σ → Outcome σ T E) (brk : List T → Bool) (h : Addr)
    (fuel : Nat) (seen : List T) (w : World σ T) :
    Except Fault (List T × Exit E × World σ T) := do
  match ← resume body h w with
  | (.ok (), w) => forLoop body brk ⟨h⟩ fuel seen w
  | (.error e, w) => return (seen, .threw e, w)

/-! ## Loops over bodies that come to an end -/

/-- How a body comes to its end. -/
def Outcome.ended {σ : Type} : Option E → Outcome σ T E
  | none => .ret
  | some e => .throw e

/-- From a state on, the body yields a list of values and then ends as `ending` says. -/
inductive Yields {σ : Type} (body : σ → Outcome σ T E) (ending : Option E) :
    σ → List T → Prop
  | ended {s : σ} (h : body s = .ended ending) : Yields body ending s []
  | yield {s s' : σ} {v : T} {vs : List T} (h : body s = .yield v s')
      (hs : Yields body ending s' vs) : Yields body ending s (v :: vs)

/-- The coroutine after a loop: suspended where `rest` is still to be yielded, or done. -/
def Left {σ : Type} (body : σ → Outcome σ T E) (ending : Option E) (w : World σ T)
    (h : Addr) : Option (List T) → Prop
  | some rest => ∃ s v, Yields body ending s rest ∧ w.frames.cells h = some ⟨some s, v⟩
  | none => w.Done h

section Loops

variable {σ : Type} {body : σ → Outcome σ T E} {h : Addr} {w : World σ T}
  {brk : List T → Bool} {ending : Option E} {s : σ}

/-- One round: the value of the last `co_yield` is the next element the loop body sees. -/
theorem forLoop_suspended {v : T}
    (hf : w.frames.cells h = some ⟨some s, some v⟩) (fuel : Nat) (seen : List T) :
    forLoop body brk ⟨h⟩ (fuel + 1) seen w =
      if brk (seen ++ [v]) then .ok (seen ++ [v], .broke, w)
      else resumeLoop body brk h fuel (seen ++ [v]) w := by
  have hnull : h ≠ nullptr := Heap.ne_nullptr_of_live hf
  have hend : (Iter.mk h).atEnd w = .ok false := by
    rw [Iter.atEnd, if_neg hnull]
    simp only [hf, Option.isNone_some]
  have hderef : (Iter.mk h).deref w = .ok v := by
    simp only [Iter.deref, hf]
  rw [forLoop, hend, ok_bind, if_neg Bool.false_ne_true, hderef, ok_bind]
  by_cases hbrk : brk (seen ++ [v])
  · rw [if_pos hbrk, if_pos hbrk, pure_eq_ok]
  · rw [if_neg hbrk, if_neg hbrk, resumeLoop, Iter.next]
    cases resume body h w with
    | error e => rfl
    | ok p =>
      obtain ⟨r, u⟩ := p
      cases r <;> rfl

/-- At the final suspension point the loop has come to its end. -/
theorem forLoop_done (hdone : w.Done h) (fuel : Nat) (seen : List T) :
    forLoop body brk ⟨h⟩ (fuel + 1) seen w = .ok (seen, .ranToEnd, w) := by
  obtain ⟨f, hf, hb⟩ := hdone
  have hend : (Iter.mk h).atEnd w = .ok true := by
    rw [Iter.atEnd, if_neg (Heap.ne_nullptr_of_live hf)]
    simp only [hf, hb, Option.isNone_none]
  rw [forLoop, hend, ok_bind, if_pos rfl, pure_eq_ok]

/-- A body that is over returns or throws, and is done either way. -/
theorem resumeLoop_ended (brk : List T → Bool) {v : Option T} (seen : List T)
    (hs : body s = .ended ending) (hf : w.frames.cells h = some ⟨some s, v⟩) :
    ∃ w', (∀ fuel, 0 < fuel →
        resumeLoop body brk h fuel seen w =
          .ok (seen, exitOf ending (none : Option (List T)), w')) ∧
      w'.gens = w.gens ∧ w'.Done h := by
  have hdone (u : World σ T) (hu : u.frames = w.frames.write h ⟨none, v⟩) : u.Done h := by
    refine ⟨⟨none, v⟩, ?_, rfl⟩
    rw [hu, Heap.write_cells hf, if_pos rfl]
  cases ending with
  | none =>
    obtain ⟨u, hresume, hgens, hu⟩ : ∃ u, resume body h w = .ok (.ok (), u) ∧
        u.gens = w.gens ∧ u.frames = w.frames.write h ⟨none, v⟩ :=
      ⟨_, resume_ret hf rfl hs, rfl, rfl⟩
    refine ⟨u, ?_, hgens, hdone u hu⟩
    intro fuel hfuel
    obtain ⟨fuel, rfl⟩ := Nat.exists_eq_succ_of_ne_zero (Nat.ne_of_gt hfuel)
    rw [resumeLoop, hresume, ok_bind]
    exact forLoop_done (hdone u hu) fuel seen
  | some e =>
    obtain ⟨u, hresume, hgens, hu⟩ : ∃ u, resume body h w = .ok (.error e, u) ∧
        u.gens = w.gens ∧ u.frames = w.frames.write h ⟨none, v⟩ :=
      ⟨_, resume_throw hf rfl hs, rfl, rfl⟩
    refine ⟨u, ?_, hgens, hdone u hu⟩
    intro fuel _
    rw [resumeLoop, hresume, ok_bind]
    rfl

/-- A body that is not over yields its next value, which the loop body sees. -/
theorem resumeLoop_round (brk : List T → Bool) {s' : σ} {y : T} {v : Option T}
    (hs : body s = .yield y s') (hf : w.frames.cells h = some ⟨some s, v⟩) :
    ∃ u, u.gens = w.gens ∧ u.frames.cells h = some ⟨some s', some y⟩ ∧
      ∀ fuel seen, resumeLoop body brk h (fuel + 1) seen w =
        if brk (seen ++ [y]) then .ok (seen ++ [y], .broke, u)
        else resumeLoop body brk h fuel (seen ++ [y]) u := by
  obtain ⟨u, hresume, hgens, hcell⟩ : ∃ u, resume body h w = .ok (.ok (), u) ∧
      u.gens = w.gens ∧ u.frames.cells h = some ⟨some s', some y⟩ :=
    ⟨_, resume_yield hf rfl hs, rfl, (Heap.write_cells hf _ h).trans (if_pos rfl)⟩
  refine ⟨u, hgens, hcell, ?_⟩
  intro fuel seen
  rw [resumeLoop, hresume, ok_bind]
  exact forLoop_suspended hcell fuel seen

/-- **Resuming and looping is `takeLoop`** on what the body has still to yield. -/
theorem resumeLoop_spec (brk : List T → Bool) {ys : List T} {v : Option T} (seen : List T)
    (hs : Yields body ending s ys) (hf : w.frames.cells h = some ⟨some s, v⟩) :
    ∃ w', (∀ fuel, ys.length < fuel → resumeLoop body brk h fuel seen w =
        .ok ((takeLoop brk seen ys).1, exitOf ending (takeLoop brk seen ys).2, w')) ∧
      w'.gens = w.gens ∧ Left body ending w' h (takeLoop brk seen ys).2 := by
  induction hs generalizing seen w v with
  | ended hs => exact resumeLoop_ended brk seen hs hf
  | @yield s s' y ys hs hrest ih =>
    obtain ⟨u, hgens, hcell, hround⟩ := resumeLoop_round brk hs hf
    rw [takeLoop]
    -- `y` has been seen: the loop is left here, or goes on with `operator++`
    by_cases hbrk : brk (seen ++ [y])
    · rw [if_pos hbrk]
      refine ⟨u, ?_, hgens, s', some y, hrest, hcell⟩
      intro fuel hfuel
      obtain ⟨fuel, rfl⟩ := Nat.exists_eq_succ_of_ne_zero (Nat.ne_zero_of_lt hfuel)
      rw [hround, if_pos hbrk]
      rfl
    · rw [if_neg hbrk]
      obtain ⟨w', hloop, hgens', hleft⟩ := ih (seen ++ [y]) hcell
      refine ⟨w', ?_, hgens'.trans hgens, hleft⟩
      intro fuel hfuel
      obtain ⟨fuel, rfl⟩ := Nat.exists_eq_succ_of_ne_zero (Nat.ne_zero_of_lt hfuel)
      rw [hround, if_neg hbrk]
      exact hloop fuel (Nat.lt_of_succ_lt_succ hfuel)

/-- `begin()` resumes, and so the loop that follows it is `takeLoop` from the start. -/
theorem rangeFor_yields (brk : List T → Bool) {i : Addr} (hi : w.table i = some h)
    {ys : List T} {v : Option T} (hs : Yields body ending s ys)
    (hf : w.frames.cells h = some ⟨some s, v⟩) :
    ∃ w', (∀ fuel, ys.length < fuel → rangeFor body fuel brk i w =
        .ok ((takeLoop brk [] ys).1, exitOf ending (takeLoop brk [] ys).2, w')) ∧
      w'.gens = w.gens ∧ Left body ending w' h (takeLoop brk [] ys).2 := by
  obtain ⟨hcell, hnull⟩ := table_eq_some.mp hi
  obtain ⟨w', hloop, hgens, hleft⟩ := resumeLoop_spec brk [] hs hf
  refine ⟨w', ?_, hgens, hleft⟩
  intro fuel hfuel
  have hhandle : w.handle i = .ok h := by
    simp only [World.handle, hcell]
  rw [← hloop fuel hfuel, rangeFor, begin, hhandle, ok_bind, if_pos hnull, resumeLoop]
  cases resume body h w with
  | error e => rfl
  | ok p =>
    obtain ⟨r, u⟩ := p
    cases r <;> rfl

/-- A coroutine that has just been called is held by the newest object, before its
body's first step. -/
theorem coroutine_suspended (s : σ) (w : World σ T) :
    (coroutine s w).table w.gens.next = some w.frames.next ∧
      (coroutine s w).frames.cells w.frames.next = some ⟨some s, none⟩ := by
  constructor
  · rw [table_coroutine, give_apply, if_pos rfl]
  · exact (Heap.new_cells ..).trans (if_pos rfl)

end Loops

/-! ## Loops over scripts -/

section Scripts

variable {h : Addr} {w : World (Script T E) T} {ending : Option E}

/-- A script yields what it says, and no other script does. -/
theorem Script.yields_iff {s : Script T E} {ys : List T} :
    Yields Script.body ending s ys ↔ s = ⟨ys, ending⟩ := by
  constructor
  · intro hs
    induction hs with
    | @ended s hs =>
      obtain ⟨_ | ⟨y, ys⟩, _ | e⟩ := s <;> cases ending <;> cases hs <;> rfl
    | @yield s s' v vs hs _ ih =>
      subst ih
      obtain ⟨_ | ⟨y, ys⟩, _ | e⟩ := s <;> cases hs <;> rfl
  · rintro rfl
    induction ys with
    | nil => cases ending <;> exact .ended rfl
    | cons y ys ih => exact .yield rfl ih

/-- Where a script was left is where it goes on. -/
theorem Left.after {rest : Option (List T)} (hleft : Left Script.body ending w h rest) :
    After w h ending rest := by
  cases rest with
  | none => exact hleft
  | some rest =>
    obtain ⟨s, v, hs, hf⟩ := hleft
    obtain rfl := Script.yields_iff.mp hs
    exact ⟨v, hf⟩

/-- A loop over a script is `takeLoop` on it. -/
theorem rangeFor_spec (brk : List T → Bool) {i : Addr} (hi : w.table i = some h)
    (ys : List T) {v : Option T} (hf : w.frames.cells h = some ⟨some ⟨ys, ending⟩, v⟩) :
    ∃ w', (∀ fuel, ys.length < fuel → rangeFor Script.body fuel brk i w =
        .ok ((takeLoop brk [] ys).1, exitOf ending (takeLoop brk [] ys).2, w')) ∧
      w'.gens = w.gens ∧ After w' h ending (takeLoop brk [] ys).2 := by
  obtain ⟨w', hloop, hgens, hleft⟩ :=
    rangeFor_yields brk hi (Script.yields_iff.mpr rfl) hf
  exact ⟨w', hloop, hgens, hleft.after⟩

end Scripts

/-! ## Loops and moves -/

section Consume

variable {h i : Addr} {w : World (Script T E) T} {ending : Option E}

/-- Moving a generator hands its frame on, and leaves the frame alone. -/
theorem moves_spec (n : Nat) (hi : w.table i = some h) :
    ∃ j w', moves n i w = .ok (j, w') ∧ w'.table j = some h ∧ w'.frames = w.frames := by
  induction n generalizing i w with
  | zero => exact ⟨i, w, rfl, hi, rfl⟩
  | succ n ih =>
    rcases moveConstruct_cases i w with ⟨hnone, -⟩ | ⟨u, hu, hne, htable, hframes⟩
    · cases hnone.symm.trans (table_eq_some.mp hi).1
    · -- the object moved into is the one created last
      have hnext : u.table w.gens.next = some h := by
        rw [htable, take_apply, if_neg hne, if_pos rfl, hi]
      obtain ⟨j, w', hmoves, hj, hframes'⟩ := ih hnext
      refine ⟨j, w', ?_, hj, hframes'.trans hframes⟩
      rw [moves, hu]
      exact hmoves

/-- What a loop leaves is no longer than what it was given. -/
theorem takeLoop_length_le {brk : List T → Bool} {ys rest : List T}
    (hrest : (takeLoop brk [] ys).2 = some rest) : rest.length ≤ ys.length := by
  have happ := congrArg List.length (takeLoop_append brk [] ys)
  simp only [hrest, Option.getD_some, List.length_append, List.nil_append] at happ
  omega

/-- **Consuming a script is `takeLoops`.** -/
theorem consume_refines (loops : List (Loop T)) (ys : List T) {v : Option T}
    (hi : w.table i = some h) (hf : w.frames.cells h = some ⟨some ⟨ys, ending⟩, v⟩) :
    ∃ w', (∀ fuel, ys.length < fuel → consume Script.body fuel loops i w =
        .ok ((takeLoops loops ys).1, exitOf ending (takeLoops loops ys).2, w')) ∧
      After w' h ending (takeLoops loops ys).2 := by
  induction loops generalizing ys v i w with
  | nil => exact ⟨w, fun _ _ => rfl, v, hf⟩
  | cons l ls ih =>
    obtain ⟨j, u, hmoves, hj, hframes⟩ := moves_spec l.moves hi
    obtain ⟨u', hloop, hgens, hafter⟩ :=
      rangeFor_spec l.brk hj ys ((congrArg (fun f => f.cells h) hframes).trans hf)
    have hj' : u'.table j = some h := by
      rw [World.table, hgens]
      exact hj
    rw [takeLoops]
    cases htake : takeLoop l.brk [] ys with
    | mk seen rest =>
      rw [htake] at hloop hafter
      cases rest with
      | some rest =>
        -- broken off: the next loop finds the coroutine at its last `co_yield`
        obtain ⟨v', hcell⟩ := hafter
        obtain ⟨w', hrest, hafter'⟩ := ih rest hj' hcell
        refine ⟨w', ?_, hafter'⟩
        intro fuel hfuel
        have hle : rest.length ≤ ys.length := takeLoop_length_le (congrArg Prod.snd htake)
        simp only [consume, hmoves, ok_bind, hloop fuel hfuel, exitOf,
          hrest fuel (Nat.lt_of_le_of_lt hle hfuel), pure_eq_ok]
      | none =>
        refine ⟨u', ?_, hafter⟩
        intro fuel hfuel
        cases ending <;>
          simp only [consume, hmoves, ok_bind, hloop fuel hfuel, exitOf, pure_eq_ok]

/-- **Nothing is lost, repeated or stale.** However a coroutine is consumed, the elements
the loop bodies see are, one loop after another, what it yields. If its loops are all broken
off, each is behind the first elements it breaks off at, and a prefix has been seen; else the
loop that is not ends where the coroutine does, and all of it has been seen: that loop runs
to its end, or the exception of the body leaves it, and the coroutine is done. In particular
no element is read that is not there, and the exception does not come before the last
element has been seen. -/
theorem consume_spec (ys : List T) (ending : Option E) (loops : List (Loop T))
    (w : World (Script T E) T) :
    ∃ seens exit w',
      Returns (fun fuel => consume Script.body fuel loops w.gens.next (coroutine ⟨ys, ending⟩ w))
        (seens, exit, w') ∧
      seens = (takeLoops loops ys).1 ∧ exit = exitOf ending (takeLoops loops ys).2 ∧
      match exit with
      | .broke => List.Forall₂ Loop.BrokenOff loops seens ∧ seens.flatten <+: ys
      | .ranToEnd =>
        Finished loops seens ∧ seens.flatten = ys ∧ ending = none ∧ w'.Done w.frames.next
      | .threw e =>
        Finished loops seens ∧ seens.flatten = ys ∧ ending = some e ∧ w'.Done w.frames.next := by
  obtain ⟨hi, hf⟩ := coroutine_suspended (⟨ys, ending⟩ : Script T E) w
  obtain ⟨w', hconsume, hafter⟩ := consume_refines loops ys hi hf
  refine ⟨_, _, w', Returns.of_lt ys.length hconsume, rfl, rfl, ?_⟩
  have happ := takeLoops_append loops ys
  cases hrest : (takeLoops loops ys).2 with
  | some rest =>
    rw [hrest] at happ
    exact ⟨brokenOff_takeLoops hrest, rest, happ⟩
  | none =>
    rw [hrest, Option.getD_none, List.append_nil] at happ
    rw [hrest] at hafter
    have hfinished := finished_takeLoops hrest
    cases ending with
    | none => exact ⟨hfinished, happ, rfl, hafter⟩
    | some e => exact ⟨hfinished, happ, rfl, hafter⟩

/-- Three elements in two loops, with a move between them and an exception in the end. -/
example :
    (consume Script.body 5 [⟨0, fun seen => seen.length == 2⟩, ⟨1, fun _ => false⟩] 1
        (coroutine (⟨[7, 8, 9], some ()⟩ : Script Nat Unit) World.empty)).map
      (fun r => (r.1, r.2.1)) = .ok ([[7, 8], [9]], .threw ()) := rfl

end Consume

end BstGenerator.Generator
