import BstGenerator.Memory.Heap

/-!
# The coroutine generator of `test_yield.cpp`

A translation of `Generator<T>` (test_yield.cpp:13–115) over two explicit heaps, one
of coroutine frames and one of `Generator` objects. A handle is the address of a
frame, and the null handle is `nullptr`.

Conventions of the translation:

- A coroutine body is a step machine: from a state it runs to the next `co_yield`,
  to its end, or to an exception that leaves it (`Outcome`). This is all `resume()`
  can tell of it. What a body itself prints is not modelled.
- A call that may throw returns an `Except E`, inside the `Except Fault` of the
  translation: `.ok (.error e, w)` is a call left by the exception `e`.
- Using the handle of a destroyed frame, resuming the null handle or a coroutine at
  its final suspension point, and reading an empty `std::optional` are undefined
  behaviour in C++ and a `Fault` here.
- When the body throws, `unhandled_exception` rethrows, `final_suspend` is not called
  and the coroutine is at its final suspension point.
- Moving a `T` keeps its value.
-/

namespace BstGenerator.Generator

open Memory

/-- What takes a program out of the C++ semantics, or out of the model. -/
inductive Fault
  | resumeNull
  | resumeDestroyed (h : Addr)
  /-- `resume()` at the final suspension point. -/
  | resumeDone (h : Addr)
  | doneDestroyed (h : Addr)
  | promiseDestroyed (h : Addr)
  | destroyDestroyed (h : Addr)
  /-- `*current_value` while it is unset. -/
  | unset (h : Addr)
  /-- A command on an object that does not exist. -/
  | noObject (i : Addr)
  | outOfFuel
  deriving DecidableEq, Repr

/-- How a body goes on from a suspension point. -/
inductive Outcome (σ T E : Type)
  | yield (v : T) (s : σ)
  | ret
  | throw (e : E)
  deriving DecidableEq, Repr

/-- A coroutine frame: where the body goes on, which is nowhere at the final
suspension point, and the promise's `current_value`. -/
structure Frame (σ T : Type) where
  body : Option σ
  currentValue : Option T
  deriving DecidableEq, Repr

/-- The frames, the `m_coroutine` of every object, and what has been printed. -/
structure World (σ T : Type) where
  frames : Heap (Frame σ T)
  gens : Heap Addr
  cout : List String

variable {σ T E : Type}

/-- No frame, no object. -/
def World.empty : World σ T := ⟨Heap.empty, Heap.empty, []⟩

/-- `std::cout<<line<<std::endl`. -/
def World.print (w : World σ T) (line : String) : World σ T :=
  { w with cout := w.cout ++ [line] }

/-- The `m_coroutine` of an object that lives. -/
def World.handle (w : World σ T) (i : Addr) : Except Fault Addr :=
  match w.gens.cells i with
  | some h => .ok h
  | none => .error (.noObject i)

/-- `operator co_await` on the awaited `std::suspend_always` (test_yield.cpp:13–17). -/
def coAwait (w : World σ T) : World σ T := w.print "ok we got it"

/-! ## `promise_type` (test_yield.cpp:22–50) -/

/-- `get_return_object`: the `Generator` that holds the handle of the frame. -/
def getReturnObject (h : Addr) (w : World σ T) : World σ T :=
  let w := w.print "get_return_object"
  { w with gens := w.gens.new h }

def initialSuspend (w : World σ T) : World σ T := w.print "initial_suspend"

def finalSuspend (w : World σ T) : World σ T := w.print "final_suspend"

def returnVoid (w : World σ T) : World σ T := w.print "return_void"

/-- `yield_value`, `f` being the frame as the body left it. -/
def yieldValue (h : Addr) (f : Frame σ T) (v : T) (w : World σ T) : World σ T :=
  let w := w.print "yield_value"
  { w with frames := w.frames.write h { f with currentValue := some v } }

/-! ## `std::coroutine_handle` -/

/-- Calling a coroutine that starts in `s`: the object returned is the newest. -/
def coroutine (s : σ) (w : World σ T) : World σ T :=
  let h := w.frames.next
  let w := { w with frames := w.frames.new ⟨some s, none⟩ }
  let w := getReturnObject h w
  let w := initialSuspend w
  coAwait w

/-- `h.resume()`. -/
def resume (body : σ → Outcome σ T E) (h : Addr) (w : World σ T) :
    Except Fault (Except E Unit × World σ T) :=
  if h = nullptr then
    .error .resumeNull
  else
    match w.frames.cells h with
    | none => .error (.resumeDestroyed h)
    | some f =>
      match f.body with
      | none => .error (.resumeDone h)
      | some s =>
        match body s with
        | .yield v s =>
          let w := yieldValue h { f with body := some s } v w
          .ok (.ok (), coAwait w)
        | .ret =>
          let w := returnVoid w
          let w := finalSuspend w
          let w := coAwait w
          .ok (.ok (), { w with frames := w.frames.write h { f with body := none } })
        | .throw e =>
          .ok (.error e, { w with frames := w.frames.write h { f with body := none } })

/-- `h.destroy()`. -/
def destroy (h : Addr) (w : World σ T) : Except Fault (World σ T) :=
  match w.frames.cells h with
  | some _ => .ok { w with frames := w.frames.delete h }
  | none => .error (.destroyDestroyed h)

/-! ## `Generator` (test_yield.cpp:54–80) -/

/-- `Generator() = default`. -/
def defaultConstruct (w : World σ T) : World σ T := { w with gens := w.gens.new nullptr }

/-- `Generator(Generator&& other)`, `other` being the object `j`. -/
def moveConstruct (j : Addr) (w : World σ T) : Except Fault (World σ T) := do
  let h ← w.handle j
  let w := { w with gens := w.gens.new h }
  return { w with gens := w.gens.write j nullptr }

/-- `operator=(Generator&& other)` on the object `i`, `other` being the object `j`. -/
def moveAssign (i j : Addr) (w : World σ T) : Except Fault (World σ T) := do
  let _ ← w.handle i
  let h ← w.handle j
  if i ≠ j then
    let w := { w with gens := w.gens.write i h }
    return { w with gens := w.gens.write j nullptr }
  else
    return w

/-- `~Generator()`. -/
def destructor (i : Addr) (w : World σ T) : Except Fault (World σ T) := do
  let h ← w.handle i
  let w ← if h ≠ nullptr then destroy h w else .ok w
  return { w with gens := w.gens.delete i }

/-! ## `Iter`, `begin` and `end` (test_yield.cpp:82–111) -/

/-- `Generator::Iter`. -/
structure Iter where
  coroutine : Addr
  deriving DecidableEq, Repr

/-- `operator++`. -/
def Iter.next (body : σ → Outcome σ T E) (it : Iter) (w : World σ T) :
    Except Fault (Except E Unit × World σ T) :=
  resume body it.coroutine w

/-- `operator*`. -/
def Iter.deref (it : Iter) (w : World σ T) : Except Fault T :=
  match w.frames.cells it.coroutine with
  | none => .error (.promiseDestroyed it.coroutine)
  | some f =>
    match f.currentValue with
    | some v => .ok v
    | none => .error (.unset it.coroutine)

/-- `operator==` with `std::default_sentinel`, which is what `end()` returns. -/
def Iter.atEnd (it : Iter) (w : World σ T) : Except Fault Bool :=
  if it.coroutine = nullptr then
    .ok true
  else
    match w.frames.cells it.coroutine with
    | none => .error (.doneDestroyed it.coroutine)
    | some f => .ok f.body.isNone

/-- `begin()`. -/
def begin (body : σ → Outcome σ T E) (i : Addr) (w : World σ T) :
    Except Fault (Except E Iter × World σ T) := do
  let h ← w.handle i
  if h ≠ nullptr then
    match ← resume body h w with
    | (.ok (), w) => return (.ok ⟨h⟩, w)
    | (.error e, w) => return (.error e, w)
  else
    return (.ok ⟨h⟩, w)

/-! ## Programs -/

/-- What a program does with `Generator` objects. -/
inductive Cmd (σ : Type)
  /-- Call a coroutine whose body starts in `s`. -/
  | coroutine (s : σ)
  | default
  | moveConstruct (j : Addr)
  | moveAssign (i j : Addr)
  /-- Call `begin()` and catch what it throws. -/
  | begin (i : Addr)
  | destroy (i : Addr)
  deriving DecidableEq, Repr

/-- Execute a command. -/
def step (body : σ → Outcome σ T E) : Cmd σ → World σ T → Except Fault (World σ T)
  | .coroutine s, w => .ok (coroutine s w)
  | .default, w => .ok (defaultConstruct w)
  | .moveConstruct j, w => moveConstruct j w
  | .moveAssign i j, w => moveAssign i j w
  | .begin i, w => do
    let (_, w) ← begin body i w
    return w
  | .destroy i, w => destructor i w

end BstGenerator.Generator
