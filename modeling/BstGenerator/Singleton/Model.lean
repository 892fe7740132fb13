import BstGenerator.Machine.Run

/-!
# `SingletonHolder`

A translation of `SingletonHolder` and its lifetime policies (Singleton.h:174–444): the
object is made by the first call of `Instance`, and it is the policy that says whether and
when it is destroyed.

Conventions of the translation:

- All static members for one type are one `State`, with the functions given to `std::atexit`,
  the last one first. A policy uses the members that are its own.
- Objects are numbered in the order they are created, whatever memory they are in. What the
  creation policy comes to is a parameter (`Creation`).
- A call that may throw gives the exception, if it throws, and the state it leaves.
- `ScheduleDestruction` is given `&DestroySingleton` in its only call, so the function is no
  argument here.
- The object's own constructor and destructor do not use the holder.
- `fixed` says whether `ATEXIT_FIXED` is defined. The build does not define it.
-/

namespace BstGenerator.Singleton

/-- The functions that are given to `std::atexit`. -/
inductive Handler
  | DestroySingleton
  | atexitCallback
  deriving DecidableEq, Repr

inductive Exception
  | logicError (what : String)
  /-- What `Create` throws: `std::bad_alloc`, or what the object's constructor does. -/
  | create
  deriving DecidableEq, Repr

inductive Event
  | created (n : Nat)
  | destroyed (n : Nat)
  /-- `Instance` has given a reference to the object. -/
  | returned (n : Nat)
  /-- `Instance` has thrown. -/
  | raised (e : Exception)
  deriving DecidableEq, Repr

inductive Fault
  /-- An `assert` fails. -/
  | assertion
  /-- `*pInstance_` or `Destroy(pInstance_)`, where `pInstance_` is null. -/
  | nullInstance
  /-- `deleter()`, where `deleter` is null. -/
  | nullDeleter
  deriving DecidableEq, Repr

/-- What `CreationPolicy<T>::Create` comes to: an object, the null pointer that
`CreateUsingMalloc` gives if `malloc` fails, or an exception. -/
inductive Creation
  | object
  | null
  | throws
  deriving DecidableEq, Repr

structure State where
  /-- `SingletonHolder::pInstance_` -/
  pInstance : Option Nat
  /-- `SingletonHolder::destroyed_` -/
  destroyed : Bool
  /-- `PhoenixSingleton::destroyedOnce_` -/
  destroyedOnce : Bool
  /-- `firstPass` in `DeletableSingleton::ScheduleDestruction` -/
  firstPass : Bool
  /-- whether `DeletableSingleton::deleter` is `&DestroySingleton`; it is null if not -/
  deleter : Bool
  /-- `DeletableSingleton::isDead` -/
  isDead : Bool
  /-- `DeletableSingleton::needCallback` -/
  needCallback : Bool
  handlers : List Handler
  created : Nat
  log : List Event
  deriving DecidableEq, Repr

/-- The static members as they are initialized. -/
def State.init : State where
  pInstance := none
  destroyed := false
  destroyedOnce := false
  firstPass := true
  deleter := false
  isDead := true
  needCallback := true
  handlers := []
  created := 0
  log := []

/-- `assert(p)`. -/
def assert (p : Prop) [Decidable p] : Except Fault Unit :=
  if p then .ok () else .error .assertion

/-- `std::atexit`. -/
def atexit (pFun : Handler) (s : State) : State := { s with handlers := pFun :: s.handlers }

/-! ## Creation policies -/

/-- `pInstance_ = CreationPolicy<T>::Create()`. -/
def create (c : Creation) (s : State) : Option Exception × State :=
  match c with
  | .object => (none, { s with pInstance := some s.created, created := s.created + 1,
                               log := s.log ++ [.created s.created] })
  | .null => (none, { s with pInstance := none })
  | .throws => (some .create, s)

/-- `CreationPolicy<T>::Destroy(p)`. -/
def destroy (p : Option Nat) (s : State) : Except Fault State :=
  match p with
  | some n => .ok { s with log := s.log ++ [.destroyed n] }
  | none => .error .nullInstance

/-- `SingletonHolder::DestroySingleton` (Singleton.h:438–444). -/
def DestroySingleton (s : State) : Except Fault State := do
  assert (¬ s.destroyed)
  let s ← destroy s.pInstance s
  return { s with pInstance := none, destroyed := true }

/-! ## Lifetime policies -/

inductive Lifetime
  | DefaultLifetime
  | PhoenixSingleton
  | DeletableSingleton
  | NoDestroy
  deriving DecidableEq, Repr

namespace DefaultLifetime

/-- `DefaultLifetime::ScheduleDestruction` (Singleton.h:188–189). -/
def scheduleDestruction (s : State) : State := atexit .DestroySingleton s

/-- `DefaultLifetime::OnDeadReference` (Singleton.h:191–192). -/
def onDeadReference (s : State) : Option Exception × State :=
  (some (.logicError "Dead Reference Detected"), s)

end DefaultLifetime

namespace PhoenixSingleton

/-- `PhoenixSingleton::ScheduleDestruction` (Singleton.h:207–213). -/
def scheduleDestruction (fixed : Bool) (s : State) : State :=
  if fixed ∨ s.destroyedOnce then atexit .DestroySingleton s else s

/-- `PhoenixSingleton::OnDeadReference` (Singleton.h:215–220). -/
def onDeadReference (fixed : Bool) (s : State) : Option Exception × State :=
  (none, if fixed then s else { s with destroyedOnce := true })

end PhoenixSingleton

namespace DeletableSingleton

/-- `DeletableSingleton::ScheduleDestruction` (Singleton.h:255–266). -/
def scheduleDestruction (s : State) : State :=
  let s := { s with isDead := false, deleter := true }
  if s.firstPass ∨ s.needCallback then
    { atexit .atexitCallback s with firstPass := false, needCallback := false }
  else
    s

/-- `DeletableSingleton::GracefulDelete` (Singleton.h:272–278). -/
def gracefulDelete (s : State) : Except Fault State :=
  if s.isDead then
    return s
  else
    let s := { s with isDead := true }
    if s.deleter then DestroySingleton s else .error .nullDeleter

/-- `DeletableSingleton::atexitCallback` (Singleton.h:285–293). -/
def atexitCallback (fixed : Bool) (s : State) : Except Fault State :=
  gracefulDelete { s with needCallback := fixed }

end DeletableSingleton

/-- `LifetimePolicy<T>::ScheduleDestruction`. -/
def scheduleDestruction (l : Lifetime) (fixed : Bool) (s : State) : State :=
  match l with
  | .DefaultLifetime => DefaultLifetime.scheduleDestruction s
  | .PhoenixSingleton => PhoenixSingleton.scheduleDestruction fixed s
  | .DeletableSingleton => DeletableSingleton.scheduleDestruction s
  | .NoDestroy => s

/-- `LifetimePolicy<T>::OnDeadReference`. -/
def onDeadReference (l : Lifetime) (fixed : Bool) (s : State) : Option Exception × State :=
  match l with
  | .DefaultLifetime => DefaultLifetime.onDeadReference s
  | .PhoenixSingleton => PhoenixSingleton.onDeadReference fixed s
  | .DeletableSingleton => (none, s)
  | .NoDestroy => (none, s)

/-! ## The holder -/

/-- The start of `MakeInstance` (Singleton.h:420–424). -/
def checkDestroyed (l : Lifetime) (fixed : Bool) (s : State) : Option Exception × State :=
  if s.destroyed then onDeadReference l fixed { s with destroyed := false } else (none, s)

/-- `SingletonHolder::MakeInstance` (Singleton.h:416–429). -/
def makeInstance (l : Lifetime) (fixed : Bool) (c : Creation) (s : State) :
    Option Exception × State :=
  if s.pInstance = none then
    match checkDestroyed l fixed s with
    | (some e, s) => (some e, s)
    | (none, s) =>
      match create c s with
      | (some e, s) => (some e, s)
      | (none, s) => (none, scheduleDestruction l fixed s)
  else
    (none, s)

/-- `return *pInstance_;`, which is logged. -/
def reference (s : State) : Except Fault State :=
  match s.pInstance with
  | some n => .ok { s with log := s.log ++ [.returned n] }
  | none => .error .nullInstance

/-- `SingletonHolder::Instance` (Singleton.h:397–404). An exception is logged. -/
def Instance (l : Lifetime) (fixed : Bool) (c : Creation) (s : State) : Except Fault State :=
  match if s.pInstance = none then makeInstance l fixed c s else (none, s) with
  | (some e, s) => .ok { s with log := s.log ++ [.raised e] }
  | (none, s) => reference s

/-! ## The program -/

/-- What happens in a program that uses a holder. The calls of `Instance` and
`GracefulDelete` come from anywhere, other functions given to `std::atexit` included. -/
inductive Command
  | Instance (c : Creation)
  /-- Of `DeletableSingleton`; the other policies leave `isDead` as it is initialized. -/
  | GracefulDelete
  /-- The program ends, and the function that was given to `std::atexit` last is called. -/
  | exit
  deriving DecidableEq, Repr

/-- A function that was given to `std::atexit` is called. -/
def call (fixed : Bool) (h : Handler) (s : State) : Except Fault State :=
  match h with
  | .DestroySingleton => DestroySingleton s
  | .atexitCallback => DeletableSingleton.atexitCallback fixed s

def step (l : Lifetime) (fixed : Bool) : Command → State → Except Fault State
  | .Instance c, s => Instance l fixed c s
  | .GracefulDelete, s => DeletableSingleton.gracefulDelete s
  | .exit, s =>
    match s.handlers with
    | [] => .ok s
    | h :: handlers => call fixed h { s with handlers := handlers }

end BstGenerator.Singleton
