import BstGenerator.Blocking.Steps
import BstGenerator.Blocking.Lawful

/-!
# In which order a collection gives its items back

A pool is the list of the items that are in the collection, in the order of their arrival.
`Serves` says of a sequence of moves that each item taken was, at that time, one the
collection's discipline allows.

- `queue_serves`: a `BlockingQueue` gives out the oldest item, in every interleaving.
- `stack_serves`: so does a `BlockingStack` to which nothing was added in bulk, since
  `try_emplace` puts at the front what `try_take` takes from the back; one to which
  everything was added in bulk gives out the newest item.
- `priority_serves`: a `PriorityBlockingCollection` gives out the earliest of the highest
  items, or the earliest of the lowest where `try_take_prio` is called.
- `run_conserves`: whatever the container, what came in is what went out and what is left.
-/

namespace BstGenerator.Blocking

open Machine Orders

variable {C T P Tid : Type} [ProducerConsumerCollection C T P] [DecidableEq Tid]
  {gen : ConditionVariableGenerator}

/-! ## Disciplines -/

/-- Which item a move may take out of a pool, and what it leaves. -/
abbrev Discipline (T : Type) := Move → List T → T → List T → Prop

/-- First in, first out. -/
def oldest : Discipline T := fun _ pool x rest => pool = x :: rest

/-- Last in, first out. -/
def newest : Discipline T := fun _ pool x rest => pool = rest ++ [x]

/-- The earliest of the highest items, and for `try_take_prio` the earliest of the
lowest. -/
def byPriority (le : T → T → Prop) : Discipline T := fun m pool x rest =>
  match m with
  | .takePrio => EarliestLowest le pool x rest
  | _ => EarliestHighest le pool x rest

/-- The pool is served as the discipline says: what comes in comes last, and what goes out
is what may. -/
inductive Serves (takes : Discipline T) : List T → List (Move × T) → List T → Prop
  | nil (pool : List T) : Serves takes pool [] pool
  | arrive {m : Move} {x : T} {pool pool' : List T} {es : List (Move × T)}
    (hm : m.isIn = true) (hs : Serves takes (pool ++ [x]) es pool') :
    Serves takes pool ((m, x) :: es) pool'
  | leave {m : Move} {x : T} {pool rest pool' : List T} {es : List (Move × T)}
    (hm : m.isIn = false) (hx : takes m pool x rest) (hs : Serves takes rest es pool') :
    Serves takes pool ((m, x) :: es) pool'

theorem ins_cons_of_in {m : Move} (hm : m.isIn = true) (x : T) (es : List (Move × T)) :
    ins ((m, x) :: es) = x :: ins es ∧ outs ((m, x) :: es) = outs es := by
  unfold ins outs
  simp [hm]

theorem ins_cons_of_out {m : Move} (hm : m.isIn = false) (x : T) (es : List (Move × T)) :
    ins ((m, x) :: es) = ins es ∧ outs ((m, x) :: es) = x :: outs es := by
  unfold ins outs
  simp [hm]

/-- First in, first out: the items come out in the order in which they came in. -/
theorem Serves.in_order {pool pool' : List T} {es : List (Move × T)}
    (h : Serves oldest pool es pool') : pool ++ ins es = outs es ++ pool' := by
  induction h with
  | nil pool => exact List.append_nil pool
  | @arrive m x pool pool' es hm hs ih =>
    rw [(ins_cons_of_in hm x es).1, (ins_cons_of_in hm x es).2, ← ih, List.append_assoc]
    rfl
  | @leave m x pool rest pool' es hm hx hs ih =>
    obtain rfl : pool = x :: rest := hx
    rw [(ins_cons_of_out hm x es).1, (ins_cons_of_out hm x es).2]
    exact congrArg (x :: ·) ih

/-- The simulation rule: a container that follows the pool at every move serves it. -/
theorem Trace.serves (takes : Discipline T) (R : C → List T → Prop) (ok : Move → Prop)
    (hin : ∀ {c c' : C} {m : Move} {x : T} {pool : List T}, ok m → m.isIn = true →
      Moves c m x c' → R c pool → R c' (pool ++ [x]))
    (hout : ∀ {c c' : C} {m : Move} {x : T} {pool : List T}, ok m → m.isIn = false →
      Moves c m x c' → R c pool → ∃ rest, takes m pool x rest ∧ R c' rest)
    {c c' : C} {es : List (Move × T)} {pool : List T} (h : Trace c es c')
    (hok : ∀ e ∈ es, ok e.1) (hR : R c pool) :
    ∃ pool', Serves takes pool es pool' ∧ R c' pool' := by
  induction h generalizing pool with
  | nil => exact ⟨pool, Serves.nil pool, hR⟩
  | @cons c d c' m x es hm hs ih =>
    have hokm : ok m := hok (m, x) (List.mem_cons_self ..)
    have hokes : ∀ e ∈ es, ok e.1 := fun e he => hok e (List.mem_cons_of_mem _ he)
    cases hd : m.isIn with
    | true =>
      obtain ⟨pool', hserves, hR'⟩ := ih hokes (hin hokm hd hm hR)
      exact ⟨pool', Serves.arrive hd hserves, hR'⟩
    | false =>
      obtain ⟨rest, htakes, hrest⟩ := hout hokm hd hm hR
      obtain ⟨pool', hserves, hR'⟩ := ih hokes hrest
      exact ⟨pool', Serves.leave hd htakes hserves, hR'⟩

/-! ## The disciplines of the source -/

/-- A consumer waits in `take`, a producer adds two items, and the consumer goes on. -/
def handover : List (Label Nat P Nat) :=
  [.call 0 .take 0, .call 1 (.add 7) 0, .call 1 (.add 8) 0, .wake 0 false 0]

/-- **A `BlockingQueue` is first in, first out**, whatever threads add, take, flush or
wait, and in whatever order they get the lock. -/
theorem queue_serves {ls : List (Label T Empty Tid)} {n : Nat}
    {s : System (QueueContainer T) T Empty Tid gen}
    (hrun : run System.step ls (.init n) = .ok s) :
    Serves oldest [] (moves s.history) s.collection.container.container ∧
      ins (moves s.history) = outs (moves s.history) ++ s.collection.container.container := by
  have hserves : Serves oldest [] (moves s.history) s.collection.container.container := by
    obtain ⟨pool, hpool, rfl⟩ :=
      Trace.serves oldest (fun c pool => c.container = pool) (fun _ => True)
        (by
          rintro c c' m x pool - hm h rfl
          obtain ⟨⟨-, h⟩ | ⟨hm', -⟩, -⟩ := Container.queue_moves h
          · exact h
          · rw [hm] at hm'
            cases hm')
        (by
          rintro c c' m x pool - hm h rfl
          obtain ⟨⟨hm', -⟩ | ⟨-, h⟩, -⟩ := Container.queue_moves h
          · rw [hm] at hm'
            cases hm'
          · exact ⟨c'.container, h, rfl⟩)
        (run_trace hrun) (fun _ _ => trivial) rfl
    exact hpool
  exact ⟨hserves, hserves.in_order⟩

/-- A queue served in a run: a consumer waits, and takes the first of two items. -/
theorem queue_serves_handover : ∃ s : QueueSystem Nat Nat,
    run System.step handover (.init 2) = .ok s ∧
      Serves oldest [] [(.emplace, 7), (.emplace, 8), (.take, 7)] [8] := by
  have hrun : run System.step handover (.init 2 : QueueSystem Nat Nat) = .ok _ := rfl
  exact ⟨_, hrun, (queue_serves hrun).1⟩

theorem stack_serves_oldest {ls : List (Label T Empty Tid)} {n : Nat}
    {s : System (StackContainer T) T Empty Tid gen}
    (hrun : run System.step ls (.init n) = .ok s)
    (hadd : ∀ e ∈ moves s.history, e.1 ≠ .add) :
    Serves oldest [] (moves s.history) s.collection.container.container.reverse := by
  obtain ⟨pool, hpool, rfl⟩ :=
    Trace.serves oldest (fun c pool => c.container.reverse = pool) (fun m => m ≠ .add)
      (by
        rintro c c' m x pool hok hm h rfl
        obtain ⟨⟨-, h⟩ | ⟨rfl, -⟩ | ⟨rfl, -⟩, -⟩ := Container.stack_moves h
        · rw [h, List.reverse_cons]
        · exact absurd rfl hok
        · cases hm)
      (by
        rintro c c' m x pool - hm h rfl
        obtain ⟨⟨rfl, -⟩ | ⟨rfl, -⟩ | ⟨-, h⟩, -⟩ := Container.stack_moves h
        · cases hm
        · cases hm
        · exact ⟨c'.container.reverse, by rw [h, List.reverse_append]; rfl, rfl⟩)
      (run_trace hrun) hadd rfl
  exact hpool

theorem stack_serves_newest {ls : List (Label T Empty Tid)} {n : Nat}
    {s : System (StackContainer T) T Empty Tid gen}
    (hrun : run System.step ls (.init n) = .ok s)
    (hemplace : ∀ e ∈ moves s.history, e.1 ≠ .emplace) :
    Serves newest [] (moves s.history) s.collection.container.container := by
  obtain ⟨pool, hpool, rfl⟩ :=
    Trace.serves newest (fun c pool => c.container = pool) (fun m => m ≠ .emplace)
      (by
        rintro c c' m x pool hok hm h rfl
        obtain ⟨⟨rfl, -⟩ | ⟨-, h⟩ | ⟨rfl, -⟩, -⟩ := Container.stack_moves h
        · exact absurd rfl hok
        · exact h
        · cases hm)
      (by
        rintro c c' m x pool - hm h rfl
        obtain ⟨⟨rfl, -⟩ | ⟨rfl, -⟩ | ⟨-, h⟩, -⟩ := Container.stack_moves h
        · cases hm
        · cases hm
        · exact ⟨c'.container, h, rfl⟩)
      (run_trace hrun) hemplace rfl
  exact hpool

/-- **A `BlockingStack`** is first in, first out as long as nothing is added in bulk: `add`
and `emplace` put at the front of the deque, and an item is taken from its back. It is last
in, first out as long as everything is added in bulk. -/
theorem stack_serves {ls : List (Label T Empty Tid)} {n : Nat}
    {s : System (StackContainer T) T Empty Tid gen}
    (hrun : run System.step ls (.init n) = .ok s) :
    ((∀ e ∈ moves s.history, e.1 ≠ .add) →
      Serves oldest [] (moves s.history) s.collection.container.container.reverse) ∧
    ((∀ e ∈ moves s.history, e.1 ≠ .emplace) →
      Serves newest [] (moves s.history) s.collection.container.container) :=
  ⟨stack_serves_oldest hrun, stack_serves_newest hrun⟩

/-- The stack that two calls of `add` have filled gives out the first. -/
theorem stack_serves_handover : ∃ s : StackSystem Nat Nat,
    run System.step handover (.init 2) = .ok s ∧
      Serves oldest [] [(.emplace, 7), (.emplace, 8), (.take, 7)] [8] := by
  have hrun : run System.step handover (.init 2 : StackSystem Nat Nat) = .ok _ := rfl
  exact ⟨_, hrun, (stack_serves hrun).1 (by decide)⟩

/-- **A `PriorityBlockingCollection` serves by priority**, and among items of one priority
in the order of arrival; what it holds is the pool in descending order, and equivalent
items in the order of arrival. -/
theorem priority_serves {comparer : T → T → Int} (hcmp : LawfulComparer comparer)
    {ls : List (Label T Unit Tid)} {n : Nat}
    {s : System (PriorityContainer T comparer) T Unit Tid gen}
    (hrun : run System.step ls (.init n) = .ok s) :
    ∃ pool, Serves (byPriority (Below comparer)) [] (moves s.history) pool ∧
      Holds (Below comparer) s.collection.container.container pool := by
  have hle := hcmp.totalPreorder
  refine Trace.serves _ (fun c pool => Holds (Below comparer) c.container pool)
    (fun _ => True) ?_ ?_ (run_trace hrun) (fun _ _ => trivial) Holds.nil
  · intro c c' m x pool _ hm h hR
    have hplace : c'.container = place (Below comparer) x c.container := by
      cases h with
      | emplace h => rw [PriorityContainer.of_tryEmplace hcmp h]
      | add h => rw [PriorityContainer.of_tryEmplace hcmp (PriorityContainer.of_tryAdd h)]
      | take => cases hm
      | takePrio => cases hm
    rw [hplace]
    exact hR.arrival hle x
  · intro c c' m x pool _ hm h hR
    cases h with
    | emplace => cases hm
    | add => cases hm
    | take h =>
      rw [(PriorityContainer.of_tryTake h).1] at hR
      exact hR.first hle
    | takePrio p h =>
      obtain ⟨u, v, hc, hc', hu, hv⟩ := PriorityContainer.tryTakePrio_split hcmp hR.descending h
      rw [hc] at hR
      rw [hc']
      exact hR.last hle hu hv

/-- The higher of two items is taken first. -/
theorem priority_serves_handover : ∃ s : PrioritySystem Nat Nat,
    run System.step handover (.init 2) = .ok s ∧
      ∃ pool, Serves (byPriority (Below priorityComparer)) []
        [(.emplace, 7), (.emplace, 8), (.take, 8)] pool ∧
        Holds (Below priorityComparer) [7] pool := by
  have hrun : run System.step handover (.init 2 : PrioritySystem Nat Nat) = .ok _ := rfl
  exact ⟨_, hrun, priority_serves lawful_priorityComparer hrun⟩

/-! ## Conservation -/

section Conservation

variable [LawfulCollection C T P]

open scoped List

theorem Trace.conserves {c c' : C} {es : List (Move × T)} (h : Trace c es c') :
    (items c ++ ins es).Perm (outs es ++ items c') := by
  induction h with
  | nil c =>
    show items c ++ [] ~ items c
    rw [List.append_nil]
  | @cons c d c' m x es hm hs ih =>
    cases hd : m.isIn with
    | true =>
      rw [(ins_cons_of_in hd x es).1, (ins_cons_of_in hd x es).2]
      calc items c ++ x :: ins es
        _ ~ x :: items c ++ ins es := List.perm_middle
        _ ~ items d ++ ins es := (LawfulCollection.moves_in hm hd).symm.append_right _
        _ ~ outs es ++ items c' := ih
    | false =>
      rw [(ins_cons_of_out hd x es).1, (ins_cons_of_out hd x es).2]
      calc items c ++ ins es
        _ ~ x :: items d ++ ins es := (LawfulCollection.moves_out hm hd).append_right _
        _ ~ x :: (outs es ++ items c') := ih.cons x

/-- **No item is lost or given out twice**, whatever the container and the schedule. -/
theorem run_conserves {ls : List (Label T P Tid)} {n : Nat} {s : System C T P Tid gen}
    (hrun : run System.step ls (.init n) = .ok s) :
    (ins (moves s.history)).Perm (outs (moves s.history) ++ items s.collection.container) := by
  have h := (run_trace hrun).conserves
  rwa [LawfulCollection.items_bounded, List.nil_append] at h

theorem run_conserves_handover : ∃ s : QueueSystem Nat Nat,
    run System.step handover (.init 2) = .ok s ∧ [7, 8] ~ [7] ++ [8] := by
  have hrun : run System.step handover (.init 2 : QueueSystem Nat Nat) = .ok _ := rfl
  exact ⟨_, hrun, run_conserves hrun⟩

end Conservation

end BstGenerator.Blocking
