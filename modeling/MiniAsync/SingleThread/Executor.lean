/-
  The state of the single-threaded runtime and what is done to it outside the loop
  of `block_on`: the ready queue and the wakers (`executor.rs`), spawning and the
  completion of a task (`runtime.rs`, `task.rs`), `JoinHandle::poll`
  (`join_handle.rs`), and what user code can do (`Act`).

  A task's future is the user's: a poll of it does any number of acts and returns.
  `TaskHist` is history that the code does not read: how often a task was polled and
  with which results, how often it was woken, and which values its handle yielded.
-/
import MiniAsync.SingleThread.Timer

namespace MiniAsync.SingleThread

open MultiThread (PollResult)
open Heap Timer

abbrev TaskId := ℕ

/-- A waker of a task (`make_waker`), of the handle of a root task (`flag_waker`), or one of the
user's own making, which wakes the tasks `xs`. -/
inductive Waker where
  | task (x : TaskId)
  | flag (root : TaskId)
  | other (xs : List TaskId)
deriving DecidableEq

/-- `ReadyQueue`. -/
structure ReadyQueue where
  queue : List TaskId
  set : Finset TaskId
deriving DecidableEq

namespace ReadyQueue

def new : ReadyQueue := ⟨[], ∅⟩

/-- `ReadyQueue::push`. -/
def push (q : ReadyQueue) (x : TaskId) : ReadyQueue :=
  if x ∈ q.set then q else ⟨q.queue ++ [x], insert x q.set⟩

/-- `ReadyQueue::drain`. -/
def drain (q : ReadyQueue) : List TaskId × ReadyQueue := (q.queue, ⟨[], ∅⟩)

/-- `ReadyQueue::is_empty`. -/
def isEmpty (q : ReadyQueue) : Bool := q.queue.isEmpty

end ReadyQueue

/-- `TaskState`, which a task shares with its `JoinHandle`. -/
structure TaskState (V : Type) where
  result : Option V
  waker : Option Waker

/-- History of a task. -/
structure TaskHist (V : Type) where
  /-- The id has been given to a task of this runtime. -/
  spawned : Bool
  /-- The task is the root of a `block_on`. -/
  root : Bool
  /-- The polls that have begun. -/
  polls : ℕ
  /-- The results of the polls, in their order. -/
  results : List (PollResult V)
  /-- The wake-ups of the task's waker. -/
  wakes : ℕ
  /-- The wake-ups before the latest poll. -/
  seen : ℕ
  /-- The values that polls of the `JoinHandle` have returned. -/
  yielded : List V
  /-- What `block_on` has returned. -/
  returned : Option V

/-- An id that no task of this runtime has. -/
def TaskHist.none (V : Type) : TaskHist V := ⟨false, false, 0, [], 0, 0, [], Option.none⟩

def TaskHist.new (root : Bool) (V : Type) : TaskHist V := ⟨true, root, 0, [], 0, 0, [], Option.none⟩

/-- `Runtime`, with the states of all tasks and timers, the flags of the roots' wakers and
`NEXT_TASK_ID`. -/
structure Runtime (Q : MaxHeap cmp) (V : Type) where
  tasks : Finset TaskId
  ready : ReadyQueue
  state : TaskId → TaskState V
  flag : TaskId → Bool
  timers : TimerWheel Q Waker
  nextId : TaskId
  clock : ℕ
  hist : TaskId → TaskHist V

namespace Runtime

variable {Q : MaxHeap cmp} {V : Type}

def new (Q : MaxHeap cmp) (V : Type) : Runtime Q V where
  tasks := ∅
  ready := ReadyQueue.new
  state := fun _ => ⟨none, none⟩
  flag := fun _ => false
  timers := TimerWheel.new
  nextId := 1
  clock := 0
  hist := fun _ => TaskHist.none V

def setState (rt : Runtime Q V) (x : TaskId) (st : TaskState V) : Runtime Q V :=
  { rt with state := Function.update rt.state x st }

def modifyHist (rt : Runtime Q V) (x : TaskId) (f : TaskHist V → TaskHist V) : Runtime Q V :=
  { rt with hist := Function.update rt.hist x (f (rt.hist x)) }

/-- `waker_wake`. -/
def wakeTask (rt : Runtime Q V) (x : TaskId) : Runtime Q V :=
  { rt with ready := rt.ready.push x }.modifyHist x fun h => { h with wakes := h.wakes + 1 }

/-- `Waker::wake`. -/
def wake (rt : Runtime Q V) : Waker → Runtime Q V
  | .task x => rt.wakeTask x
  | .flag r => { rt with flag := Function.update rt.flag r true }
  | .other xs => xs.foldl wakeTask rt

def wakeAll (rt : Runtime Q V) (ws : List Waker) : Runtime Q V := ws.foldl wake rt

/-- `Runtime::spawn`. -/
def spawn (rt : Runtime Q V) (root : Bool) : Runtime Q V where
  tasks := insert rt.nextId rt.tasks
  ready := rt.ready.push rt.nextId
  state := Function.update rt.state rt.nextId ⟨none, none⟩
  flag := rt.flag
  timers := rt.timers
  nextId := rt.nextId + 1
  clock := rt.clock
  hist := Function.update rt.hist rt.nextId (TaskHist.new root V)

/-- The handle takes the value. -/
def takeResult (rt : Runtime Q V) (x : TaskId) (v : V) : Runtime Q V :=
  (rt.setState x ⟨none, (rt.state x).waker⟩).modifyHist x fun h =>
    { h with yielded := h.yielded ++ [v] }

/-- The handle registers a waker. -/
def setWaker (rt : Runtime Q V) (x : TaskId) (waker : Waker) : Runtime Q V :=
  rt.setState x ⟨(rt.state x).result, some waker⟩

/-- `JoinHandle::poll`. -/
def pollHandle (rt : Runtime Q V) (x : TaskId) (waker : Waker) : Option V × Runtime Q V :=
  match (rt.state x).result with
  | some v => (some v, rt.takeResult x v)
  | none => (none, rt.setWaker x waker)

/-- The value of a finished task is stored, and the task removed. -/
def store (rt : Runtime Q V) (x : TaskId) (v : V) : Runtime Q V :=
  { rt.setState x ⟨some v, none⟩ with tasks := rt.tasks.erase x }

/-- The end of a task: the last lines of `wrap_future_with_state` store the value and wake the
handle, and `tick` removes the task. -/
def complete (rt : Runtime Q V) (x : TaskId) (v : V) : Runtime Q V :=
  match (rt.state x).waker with
  | some w => (rt.store x v).wake w
  | none => rt.store x v

/-! ### User code -/

/-- What user code can do while it runs. -/
inductive Act where
  /-- Directly or through a channel, a drop or anything else that keeps wakers. -/
  | wake (w : Waker)
  | pollJoin (x : TaskId) (w : Waker)
  | sleep (deadline : ℕ)
  | pollSleep (k : ℕ) (w : Waker)
deriving DecidableEq

abbrev Spawned (rt : Runtime Q V) (x : TaskId) : Prop := (rt.hist x).spawned = true

/-- The wakers that user code can hold: `block_on` gives the waker of its flag to nobody but the
root's handle. -/
def Holds (rt : Runtime Q V) : Waker → Prop
  | .task x => rt.Spawned x
  | .flag _ => False
  | .other xs => ∀ x ∈ xs, rt.Spawned x

instance (rt : Runtime Q V) : DecidablePred rt.Holds
  | .task x => inferInstanceAs (Decidable (rt.Spawned x))
  | .flag _ => inferInstanceAs (Decidable False)
  | .other xs => inferInstanceAs (Decidable (∀ x ∈ xs, rt.Spawned x))

/-- An act; `none` if user code cannot do it. The handle of a root belongs to `block_on`. -/
def act (rt : Runtime Q V) : Act → Option (Runtime Q V)
  | .wake w => if rt.Holds w then some (rt.wake w) else none
  | .pollJoin x w =>
    if rt.Spawned x ∧ (rt.hist x).root = false ∧ rt.Holds w then some (rt.pollHandle x w).2
    else none
  | .sleep deadline => some { rt with timers := (rt.timers.register deadline).2 }
  | .pollSleep k w =>
    if k < rt.timers.count ∧ rt.Holds w then some { rt with timers := (rt.timers.poll k w).2 }
    else none

def acts (rt : Runtime Q V) : List Act → Option (Runtime Q V)
  | [] => some rt
  | a :: as =>
    match rt.act a with
    | none => none
    | some rt => rt.acts as

def beginPoll (rt : Runtime Q V) (x : TaskId) : Runtime Q V :=
  rt.modifyHist x fun h => { h with polls := h.polls + 1, seen := h.wakes }

def endPoll (rt : Runtime Q V) (x : TaskId) (res : PollResult V) : Runtime Q V :=
  rt.modifyHist x fun h => { h with results := h.results ++ [res] }

/-- A poll of the task `x`: the acts of its future and its result. `drops` is what user code does
when a value that no handle waits for is dropped; it does not depend on whether the task has been
removed yet. -/
def pollTask (rt : Runtime Q V) (x : TaskId) (as : List Act) (res : PollResult V)
    (drops : List Act) : Option (Runtime Q V) :=
  match (rt.beginPoll x).acts as with
  | none => none
  | some rt =>
    match res with
    | .ready v => ((rt.endPoll x (.ready v)).complete x v).acts drops
    | .pending => some (rt.endPoll x .pending)
    | .panicked => some (rt.endPoll x .panicked)

end Runtime

end MiniAsync.SingleThread
