/-
  The state of the multi-threaded runtime: the fields of `SharedState`
  (`multi_thread/executor.rs`), of `Task` and `TaskState` (`multi_thread/task.rs`),
  of `TimerWheel` (`multi_thread/timer.rs`) and of the `Reactor`'s eventfd, and
  the call frames in which the threads stand.

  A mutex whose critical section is one step needs no state of its own. Three
  sections of the source are longer, and their mutexes are fields: the queue
  mutex, which a worker holds while it decides to sleep, the mutex of a
  `TaskState`, which the wrapper of a spawned future holds while it wakes the
  awaiter, and the mutex of the `workers`, which `shutdown` holds while it joins
  them.

  `TaskHist`, `SleepHist` and `TimerHist` are history: what a run did so far,
  recorded for the statements about runs. No step reads them.
-/
import MiniAsync.MultiThread.ReadyQueue
import MiniAsync.MultiThread.AtomicWaker
import Mathlib.Algebra.GroupWithZero.Nat
import Mathlib.Logic.Function.Basic

namespace MiniAsync.MultiThread

abbrev TaskId := ℕ

/-- The values `IDLE`, `SCHEDULED`, `RUNNING` and `NOTIFIED` of a task's atomic state. -/
inductive Status where
  | idle
  | scheduled
  | running
  | notified
deriving DecidableEq

/-- A waker: the runtime's own one for a task, or any waker made outside of the runtime. -/
inductive Waker where
  | task (x : TaskId)
  | other (n : ℕ)
deriving DecidableEq

/-- What belongs to one task: its atomic state, the `TaskState` it shares with its `JoinHandle`
(`result`, `waker`, and whether the mutex around them is held over the wake of the awaiter), and
for the root of a `block_on` the slot in which the caller waits for the value. -/
structure Task (V : Type) where
  root : Bool
  status : Status
  result : Option V
  waker : Option Waker
  locked : Bool
  signal : Option V

def Task.blank {V : Type} (root : Bool) (status : Status) : Task V :=
  { root, status, result := none, waker := none, locked := false, signal := none }

/-- One poll of a `JoinHandle`: by which task (if by a task), with which waker, and whether it
was ready. -/
structure JoinPoll where
  poller : Option TaskId
  waker : Waker
  ready : Bool
deriving DecidableEq

/-- History of one task. -/
structure TaskHist (V : Type) where
  /-- Polls begun, that is `SCHEDULED → RUNNING` transitions. -/
  polls : ℕ
  /-- Wake calls made on the task. -/
  wakes : ℕ
  /-- For every wake call that has returned, the number of polls begun when it was made. -/
  returned : List ℕ
  /-- `Task::poll` has returned `Ready` or has panicked. -/
  finished : Bool
  panicked : Bool
  /-- `poll_task` has taken the task out of the task map. -/
  removed : Bool
  /-- The value the future returned. -/
  output : Option V
  /-- The wrapper has stored the value. -/
  stored : Bool
  /-- Polls begun by every task at the moment the wrapper stored the value. -/
  storedAt : TaskId → ℕ
  /-- Calls of every foreign waker that had returned at that moment. -/
  foreignAt : ℕ → ℕ
  /-- The waker the wrapper took out of the `TaskState`. -/
  taken : Option Waker
  /-- The wrapper has made its wake and has released the `TaskState`. -/
  woken : Bool
  /-- The values handed out by the `JoinHandle` or by `block_on`. -/
  yielded : List V
  lastPoll : Option JoinPoll
  /-- The waker of the latest poll of the `JoinHandle` that returned `Pending`. -/
  lastPending : Option Waker
  /-- The `JoinHandle` returned `Pending` after it had yielded a value. -/
  repolled : Bool

def TaskHist.blank {V : Type} : TaskHist V where
  polls := 0
  wakes := 0
  returned := []
  finished := false
  panicked := false
  removed := false
  output := none
  stored := false
  storedAt := fun _ => 0
  foreignAt := fun _ => 0
  taken := none
  woken := false
  yielded := []
  lastPoll := none
  lastPending := none
  repolled := false

/-- `TimerEntry`: a deadline and (the number of) the timer's shared state. -/
structure TimerEntry where
  deadline : ℕ
  id : ℕ
deriving DecidableEq

/-- The waker that a poll of a `Sleep` registers. The number of the poll is history. -/
structure PollWaker where
  waker : Waker
  poll : ℕ
deriving DecidableEq

/-- History of the `Sleep` of one timer. -/
structure SleepHist where
  /-- Polls begun. -/
  polls : ℕ
  /-- The latest poll that has returned: the waker it was given, and its result. -/
  lastPoll : Option (PollWaker × Poll Unit)
  /-- The wakers that the firing has called, with calls that have returned. -/
  woken : List PollWaker
  /-- The call of the waker has returned, or the firing has found none. -/
  ended : Bool

def SleepHist.blank : SleepHist := ⟨0, none, [], false⟩

/-- History of the timer wheel. -/
structure TimerHist where
  /-- The entries that were registered, in order. -/
  registered : List TimerEntry
  /-- The timers whose `sleep` call has returned. -/
  returned : List ℕ
  /-- Every store to a `completed` flag: the timer and the clock reading of the `process` call. -/
  completions : List (ℕ × ℕ)
  /-- The timers whose firing has ended. -/
  fired : List ℕ
  /-- Every `process` call that has returned: how many timers were registered when it drained the
  inbox, and its clock reading. -/
  processed : List (ℕ × ℕ)
deriving DecidableEq

def TimerHist.blank : TimerHist := ⟨[], [], [], [], []⟩

/-- The shared state. Times are nanoseconds since some origin. -/
structure Shared (V : Type) where
  /-- The keys of the task map. -/
  tasks : Finset TaskId
  readyQueue : ReadyQueue
  activeCount : ℕ
  shutdown : Bool
  driverToken : Bool
  /-- The queue mutex is held by a worker that is about to sleep. -/
  queueLocked : Bool
  /-- The threads that wait on the condvar and have not been notified. -/
  waiters : List ℕ
  /-- The counter of the reactor's eventfd. -/
  eventfd : ℕ
  inbox : List TimerEntry
  heap : List TimerEntry
  timer : ℕ → TimerState PollWaker
  timerCount : ℕ
  /-- The latest clock reading of any thread. -/
  clock : ℕ
  nextTaskId : TaskId
  /-- The worker threads that have not returned. -/
  workersAlive : Finset ℕ
  /-- The threads whose handles are in `workers`, and whether its mutex is held or poisoned. -/
  workers : List ℕ
  workersLocked : Bool
  workersPoisoned : Bool
  task : TaskId → Task V
  hist : TaskId → TaskHist V
  sleepHist : ℕ → SleepHist
  timerHist : TimerHist
  /-- For every foreign waker, how many calls of it have returned. -/
  foreignWakes : ℕ → ℕ
  /-- A call of `shutdown` has set the flag, notified the condvar and woken the reactor. -/
  shutdownWoken : Bool

/-! ### Call frames -/

/-- Positions in `SharedState::enqueue_task`. -/
inductive EnqueuePc where
  | push
  | loadToken
  | wakeReactor
  | notifyOne
deriving DecidableEq

/-- Positions in `wake_by_ref_impl`; `ret` is the return after `enqueue_task`. -/
inductive WakePc where
  | load
  | casIdle
  | casRunning
  | ret
deriving DecidableEq

/-- Positions in `SharedState::spawn` before it calls `enqueue_task`. -/
inductive SpawnPc where
  | insert
  | incActive
deriving DecidableEq

/-- Positions in `MultiThreadRuntime::block_on` after its `spawn`: the test of the slot under the
lock, and the wait on the condition variable. -/
inductive BlockOnPc where
  | park
  | wait
deriving DecidableEq

/-- Positions in `MultiThreadRuntime::sleep`. -/
inductive SleepPc where
  | now (duration : ℕ)
  | register (deadline : ℕ)
  | wakeReactor (id : ℕ)
deriving DecidableEq

/-- Positions in `MultiThreadRuntime::shutdown`; `join` is the loop over the drained handles. -/
inductive ShutdownPc where
  | store
  | notifyAll
  | wakeReactor
  | lock
  | join (handles : List ℕ)
deriving DecidableEq

/-- Positions in `poll_task`. From `polling` to `notifySignal` the worker is inside `Task::poll`:
`polling` is the user's future, the others are the code that `wrap_future_with_state` and
`block_on` put behind it. -/
inductive PollPc (V : Type) where
  | lookup
  | casRunning
  | polling
  | storeResult (v : V)
  | unlock
  | storeSignal (v : V)
  | notifySignal
  | remove
  | decActive
  | notifyAll
  | casIdle
  | storeScheduled
deriving DecidableEq

/-- Positions in `TimerWheel::process`: the drain of the inbox, the clock reading, the head of the
firing loop, and the two halves of firing an entry. `known` is history: the number of timers
registered at the drain. -/
inductive ProcessPc where
  | drain
  | now (known : ℕ)
  | loop (known now : ℕ)
  | complete (known now : ℕ) (e : TimerEntry)
  | fired (known now : ℕ) (e : TimerEntry)
deriving DecidableEq

/-- Positions in `drive_io`. `process again pc` is inside the first or the second call of
`TimerWheel::process`; the last three are inside `Reactor::poll`. -/
inductive DrivePc where
  | process (again : Bool) (pc : ProcessPc)
  | hasPending (now : ℕ) (next : Option ℕ)
  | epollWait (now timeout : ℕ)
  | collect (eventfdReady : Bool) (ws : List Waker)
  | wakeAll (ws : List Waker)
deriving DecidableEq

/-- Positions in `run_worker`, and in what it calls. -/
inductive WorkerPc (V : Type) where
  | top
  | dequeue
  | casToken
  | recheck
  | release
  | lockQueue
  | checkShutdown
  | wait
  | waiting
  | reacquire
  | pollTask (x : TaskId) (pc : PollPc V)
  | driveIo (pc : DrivePc)
deriving DecidableEq

/-- A call frame. A worker thread has a `worker` frame at the bottom of its stack, every other
thread an `external` one; the frames above are calls. `wakerWake w` is the call of a waker through
its vtable, `wake` the body of the runtime's own wakers. Two arguments are history: the `epoch` is
the number of polls of the task begun when the call was made, and `fired` says which timer was
fired, and which poll of its `Sleep` had registered the waker, if a firing makes the call. -/
inductive Frame (V : Type) where
  | worker (pc : WorkerPc V)
  | external
  | wakerWake (w : Waker) (fired : Option (ℕ × ℕ))
  | wake (x : TaskId) (epoch : ℕ) (fired : Option (ℕ × ℕ)) (pc : WakePc)
  | enqueue (x : TaskId) (pc : EnqueuePc)
  | spawn (x : TaskId) (pc : SpawnPc)
  | blockOn (x : TaskId) (pc : BlockOnPc)
  | sleep (pc : SleepPc)
  | pollSleep (k : ℕ) (w : PollWaker) (pc : TimerState.PollPc)
  | fire (k : ℕ) (pc : AtomicWaker.WakePc PollWaker)
  | shutdown (pc : ShutdownPc)
deriving DecidableEq

/-- What code outside of the runtime (a user's future, or a thread that holds the runtime) may
call. -/
inductive Call where
  | spawn
  | blockOn
  | sleep (duration : ℕ)
  | shutdown
  | wake (w : Waker)
  | pollSleep (k : ℕ) (w : Waker)
  | pollJoin (x : TaskId) (w : Waker)
deriving DecidableEq

/-- How a user's future leaves one poll. -/
inductive PollResult (V : Type) where
  | ready (v : V)
  | pending
  | panicked
deriving DecidableEq

/-- What the scheduler, the kernel and the user's code decide at a step. -/
inductive Choice (V : Type) where
  /-- The step has no choice. -/
  | go
  /-- A weak compare-and-swap fails, or a condvar wait times out. -/
  | spurious
  /-- The waiter that `notify_one` notifies, or the position of the heap's top entry. -/
  | pick (i : ℕ)
  /-- The reading of `Instant::now`. -/
  | now (t : ℕ)
  /-- `epoll_wait` returns: whether the eventfd is in the batch, and the wakers of the other
  events. -/
  | epoll (eventfdReady : Bool) (ws : List Waker)
  | call (op : Call)
  | ret (r : PollResult V)

/-! ### Operations on the shared state -/

namespace Shared

variable {V : Type}

def modifyTask (sh : Shared V) (x : TaskId) (g : Task V → Task V) : Shared V :=
  { sh with task := Function.update sh.task x (g (sh.task x)) }

def modifyHist (sh : Shared V) (x : TaskId) (g : TaskHist V → TaskHist V) : Shared V :=
  { sh with hist := Function.update sh.hist x (g (sh.hist x)) }

def modifySleep (sh : Shared V) (k : ℕ) (g : SleepHist → SleepHist) : Shared V :=
  { sh with sleepHist := Function.update sh.sleepHist k (g (sh.sleepHist k)) }

/-- The return of the call of the waker `w`, in the history of the timer whose firing made the
call, if one did. -/
def sleepWoken (sh : Shared V) (w : Waker) (fired : Option (ℕ × ℕ)) : Shared V :=
  { sh with sleepHist :=
    match fired with
    | none => sh.sleepHist
    | some (k, p) => Function.update sh.sleepHist k
        { sh.sleepHist k with woken := ⟨w, p⟩ :: (sh.sleepHist k).woken, ended := true } }

/-- The return of a call of the foreign waker `n`. -/
def foreignReturned (sh : Shared V) (n : ℕ) : Shared V :=
  { sh with foreignWakes := Function.update sh.foreignWakes n (sh.foreignWakes n + 1) }

@[simp] theorem modifyTask_hist (sh : Shared V) (x : TaskId) (g : Task V → Task V) :
    (sh.modifyTask x g).hist = sh.hist := rfl

@[simp] theorem modifyHist_task (sh : Shared V) (x : TaskId) (g : TaskHist V → TaskHist V) :
    (sh.modifyHist x g).task = sh.task := rfl

@[simp] theorem sleepWoken_task (sh : Shared V) (w : Waker) (t : Option (ℕ × ℕ)) :
    (sh.sleepWoken w t).task = sh.task := rfl

@[simp] theorem sleepWoken_hist (sh : Shared V) (w : Waker) (t : Option (ℕ × ℕ)) :
    (sh.sleepWoken w t).hist = sh.hist := rfl

@[simp] theorem modifyTask_task_self (sh : Shared V) (x : TaskId) (g : Task V → Task V) :
    (sh.modifyTask x g).task x = g (sh.task x) := by
  simp [modifyTask]

@[simp] theorem modifyHist_hist_self (sh : Shared V) (x : TaskId) (g : TaskHist V → TaskHist V) :
    (sh.modifyHist x g).hist x = g (sh.hist x) := by
  simp [modifyHist]

@[simp] theorem modifyTask_task_of_ne (sh : Shared V) {x y : TaskId} (h : y ≠ x)
    (g : Task V → Task V) : (sh.modifyTask x g).task y = sh.task y := by
  simp [modifyTask, h]

@[simp] theorem modifyHist_hist_of_ne (sh : Shared V) {x y : TaskId} (h : y ≠ x)
    (g : TaskHist V → TaskHist V) : (sh.modifyHist x g).hist y = sh.hist y := by
  simp [modifyHist, h]

theorem modifyHist_hist {α : Type*} (p : TaskHist V → α) (sh : Shared V) (x y : TaskId)
    (g : TaskHist V → TaskHist V) (h : p (g (sh.hist y)) = p (sh.hist y)) :
    p ((sh.modifyHist y g).hist x) = p (sh.hist x) := by
  rcases eq_or_ne x y with rfl | hne
  · rw [modifyHist_hist_self, h]
  · rw [modifyHist_hist_of_ne sh hne]

def setStatus (sh : Shared V) (x : TaskId) (st : Status) : Shared V :=
  sh.modifyTask x fun t => { t with status := st }

/-- `x` has been handed out by `next_task_id`. -/
def Allocated (sh : Shared V) (x : TaskId) : Prop := 1 ≤ x ∧ x < sh.nextTaskId

instance (sh : Shared V) (x : TaskId) : Decidable (sh.Allocated x) :=
  inferInstanceAs (Decidable (_ ∧ _))

/-- The wakers that exist: a task's waker is made with the task. -/
def ValidWaker (sh : Shared V) : Waker → Prop
  | .task x => sh.Allocated x
  | .other _ => True

instance (sh : Shared V) : (w : Waker) → Decidable (sh.ValidWaker w)
  | .task x => inferInstanceAs (Decidable (sh.Allocated x))
  | .other _ => inferInstanceAs (Decidable True)

/-- `Reactor::wake`: a write of `1` to the non-blocking eventfd, which fails without effect when
the counter is at its maximum. -/
def reactorWake (sh : Shared V) : Shared V :=
  { sh with eventfd := if sh.eventfd < 2 ^ 64 - 2 then sh.eventfd + 1 else sh.eventfd }

/-- After a wake the eventfd is readable, also when its counter is at the maximum. -/
theorem reactorWake_pos (sh : Shared V) : 0 < sh.reactorWake.eventfd := by
  simp only [reactorWake]
  split_ifs <;> omega

/-- `notify_all` on the condvar. -/
def notifyAll (sh : Shared V) : Shared V := { sh with waiters := [] }

/-- `fetch_sub(1)` on the counter of live tasks. -/
def decActive (sh : Shared V) : Shared V :=
  { sh with activeCount := if sh.activeCount = 0 then 2 ^ 64 - 1 else sh.activeCount - 1 }

/-- The beginning of `MultiThreadRuntime::spawn` and of `block_on`: a new id and a task for it in
the state `SCHEDULED`. -/
def newTask (sh : Shared V) (root : Bool) : Shared V :=
  { sh with
    nextTaskId := sh.nextTaskId + 1
    task := Function.update sh.task sh.nextTaskId (Task.blank root .scheduled)
    hist := Function.update sh.hist sh.nextTaskId TaskHist.blank }

end Shared

end MiniAsync.MultiThread
