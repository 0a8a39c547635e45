/-
  The driving half of the multi-threaded runtime: `TimerWheel::process` and
  `sleep` (`multi_thread/timer.rs`, `multi_thread/runtime.rs`), `drive_io` with
  the reactor's poll, `run_worker` (`multi_thread/executor.rs`) and `shutdown`;
  and the machine that interleaves all of it.
-/
import MiniAsync.Interleave.Machine
import MiniAsync.MultiThread.Executor

namespace MiniAsync.MultiThread

open Interleave

variable {V : Type}

/-! ### Timers -/

/-- `MultiThreadRuntime::sleep`. -/
def sleep (sh : Shared V) (pc : SleepPc) (c : Choice V) : Step V :=
  match pc with
  | .now d =>
    match c with
    | .now t =>
      if sh.clock ≤ t then some ({ sh with clock := t }, [.sleep (.register (t + d))]) else none
    | _ => none
  | .register deadline =>
    some ({ sh with
      inbox := sh.inbox ++ [⟨deadline, sh.timerCount⟩]
      timer := Function.update sh.timer sh.timerCount TimerState.new
      sleepHist := Function.update sh.sleepHist sh.timerCount SleepHist.blank
      timerCount := sh.timerCount + 1
      timerHist := { sh.timerHist with
        registered := sh.timerHist.registered ++ [⟨deadline, sh.timerCount⟩] } },
      [.sleep (.wakeReactor sh.timerCount)])
  | .wakeReactor k =>
    some ({ sh.reactorWake with
      timerHist := { sh.timerHist with returned := k :: sh.timerHist.returned } }, [])

/-- `Sleep::poll`. -/
def pollSleep (sh : Shared V) (k : ℕ) (w : PollWaker) (pc : TimerState.PollPc) (c : Choice V) :
    Step V :=
  let spurious := match c with | .spurious => true | _ => false
  match (sh.timer k).poll w spurious pc with
  | (st, .inl pc') =>
    some ({ sh with timer := Function.update sh.timer k st }, [.pollSleep k w pc'])
  | (st, .inr r) =>
    some ({ sh with timer := Function.update sh.timer k st }.modifySleep k fun h =>
      { h with lastPoll := some (w, r) }, [])

def Shared.setTimerWaker (sh : Shared V) (k : ℕ) (cell : AtomicWaker PollWaker) : Shared V :=
  { sh with timer := Function.update sh.timer k { sh.timer k with waker := cell } }

/-- `AtomicWaker::wake` on the timer `k`, with the call of the waker it takes. -/
def fire (sh : Shared V) (k : ℕ) (pc : AtomicWaker.WakePc PollWaker) (c : Choice V) : Step V :=
  let spurious := match c with | .spurious => true | _ => false
  match (sh.timer k).waker.wake spurious pc with
  | (cell, .inl pc') => some (sh.setTimerWaker k cell, [.fire k pc'])
  | (cell, .inr none) =>
    some ((sh.setTimerWaker k cell).modifySleep k fun h => { h with ended := true }, [])
  | (cell, .inr (some w)) =>
    some (sh.setTimerWaker k cell, [.wakerWake w.waker (some (k, w.poll))])

/-- A worker's position in `drive_io`. -/
abbrev atDrive (pc : DrivePc) : Frame V := .worker (.driveIo pc)

/-- A `process` call returns, which only the history shows. -/
def Shared.processed (sh : Shared V) (known now : ℕ) : Shared V :=
  { sh with timerHist :=
    { sh.timerHist with processed := (known, now) :: sh.timerHist.processed } }

/-- The return of `process`: the first call goes on with `has_pending`, the second one ends
`drive_io`. -/
def processReturn (sh : Shared V) (again : Bool) (known now : ℕ) (next : Option ℕ) : Step V :=
  some (sh.processed known now,
    [if again then .worker .release else atDrive (.hasPending now next)])

/-- `TimerWheel::process`. The top of the `BinaryHeap` is some entry with the least deadline. -/
def process (sh : Shared V) (again : Bool) (pc : ProcessPc) (c : Choice V) : Step V :=
  match pc with
  | .drain =>
    some ({ sh with heap := sh.heap ++ sh.inbox, inbox := [] },
      [atDrive (.process again (.now sh.timerCount))])
  | .now known =>
    match c with
    | .now t =>
      if sh.clock ≤ t then
        some ({ sh with clock := t }, [atDrive (.process again (.loop known t))])
      else none
    | _ => none
  | .loop known now =>
    if sh.heap = [] then processReturn sh again known now none
    else
      match c with
      | .pick j =>
        match sh.heap[j]? with
        | some e =>
          if ∀ e' ∈ sh.heap, e.deadline ≤ e'.deadline then
            if e.deadline ≤ now then
              some ({ sh with heap := sh.heap.eraseIdx j },
                [atDrive (.process again (.complete known now e))])
            else processReturn sh again known now (some (e.deadline - now))
          else none
        | none => none
      | _ => none
  | .complete known now e =>
    some ({ sh with
      timer := Function.update sh.timer e.id { sh.timer e.id with completed := true }
      timerHist := { sh.timerHist with
        completions := (e.id, now) :: sh.timerHist.completions } },
      [.fire e.id .cas, atDrive (.process again (.fired known now e))])
  | .fired known now e =>
    some ({ sh with timerHist := { sh.timerHist with fired := e.id :: sh.timerHist.fired } },
      [atDrive (.process again (.loop known now))])

/-- The timeout that `drive_io` gives to the reactor, from the result of `process` and of
`has_pending`. -/
def driveTimeout (next : Option ℕ) (hasPending : Bool) : ℕ :=
  if hasPending then next.getD 1000000 else next.getD 5000000

/-- `drive_io`. The events of the reactor other than the eventfd are the kernel's choice: any
wakers may be among those collected. -/
def driveIo (sh : Shared V) (pc : DrivePc) (c : Choice V) : Step V :=
  match pc with
  | .process again pc => process sh again pc c
  | .hasPending now next =>
    some (sh, [atDrive (.epollWait now
      (driveTimeout next (!sh.heap.isEmpty || !sh.inbox.isEmpty)))])
  | .epollWait _ _ =>
    match c with
    | .epoll eventfdReady ws =>
      if (eventfdReady = true → 0 < sh.eventfd) ∧ ∀ w ∈ ws, sh.ValidWaker w then
        some (sh, [atDrive (.collect eventfdReady ws)])
      else none
    | _ => none
  | .collect eventfdReady ws =>
    some ({ sh with eventfd := if eventfdReady then 0 else sh.eventfd }, [atDrive (.wakeAll ws)])
  | .wakeAll [] => some (sh, [atDrive (.process true .drain)])
  | .wakeAll (w :: ws) => some (sh, [.wakerWake w none, atDrive (.wakeAll ws)])

/-! ### Workers -/

/-- `run_worker`, as thread `i`. -/
def runWorker (i : ℕ) (sh : Shared V) (pc : WorkerPc V) (c : Choice V) : Step V :=
  match pc with
  | .top =>
    if sh.shutdown then some ({ sh with workersAlive := sh.workersAlive.erase i }, [])
    else some (sh, [.worker .dequeue])
  | .dequeue =>
    if sh.queueLocked then none
    else
      match sh.readyQueue.dequeue with
      | (some x, q) => some ({ sh with readyQueue := q }, [atPoll x .lookup])
      | (none, q) => some ({ sh with readyQueue := q }, [.worker .casToken])
  | .casToken =>
    if sh.driverToken then some (sh, [.worker .lockQueue])
    else some ({ sh with driverToken := true }, [.worker .recheck])
  | .recheck =>
    if sh.queueLocked then none
    else if sh.readyQueue.isEmpty then some (sh, [atDrive (.process false .drain)])
    else some (sh, [.worker .release])
  | .release => some ({ sh with driverToken := false }, [.worker .top])
  | .lockQueue =>
    if sh.queueLocked then none
    else if sh.readyQueue.isEmpty then
      some ({ sh with queueLocked := true }, [.worker .checkShutdown])
    else some (sh, [.worker .top])
  | .checkShutdown =>
    if sh.shutdown then
      some ({ sh with queueLocked := false, workersAlive := sh.workersAlive.erase i }, [])
    else some (sh, [.worker .wait])
  | .wait =>
    some ({ sh with queueLocked := false, waiters := sh.waiters ++ [i] }, [.worker .waiting])
  | .waiting =>
    if i ∈ sh.waiters then
      match c with
      | .spurious => some ({ sh with waiters := sh.waiters.erase i }, [.worker .reacquire])
      | _ => none
    else some (sh, [.worker .reacquire])
  | .reacquire => if sh.queueLocked then none else some (sh, [.worker .top])
  | .pollTask x pc => pollTask sh x pc c
  | .driveIo pc => driveIo sh pc c

/-- `MultiThreadRuntime::shutdown`, called on thread `i`. It panics if the mutex of the `workers` is
poisoned, and if it comes to the handle of its own thread: then the other handles are dropped, and
the guard, which is dropped last, poisons the mutex. -/
def shutdown (i : ℕ) (sh : Shared V) (pc : ShutdownPc) : Step V :=
  match pc with
  | .store => some ({ sh with shutdown := true }, [.shutdown .notifyAll])
  | .notifyAll => some (sh.notifyAll, [.shutdown .wakeReactor])
  | .wakeReactor => some ({ sh.reactorWake with shutdownWoken := true }, [.shutdown .lock])
  | .lock =>
    if sh.workersLocked then none
    else if sh.workersPoisoned then some (sh, [])
    else some ({ sh with workersLocked := true, workers := [] }, [.shutdown (.join sh.workers)])
  | .join [] => some ({ sh with workersLocked := false }, [])
  | .join (j :: handles) =>
    if j = i then some ({ sh with workersLocked := false, workersPoisoned := true }, [])
    else if j ∈ sh.workersAlive then none
    else some (sh, [.shutdown (.join handles)])

/-! ### The machine -/

/-- One step of thread `i` with the frame `f` on top of its stack. -/
def exec (i : ℕ) (sh : Shared V) (f : Frame V) (c : Choice V) : Step V :=
  match f with
  | .worker pc => runWorker i sh pc c
  | .external =>
    match c with
    | .call op => (userCall sh none op).map fun r => (r.1, r.2 ++ [.external])
    | _ => none
  | .wakerWake w fired => wakerWake sh w fired
  | .wake x epoch fired pc => wakeByRefImpl sh x epoch fired pc c
  | .enqueue x pc => enqueueTask sh x pc c
  | .spawn x pc => spawnTask sh x pc
  | .blockOn x pc => blockOn sh x pc
  | .sleep pc => sleep sh pc c
  | .pollSleep k w pc => pollSleep sh k w pc c
  | .fire k pc => fire sh k pc c
  | .shutdown pc => shutdown i sh pc

/-- The multi-threaded runtime as a machine. -/
def machine (V : Type) : Machine (Shared V) (Frame V) (Choice V) := ⟨exec⟩

/-- The shared state of a new runtime with `n` workers. -/
def Shared.new (n : ℕ) : Shared V where
  tasks := ∅
  readyQueue := ReadyQueue.new
  activeCount := 0
  shutdown := false
  driverToken := false
  queueLocked := false
  waiters := []
  eventfd := 0
  inbox := []
  heap := []
  timer := fun _ => TimerState.new
  timerCount := 0
  clock := 0
  nextTaskId := 1
  workersAlive := Finset.range n
  workers := List.range n
  workersLocked := false
  workersPoisoned := false
  task := fun _ => Task.blank false .idle
  hist := fun _ => TaskHist.blank
  sleepHist := fun _ => SleepHist.blank
  timerHist := TimerHist.blank
  foreignWakes := fun _ => 0
  shutdownWoken := false

/-- A runtime with `n` workers and `m` other threads that may use it: threads `0, …, n - 1` are
the workers. -/
def start (V : Type) (n m : ℕ) : Config (Shared V) (Frame V) where
  shared := Shared.new n
  threads := List.replicate n [.worker .top] ++ List.replicate m [.external]

/-- The configurations of a runtime with `n` workers and `m` other threads. -/
abbrev Reachable (n m : ℕ) (c : Config (Shared V) (Frame V)) : Prop :=
  (machine V).Reaches (start V n m) c

end MiniAsync.MultiThread
