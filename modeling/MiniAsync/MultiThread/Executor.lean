/-
  The scheduling half of `multi_thread/executor.rs` and the task wrappers of
  `multi_thread/task.rs` and `multi_thread/runtime.rs`, one atomic access or
  critical section a step: `enqueue_task`, `spawn`, `wake_by_ref_impl`,
  `JoinHandle::poll`, `block_on` and `poll_task`.

  Each function takes the position its frame has reached and returns the shared
  state after the step with the frames that replace the frame; `none` means that
  the step cannot be taken (a mutex is held, or the choice does not fit).
-/
import MiniAsync.MultiThread.State

namespace MiniAsync.MultiThread

variable {V : Type}

/-- The result of a step. -/
abbrev Step (V : Type) := Option (Shared V × List (Frame V))

/-! ### Enqueueing and waking -/

/-- `SharedState::enqueue_task`. -/
def enqueueTask (sh : Shared V) (x : TaskId) (pc : EnqueuePc) (c : Choice V) : Step V :=
  match pc with
  | .push =>
    if sh.queueLocked then none
    else some ({ sh with readyQueue := sh.readyQueue.enqueue x }, [.enqueue x .loadToken])
  | .loadToken =>
    if sh.driverToken then some (sh, [.enqueue x .wakeReactor])
    else some (sh, [.enqueue x .notifyOne])
  | .wakeReactor => some (sh.reactorWake, [.enqueue x .notifyOne])
  | .notifyOne =>
    if sh.waiters = [] then some (sh, [])
    else
      match c with
      | .pick i =>
        if i ∈ sh.waiters then some ({ sh with waiters := sh.waiters.erase i }, []) else none
      | _ => none

/-- `waker_wake` and `waker_wake_by_ref`. What a foreign waker does is not part of the runtime: its
call returns at once. -/
def wakerWake (sh : Shared V) (w : Waker) (fired : Option (ℕ × ℕ)) : Step V :=
  match w with
  | .task x =>
    some (sh.modifyHist x fun h => { h with wakes := h.wakes + 1 },
      [.wake x (sh.hist x).polls fired .load])
  | .other n => some ((sh.sleepWoken (.other n) fired).foreignReturned n, [])

/-- The return of a wake call. -/
def wakeReturned (sh : Shared V) (x : TaskId) (epoch : ℕ) (fired : Option (ℕ × ℕ)) : Shared V :=
  (sh.sleepWoken (.task x) fired).modifyHist x fun h =>
    { h with returned := epoch :: h.returned }

/-- `wake_by_ref_impl`. -/
def wakeByRefImpl (sh : Shared V) (x : TaskId) (epoch : ℕ) (fired : Option (ℕ × ℕ)) (pc : WakePc)
    (c : Choice V) : Step V :=
  match pc with
  | .load =>
    match (sh.task x).status with
    | .idle => some (sh, [.wake x epoch fired .casIdle])
    | .running => some (sh, [.wake x epoch fired .casRunning])
    | .scheduled => some (wakeReturned sh x epoch fired, [])
    | .notified => some (wakeReturned sh x epoch fired, [])
  | .casIdle =>
    match (sh.task x).status, c with
    | .idle, .go => some (sh.setStatus x .scheduled, [.enqueue x .push, .wake x epoch fired .ret])
    | _, _ => some (sh, [.wake x epoch fired .load])
  | .casRunning =>
    match (sh.task x).status, c with
    | .running, .go => some (wakeReturned (sh.setStatus x .notified) x epoch fired, [])
    | _, _ => some (sh, [.wake x epoch fired .load])
  | .ret => some (wakeReturned sh x epoch fired, [])

/-- `SharedState::spawn`. -/
def spawnTask (sh : Shared V) (x : TaskId) (pc : SpawnPc) : Step V :=
  match pc with
  | .insert => some ({ sh with tasks := insert x sh.tasks }, [.spawn x .incActive])
  | .incActive => some ({ sh with activeCount := sh.activeCount + 1 }, [.enqueue x .push])

/-! ### Awaiting a result -/

/-- `JoinHandle::poll` with the waker `w` of the context, made by the task `poller` (or by no
task). -/
def pollJoin (sh : Shared V) (poller : Option TaskId) (x : TaskId) (w : Waker) : Shared V :=
  match (sh.task x).result with
  | some v =>
    (sh.modifyTask x fun t => { t with result := none }).modifyHist x fun h =>
      { h with yielded := v :: h.yielded, lastPoll := some ⟨poller, w, true⟩ }
  | none =>
    (sh.modifyTask x fun t => { t with waker := some w }).modifyHist x fun h =>
      { h with
        lastPoll := some ⟨poller, w, false⟩
        lastPending := some w
        repolled := h.repolled || !h.yielded.isEmpty }

/-- The caller of `block_on`, after its `spawn`: it takes the value out of the slot, or waits on
the condition variable, from which it may wake at any time. -/
def blockOn (sh : Shared V) (x : TaskId) (pc : BlockOnPc) : Step V :=
  match pc with
  | .park =>
    match (sh.task x).signal with
    | some v =>
      some ((sh.modifyTask x fun t => { t with signal := none }).modifyHist x fun h =>
        { h with yielded := v :: h.yielded }, [])
    | none => some (sh, [.blockOn x .wait])
  | .wait => some (sh, [.blockOn x .park])

/-- A call from outside of the runtime: by the future of the task `poller` while it is polled,
or by another thread. -/
def userCall (sh : Shared V) (poller : Option TaskId) (op : Call) : Step V :=
  match op with
  | .spawn => some (sh.newTask false, [.spawn sh.nextTaskId .insert])
  | .blockOn =>
    some (sh.newTask true, [.spawn sh.nextTaskId .insert, .blockOn sh.nextTaskId .park])
  | .sleep d => some (sh, [.sleep (.now d)])
  | .shutdown => some (sh, [.shutdown .store])
  | .wake w => if sh.ValidWaker w then some (sh, [.wakerWake w none]) else none
  | .pollSleep k w =>
    if k < sh.timerCount ∧ sh.ValidWaker w then
      some (sh.modifySleep k fun h => { h with polls := h.polls + 1 },
        [.pollSleep k ⟨w, (sh.sleepHist k).polls⟩ .load])
    else none
  | .pollJoin x w =>
    if sh.Allocated x ∧ (sh.task x).root = false ∧ (sh.task x).locked = false ∧ sh.ValidWaker w
    then some (pollJoin sh poller x w, [])
    else none

/-! ### Polling a task -/

/-- A worker's position in `poll_task`. -/
abbrev atPoll (x : TaskId) (pc : PollPc V) : Frame V := .worker (.pollTask x pc)

/-- The user's future runs inside `Task::poll`: it calls, or it leaves the poll. -/
def polling (sh : Shared V) (x : TaskId) (c : Choice V) : Step V :=
  match c with
  | .call op =>
    (userCall sh (some x) op).map fun r => (r.1, r.2 ++ [atPoll x .polling])
  | .ret (.ready v) =>
    some (sh.modifyHist x fun h => { h with output := some v },
      [atPoll x (if (sh.task x).root then .storeSignal v else .storeResult v)])
  | .ret .pending => some (sh, [atPoll x .casIdle])
  | .ret .panicked =>
    some (sh.modifyHist x fun h => { h with finished := true, panicked := true },
      [atPoll x .remove])
  | _ => none

/-- The value is stored and the awaiter's waker is taken out, with the `TaskState` left locked. -/
def Shared.resultStored (sh : Shared V) (x : TaskId) (v : V) : Shared V :=
  (sh.modifyTask x fun t =>
    { t with result := some v, waker := none, locked := true }).modifyHist x fun h =>
      { h with
        stored := true, storedAt := fun a => (sh.hist a).polls, foreignAt := sh.foreignWakes
        taken := (sh.task x).waker }

/-- `wrap_future_with_state` after `future.await`: under the lock of the `TaskState` the value is
stored and the awaiter's waker is taken and woken. -/
def storeResult (sh : Shared V) (x : TaskId) (v : V) : Step V :=
  if (sh.task x).locked then none
  else
    match (sh.task x).waker with
    | some w => some (sh.resultStored x v, [.wakerWake w none, atPoll x .unlock])
    | none => some (sh.resultStored x v, [atPoll x .unlock])

/-- `poll_task`. -/
def pollTask (sh : Shared V) (x : TaskId) (pc : PollPc V) (c : Choice V) : Step V :=
  match pc with
  | .lookup =>
    if x ∈ sh.tasks then some (sh, [atPoll x .casRunning]) else some (sh, [.worker .top])
  | .casRunning =>
    if (sh.task x).status = .scheduled then
      some ((sh.setStatus x .running).modifyHist x fun h => { h with polls := h.polls + 1 },
        [atPoll x .polling])
    else some (sh, [.worker .top])
  | .polling => polling sh x c
  | .storeResult v => storeResult sh x v
  | .unlock =>
    some ((sh.modifyTask x fun t => { t with locked := false }).modifyHist x fun h =>
      { h with woken := true, finished := true }, [atPoll x .remove])
  | .storeSignal v =>
    some ((sh.modifyTask x fun t => { t with signal := some v }).modifyHist x fun h =>
      { h with stored := true }, [atPoll x .notifySignal])
  | .notifySignal =>
    some (sh.modifyHist x fun h => { h with finished := true }, [atPoll x .remove])
  | .remove =>
    some (({ sh with tasks := sh.tasks.erase x }).modifyHist x fun h => { h with removed := true },
      [atPoll x .decActive])
  | .decActive => some (sh.decActive, [atPoll x .notifyAll])
  | .notifyAll => some (sh.notifyAll, [.worker .top])
  | .casIdle =>
    if (sh.task x).status = .running then some (sh.setStatus x .idle, [.worker .top])
    else some (sh, [atPoll x .storeScheduled])
  | .storeScheduled =>
    some (sh.setStatus x .scheduled, [.enqueue x .push, .worker .top])

end MiniAsync.MultiThread
