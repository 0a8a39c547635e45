/-
  What a step of the multi-threaded runtime can do, as a table: one constructor
  for each outcome of an atomic access, with its guard, the shared state after
  it and the frames that replace the frame. `exec_cases` reads the table off
  `exec`; every invariant is then a case analysis over the table.
-/
import MiniAsync.MultiThread.Runtime

namespace MiniAsync.MultiThread

open Interleave

variable {V : Type}

/-- The frame from which code outside of the runtime runs: the poll of a task, or a thread of its
own. -/
def baseFrame : Option TaskId → Frame V
  | some x => atPoll x .polling
  | none => .external

theorem baseFrame_ne {p : Option TaskId} {f : Frame V} (hf : ∀ x, atPoll x .polling ≠ f)
    (he : .external ≠ f) : baseFrame p ≠ f := by
  cases p with
  | none => exact he
  | some x => exact hf x

/-- `Exec i sh f sh' fs`: thread `i` with the frame `f` on top may turn `sh` into `sh'` and `f`
into `fs`. -/
inductive Exec (i : ℕ) (sh : Shared V) : Frame V → Shared V → List (Frame V) → Prop
  -- `run_worker`
  | topExit (h : sh.shutdown = true) :
      Exec i sh (.worker .top) { sh with workersAlive := sh.workersAlive.erase i } []
  | topGo (h : sh.shutdown = false) : Exec i sh (.worker .top) sh [.worker .dequeue]
  | dequeueSome (x : TaskId) (q : ReadyQueue) (hl : sh.queueLocked = false)
      (h : sh.readyQueue.dequeue = (some x, q)) :
      Exec i sh (.worker .dequeue) { sh with readyQueue := q } [atPoll x .lookup]
  | dequeueNone (hl : sh.queueLocked = false) (h : sh.readyQueue.queue = []) :
      Exec i sh (.worker .dequeue) sh [.worker .casToken]
  | tokenLost (h : sh.driverToken = true) : Exec i sh (.worker .casToken) sh [.worker .lockQueue]
  | tokenWon (h : sh.driverToken = false) :
      Exec i sh (.worker .casToken) { sh with driverToken := true } [.worker .recheck]
  | recheckEmpty (hl : sh.queueLocked = false) (h : sh.readyQueue.queue = []) :
      Exec i sh (.worker .recheck) sh [atDrive (.process false .drain)]
  | recheckBusy (hl : sh.queueLocked = false) (h : sh.readyQueue.queue ≠ []) :
      Exec i sh (.worker .recheck) sh [.worker .release]
  | release : Exec i sh (.worker .release) { sh with driverToken := false } [.worker .top]
  | lockEmpty (hl : sh.queueLocked = false) (h : sh.readyQueue.queue = []) :
      Exec i sh (.worker .lockQueue) { sh with queueLocked := true } [.worker .checkShutdown]
  | lockBusy (hl : sh.queueLocked = false) (h : sh.readyQueue.queue ≠ []) :
      Exec i sh (.worker .lockQueue) sh [.worker .top]
  | sleepExit (h : sh.shutdown = true) :
      Exec i sh (.worker .checkShutdown)
        { sh with queueLocked := false, workersAlive := sh.workersAlive.erase i } []
  | sleepGo (h : sh.shutdown = false) : Exec i sh (.worker .checkShutdown) sh [.worker .wait]
  | wait :
      Exec i sh (.worker .wait) { sh with queueLocked := false, waiters := sh.waiters ++ [i] }
        [.worker .waiting]
  | timedOut (h : i ∈ sh.waiters) :
      Exec i sh (.worker .waiting) { sh with waiters := sh.waiters.erase i } [.worker .reacquire]
  | notified (h : i ∉ sh.waiters) : Exec i sh (.worker .waiting) sh [.worker .reacquire]
  | reacquire (hl : sh.queueLocked = false) : Exec i sh (.worker .reacquire) sh [.worker .top]
  -- `poll_task`
  | found (x : TaskId) (h : x ∈ sh.tasks) : Exec i sh (atPoll x .lookup) sh [atPoll x .casRunning]
  | notFound (x : TaskId) (h : x ∉ sh.tasks) : Exec i sh (atPoll x .lookup) sh [.worker .top]
  | started (x : TaskId) (h : (sh.task x).status = .scheduled) :
      Exec i sh (atPoll x .casRunning)
        ((sh.setStatus x .running).modifyHist x fun h => { h with polls := h.polls + 1 })
        [atPoll x .polling]
  | casFailed (x : TaskId) (h : (sh.task x).status ≠ .scheduled) :
      Exec i sh (atPoll x .casRunning) sh [.worker .top]
  | retReady (x : TaskId) (v : V) (h : (sh.task x).root = false) :
      Exec i sh (atPoll x .polling) (sh.modifyHist x fun h => { h with output := some v })
        [atPoll x (.storeResult v)]
  | retReadyRoot (x : TaskId) (v : V) (h : (sh.task x).root = true) :
      Exec i sh (atPoll x .polling) (sh.modifyHist x fun h => { h with output := some v })
        [atPoll x (.storeSignal v)]
  | retPending (x : TaskId) : Exec i sh (atPoll x .polling) sh [atPoll x .casIdle]
  | retPanicked (x : TaskId) :
      Exec i sh (atPoll x .polling)
        (sh.modifyHist x fun h => { h with finished := true, panicked := true })
        [atPoll x .remove]
  | storeResult (x : TaskId) (v : V) (hl : (sh.task x).locked = false)
      (hw : (sh.task x).waker = none) :
      Exec i sh (atPoll x (.storeResult v)) (sh.resultStored x v) [atPoll x .unlock]
  | storeResultWake (x : TaskId) (v : V) (w : Waker) (hl : (sh.task x).locked = false)
      (hw : (sh.task x).waker = some w) :
      Exec i sh (atPoll x (.storeResult v)) (sh.resultStored x v)
        [.wakerWake w none, atPoll x .unlock]
  | unlock (x : TaskId) :
      Exec i sh (atPoll x .unlock)
        ((sh.modifyTask x fun t => { t with locked := false }).modifyHist x fun h =>
          { h with woken := true, finished := true })
        [atPoll x .remove]
  | storeSignal (x : TaskId) (v : V) :
      Exec i sh (atPoll x (.storeSignal v))
        ((sh.modifyTask x fun t => { t with signal := some v }).modifyHist x fun h =>
          { h with stored := true })
        [atPoll x .notifySignal]
  | notifySignal (x : TaskId) :
      Exec i sh (atPoll x .notifySignal) (sh.modifyHist x fun h => { h with finished := true })
        [atPoll x .remove]
  | remove (x : TaskId) :
      Exec i sh (atPoll x .remove)
        (({ sh with tasks := sh.tasks.erase x }).modifyHist x fun h => { h with removed := true })
        [atPoll x .decActive]
  | decActive (x : TaskId) : Exec i sh (atPoll x .decActive) sh.decActive [atPoll x .notifyAll]
  | notifyAll (x : TaskId) : Exec i sh (atPoll x .notifyAll) sh.notifyAll [.worker .top]
  | idled (x : TaskId) (h : (sh.task x).status = .running) :
      Exec i sh (atPoll x .casIdle) (sh.setStatus x .idle) [.worker .top]
  | idleFailed (x : TaskId) (h : (sh.task x).status ≠ .running) :
      Exec i sh (atPoll x .casIdle) sh [atPoll x .storeScheduled]
  | storeScheduled (x : TaskId) :
      Exec i sh (atPoll x .storeScheduled) (sh.setStatus x .scheduled)
        [.enqueue x .push, .worker .top]
  -- `process` and `drive_io`
  | drain (again : Bool) :
      Exec i sh (atDrive (.process again .drain))
        { sh with heap := sh.heap ++ sh.inbox, inbox := [] }
        [atDrive (.process again (.now sh.timerCount))]
  | readClock (again : Bool) (known t : ℕ) (h : sh.clock ≤ t) :
      Exec i sh (atDrive (.process again (.now known))) { sh with clock := t }
        [atDrive (.process again (.loop known t))]
  | heapEmpty (known now : ℕ) (h : sh.heap = []) :
      Exec i sh (atDrive (.process false (.loop known now))) (sh.processed known now)
        [atDrive (.hasPending now none)]
  | heapEmptyAgain (known now : ℕ) (h : sh.heap = []) :
      Exec i sh (atDrive (.process true (.loop known now))) (sh.processed known now)
        [.worker .release]
  | popped (again : Bool) (known now j : ℕ) (e : TimerEntry) (hj : sh.heap[j]? = some e)
      (hmin : ∀ e' ∈ sh.heap, e.deadline ≤ e'.deadline) (h : e.deadline ≤ now) :
      Exec i sh (atDrive (.process again (.loop known now)))
        { sh with heap := sh.heap.eraseIdx j }
        [atDrive (.process again (.complete known now e))]
  | noneExpired (known now : ℕ) (e : TimerEntry) (he : e ∈ sh.heap)
      (hmin : ∀ e' ∈ sh.heap, e.deadline ≤ e'.deadline) (h : now < e.deadline) :
      Exec i sh (atDrive (.process false (.loop known now))) (sh.processed known now)
        [atDrive (.hasPending now (some (e.deadline - now)))]
  | noneExpiredAgain (known now : ℕ) (e : TimerEntry) (he : e ∈ sh.heap)
      (hmin : ∀ e' ∈ sh.heap, e.deadline ≤ e'.deadline) (h : now < e.deadline) :
      Exec i sh (atDrive (.process true (.loop known now))) (sh.processed known now)
        [.worker .release]
  | complete (again : Bool) (known now : ℕ) (e : TimerEntry) :
      Exec i sh (atDrive (.process again (.complete known now e)))
        { sh with
          timer := Function.update sh.timer e.id { sh.timer e.id with completed := true }
          timerHist := { sh.timerHist with
            completions := (e.id, now) :: sh.timerHist.completions } }
        [.fire e.id .cas, atDrive (.process again (.fired known now e))]
  | fired (again : Bool) (known now : ℕ) (e : TimerEntry) :
      Exec i sh (atDrive (.process again (.fired known now e)))
        { sh with timerHist := { sh.timerHist with fired := e.id :: sh.timerHist.fired } }
        [atDrive (.process again (.loop known now))]
  | hasPending (now : ℕ) (next : Option ℕ) :
      Exec i sh (atDrive (.hasPending now next)) sh
        [atDrive (.epollWait now
          (driveTimeout next (!sh.heap.isEmpty || !sh.inbox.isEmpty)))]
  | epollReturn (now timeout : ℕ) (eventfdReady : Bool) (ws : List Waker)
      (h : eventfdReady = true → 0 < sh.eventfd) (hws : ∀ w ∈ ws, sh.ValidWaker w) :
      Exec i sh (atDrive (.epollWait now timeout)) sh [atDrive (.collect eventfdReady ws)]
  | collect (eventfdReady : Bool) (ws : List Waker) :
      Exec i sh (atDrive (.collect eventfdReady ws))
        { sh with eventfd := if eventfdReady then 0 else sh.eventfd } [atDrive (.wakeAll ws)]
  | wakeAllEnd : Exec i sh (atDrive (.wakeAll [])) sh [atDrive (.process true .drain)]
  | wakeAllNext (w : Waker) (ws : List Waker) :
      Exec i sh (atDrive (.wakeAll (w :: ws))) sh [.wakerWake w none, atDrive (.wakeAll ws)]
  -- calls from outside
  | callSpawn (p : Option TaskId) :
      Exec i sh (baseFrame p) (sh.newTask false) [.spawn sh.nextTaskId .insert, baseFrame p]
  | callBlockOn (p : Option TaskId) :
      Exec i sh (baseFrame p) (sh.newTask true)
        [.spawn sh.nextTaskId .insert, .blockOn sh.nextTaskId .park, baseFrame p]
  | callSleep (p : Option TaskId) (d : ℕ) :
      Exec i sh (baseFrame p) sh [.sleep (.now d), baseFrame p]
  | callShutdown (p : Option TaskId) :
      Exec i sh (baseFrame p) sh [.shutdown .store, baseFrame p]
  | callWake (p : Option TaskId) (w : Waker) (h : sh.ValidWaker w) :
      Exec i sh (baseFrame p) sh [.wakerWake w none, baseFrame p]
  | callPollSleep (p : Option TaskId) (k : ℕ) (w : Waker) (hk : k < sh.timerCount)
      (h : sh.ValidWaker w) :
      Exec i sh (baseFrame p) (sh.modifySleep k fun h => { h with polls := h.polls + 1 })
        [.pollSleep k ⟨w, (sh.sleepHist k).polls⟩ .load, baseFrame p]
  | joinReady (p : Option TaskId) (x : TaskId) (w : Waker) (v : V) (hx : sh.Allocated x)
      (hr : (sh.task x).root = false) (hl : (sh.task x).locked = false)
      (h : (sh.task x).result = some v) :
      Exec i sh (baseFrame p)
        ((sh.modifyTask x fun t => { t with result := none }).modifyHist x fun h =>
          { h with yielded := v :: h.yielded, lastPoll := some ⟨p, w, true⟩ })
        [baseFrame p]
  | joinPending (p : Option TaskId) (x : TaskId) (w : Waker) (hx : sh.Allocated x)
      (hr : (sh.task x).root = false) (hl : (sh.task x).locked = false) (hw : sh.ValidWaker w)
      (h : (sh.task x).result = none) :
      Exec i sh (baseFrame p)
        ((sh.modifyTask x fun t => { t with waker := some w }).modifyHist x fun h =>
          { h with
            lastPoll := some ⟨p, w, false⟩, lastPending := some w
            repolled := h.repolled || !h.yielded.isEmpty })
        [baseFrame p]
  -- `waker_wake` and `wake_by_ref_impl`
  | wakeTask (x : TaskId) (t : Option (ℕ × ℕ)) :
      Exec i sh (.wakerWake (.task x) t)
        (sh.modifyHist x fun h => { h with wakes := h.wakes + 1 })
        [.wake x (sh.hist x).polls t .load]
  | wakeOther (n : ℕ) (t : Option (ℕ × ℕ)) :
      Exec i sh (.wakerWake (.other n) t) ((sh.sleepWoken (.other n) t).foreignReturned n) []
  | loadIdle (x : TaskId) (b : ℕ) (t : Option (ℕ × ℕ)) (h : (sh.task x).status = .idle) :
      Exec i sh (.wake x b t .load) sh [.wake x b t .casIdle]
  | loadRunning (x : TaskId) (b : ℕ) (t : Option (ℕ × ℕ)) (h : (sh.task x).status = .running) :
      Exec i sh (.wake x b t .load) sh [.wake x b t .casRunning]
  | loadWoken (x : TaskId) (b : ℕ) (t : Option (ℕ × ℕ))
      (h : (sh.task x).status = .scheduled ∨ (sh.task x).status = .notified) :
      Exec i sh (.wake x b t .load) (wakeReturned sh x b t) []
  | wakeIdle (x : TaskId) (b : ℕ) (t : Option (ℕ × ℕ)) (h : (sh.task x).status = .idle) :
      Exec i sh (.wake x b t .casIdle) (sh.setStatus x .scheduled)
        [.enqueue x .push, .wake x b t .ret]
  | wakeRunning (x : TaskId) (b : ℕ) (t : Option (ℕ × ℕ)) (h : (sh.task x).status = .running) :
      Exec i sh (.wake x b t .casRunning) (wakeReturned (sh.setStatus x .notified) x b t) []
  | retryIdle (x : TaskId) (b : ℕ) (t : Option (ℕ × ℕ)) :
      Exec i sh (.wake x b t .casIdle) sh [.wake x b t .load]
  | retryRunning (x : TaskId) (b : ℕ) (t : Option (ℕ × ℕ)) :
      Exec i sh (.wake x b t .casRunning) sh [.wake x b t .load]
  | wakeRet (x : TaskId) (b : ℕ) (t : Option (ℕ × ℕ)) :
      Exec i sh (.wake x b t .ret) (wakeReturned sh x b t) []
  -- `enqueue_task` and `spawn`
  | push (x : TaskId) (hl : sh.queueLocked = false) :
      Exec i sh (.enqueue x .push) { sh with readyQueue := sh.readyQueue.enqueue x }
        [.enqueue x .loadToken]
  | tokenSeen (x : TaskId) (h : sh.driverToken = true) :
      Exec i sh (.enqueue x .loadToken) sh [.enqueue x .wakeReactor]
  | noToken (x : TaskId) (h : sh.driverToken = false) :
      Exec i sh (.enqueue x .loadToken) sh [.enqueue x .notifyOne]
  | enqueueWake (x : TaskId) :
      Exec i sh (.enqueue x .wakeReactor) sh.reactorWake [.enqueue x .notifyOne]
  | notifyNone (x : TaskId) (h : sh.waiters = []) : Exec i sh (.enqueue x .notifyOne) sh []
  | notifyOne (x : TaskId) (j : ℕ) (h : j ∈ sh.waiters) :
      Exec i sh (.enqueue x .notifyOne) { sh with waiters := sh.waiters.erase j } []
  | insert (x : TaskId) :
      Exec i sh (.spawn x .insert) { sh with tasks := insert x sh.tasks } [.spawn x .incActive]
  | incActive (x : TaskId) :
      Exec i sh (.spawn x .incActive) { sh with activeCount := sh.activeCount + 1 }
        [.enqueue x .push]
  -- `block_on`
  | signalTaken (x : TaskId) (v : V) (h : (sh.task x).signal = some v) :
      Exec i sh (.blockOn x .park)
        ((sh.modifyTask x fun t => { t with signal := none }).modifyHist x fun h =>
          { h with yielded := v :: h.yielded }) []
  | parked (x : TaskId) (h : (sh.task x).signal = none) :
      Exec i sh (.blockOn x .park) sh [.blockOn x .wait]
  | unparked (x : TaskId) : Exec i sh (.blockOn x .wait) sh [.blockOn x .park]
  -- timers
  | sleepNow (d t : ℕ) (h : sh.clock ≤ t) :
      Exec i sh (.sleep (.now d)) { sh with clock := t } [.sleep (.register (t + d))]
  | sleepRegister (deadline : ℕ) :
      Exec i sh (.sleep (.register deadline))
        { sh with
          inbox := sh.inbox ++ [⟨deadline, sh.timerCount⟩]
          timer := Function.update sh.timer sh.timerCount TimerState.new
          sleepHist := Function.update sh.sleepHist sh.timerCount SleepHist.blank
          timerCount := sh.timerCount + 1
          timerHist := { sh.timerHist with
            registered := sh.timerHist.registered ++ [⟨deadline, sh.timerCount⟩] } }
        [.sleep (.wakeReactor sh.timerCount)]
  | sleepWake (k : ℕ) :
      Exec i sh (.sleep (.wakeReactor k))
        { sh.reactorWake with
          timerHist := { sh.timerHist with returned := k :: sh.timerHist.returned } } []
  | pollSleep (k : ℕ) (w : PollWaker) (pc pc' : TimerState.PollPc) (spurious : Bool)
      (st : TimerState PollWaker) (h : (sh.timer k).poll w spurious pc = (st, .inl pc')) :
      Exec i sh (.pollSleep k w pc) { sh with timer := Function.update sh.timer k st }
        [.pollSleep k w pc']
  | pollSleepRet (k : ℕ) (w : PollWaker) (pc : TimerState.PollPc) (spurious : Bool)
      (st : TimerState PollWaker) (r : Poll Unit)
      (h : (sh.timer k).poll w spurious pc = (st, .inr r)) :
      Exec i sh (.pollSleep k w pc)
        ({ sh with timer := Function.update sh.timer k st }.modifySleep k fun h =>
          { h with lastPoll := some (w, r) }) []
  | fire (k : ℕ) (pc pc' : AtomicWaker.WakePc PollWaker) (spurious : Bool)
      (cell : AtomicWaker PollWaker)
      (h : (sh.timer k).waker.wake spurious pc = (cell, .inl pc')) :
      Exec i sh (.fire k pc) (sh.setTimerWaker k cell) [.fire k pc']
  | fireNone (k : ℕ) (pc : AtomicWaker.WakePc PollWaker) (spurious : Bool)
      (cell : AtomicWaker PollWaker)
      (h : (sh.timer k).waker.wake spurious pc = (cell, .inr none)) :
      Exec i sh (.fire k pc)
        ((sh.setTimerWaker k cell).modifySleep k fun h => { h with ended := true }) []
  | fireWake (k : ℕ) (pc : AtomicWaker.WakePc PollWaker) (spurious : Bool)
      (cell : AtomicWaker PollWaker) (w : PollWaker)
      (h : (sh.timer k).waker.wake spurious pc = (cell, .inr (some w))) :
      Exec i sh (.fire k pc) (sh.setTimerWaker k cell) [.wakerWake w.waker (some (k, w.poll))]
  -- `shutdown`
  | shutdownStore : Exec i sh (.shutdown .store) { sh with shutdown := true } [.shutdown .notifyAll]
  | shutdownNotify : Exec i sh (.shutdown .notifyAll) sh.notifyAll [.shutdown .wakeReactor]
  | shutdownWake :
      Exec i sh (.shutdown .wakeReactor) { sh.reactorWake with shutdownWoken := true }
        [.shutdown .lock]
  | shutdownLock (hl : sh.workersLocked = false) (hp : sh.workersPoisoned = false) :
      Exec i sh (.shutdown .lock) { sh with workersLocked := true, workers := [] }
        [.shutdown (.join sh.workers)]
  | shutdownPoisoned (hl : sh.workersLocked = false) (hp : sh.workersPoisoned = true) :
      Exec i sh (.shutdown .lock) sh []
  | shutdownJoined (j : ℕ) (handles : List ℕ) (hi : j ≠ i) (h : j ∉ sh.workersAlive) :
      Exec i sh (.shutdown (.join (j :: handles))) sh [.shutdown (.join handles)]
  | shutdownSelf (handles : List ℕ) :
      Exec i sh (.shutdown (.join (i :: handles)))
        { sh with workersLocked := false, workersPoisoned := true } []
  | shutdownEnd :
      Exec i sh (.shutdown (.join [])) { sh with workersLocked := false } []

/-! ### Reading the table off the functions -/

section Cases

variable {i : ℕ} {sh sh' : Shared V} {fs : List (Frame V)} {c : Choice V}

theorem enqueueTask_cases {x : TaskId} {pc : EnqueuePc}
    (h : enqueueTask sh x pc c = some (sh', fs)) : Exec i sh (.enqueue x pc) sh' fs := by
  cases pc with
  | push =>
    simp only [enqueueTask] at h
    split_ifs at h with hl
    cases h
    exact .push x (by simpa using hl)
  | loadToken =>
    simp only [enqueueTask] at h
    split_ifs at h with ht <;> cases h
    · exact .tokenSeen x ht
    · exact .noToken x (by simpa using ht)
  | wakeReactor =>
    cases h
    exact .enqueueWake x
  | notifyOne =>
    simp only [enqueueTask] at h
    split_ifs at h with hw
    · cases h
      exact .notifyNone x hw
    · split at h
      · split_ifs at h with hj
        cases h
        exact .notifyOne x _ hj
      · cases h

theorem wakeByRefImpl_cases {x : TaskId} {b : ℕ} {t : Option (ℕ × ℕ)} {pc : WakePc}
    (h : wakeByRefImpl sh x b t pc c = some (sh', fs)) : Exec i sh (.wake x b t pc) sh' fs := by
  cases pc with
  | load =>
    simp only [wakeByRefImpl] at h
    split at h <;> cases h
    · exact .loadIdle x b t ‹_›
    · exact .loadRunning x b t ‹_›
    · exact .loadWoken x b t (Or.inl ‹_›)
    · exact .loadWoken x b t (Or.inr ‹_›)
  | casIdle =>
    simp only [wakeByRefImpl] at h
    split at h <;> cases h
    · exact .wakeIdle x b t ‹_›
    · exact .retryIdle x b t
  | casRunning =>
    simp only [wakeByRefImpl] at h
    split at h <;> cases h
    · exact .wakeRunning x b t ‹_›
    · exact .retryRunning x b t
  | ret =>
    cases h
    exact .wakeRet x b t

theorem spawnTask_cases {x : TaskId} {pc : SpawnPc} (h : spawnTask sh x pc = some (sh', fs)) :
    Exec i sh (.spawn x pc) sh' fs := by
  cases pc <;> cases h
  · exact .insert x
  · exact .incActive x

theorem blockOn_cases {x : TaskId} {pc : BlockOnPc} (h : blockOn sh x pc = some (sh', fs)) :
    Exec i sh (.blockOn x pc) sh' fs := by
  cases pc with
  | park =>
    simp only [blockOn] at h
    split at h <;> cases h
    · exact .signalTaken x _ ‹_›
    · exact .parked x ‹_›
  | wait =>
    cases h
    exact .unparked x

theorem userCall_cases {p : Option TaskId} {op : Call} (h : userCall sh p op = some (sh', fs)) :
    Exec i sh (baseFrame p) sh' (fs ++ [baseFrame p]) := by
  cases op with
  | spawn => cases h; exact .callSpawn p
  | blockOn => cases h; exact .callBlockOn p
  | sleep d => cases h; exact .callSleep p d
  | shutdown => cases h; exact .callShutdown p
  | wake w =>
    simp only [userCall] at h
    split_ifs at h with hw
    cases h
    exact .callWake p w hw
  | pollSleep k w =>
    simp only [userCall] at h
    split_ifs at h with hk
    cases h
    exact .callPollSleep p k w hk.1 hk.2
  | pollJoin x w =>
    simp only [userCall] at h
    split_ifs at h with hx
    obtain ⟨hx, hr, hl, hw⟩ := hx
    cases h
    unfold pollJoin
    split
    · exact .joinReady p x w _ hx hr hl ‹_›
    · exact .joinPending p x w hx hr hl hw ‹_›

theorem polling_cases {x : TaskId} (h : polling sh x c = some (sh', fs)) :
    Exec i sh (atPoll x .polling) sh' fs := by
  unfold polling at h
  split at h
  · obtain ⟨r, hr, he⟩ := Option.map_eq_some_iff.mp h
    cases he
    exact userCall_cases (p := some x) hr
  · cases h
    by_cases hr : (sh.task x).root = true
    · rw [if_pos hr]
      exact .retReadyRoot x _ hr
    · rw [if_neg hr]
      exact .retReady x _ (by simpa using hr)
  · cases h
    exact .retPending x
  · cases h
    exact .retPanicked x
  · cases h

theorem storeResult_cases {x : TaskId} {v : V} (h : storeResult sh x v = some (sh', fs)) :
    Exec i sh (atPoll x (.storeResult v)) sh' fs := by
  unfold storeResult at h
  split_ifs at h with hl
  have hl : (sh.task x).locked = false := by simpa using hl
  split at h <;> cases h
  · exact .storeResultWake x v _ hl ‹_›
  · exact .storeResult x v hl ‹_›

theorem pollTask_cases {x : TaskId} {pc : PollPc V} (h : pollTask sh x pc c = some (sh', fs)) :
    Exec i sh (atPoll x pc) sh' fs := by
  cases pc with
  | lookup =>
    simp only [pollTask] at h
    split_ifs at h with hx <;> cases h
    · exact .found x hx
    · exact .notFound x hx
  | casRunning =>
    simp only [pollTask] at h
    split_ifs at h with hs <;> cases h
    · exact .started x hs
    · exact .casFailed x hs
  | polling => exact polling_cases h
  | storeResult v => exact storeResult_cases h
  | unlock => cases h; exact .unlock x
  | storeSignal v => cases h; exact .storeSignal x v
  | notifySignal => cases h; exact .notifySignal x
  | remove => cases h; exact .remove x
  | decActive => cases h; exact .decActive x
  | notifyAll => cases h; exact .notifyAll x
  | casIdle =>
    simp only [pollTask] at h
    split_ifs at h with hs <;> cases h
    · exact .idled x hs
    · exact .idleFailed x hs
  | storeScheduled => cases h; exact .storeScheduled x

theorem process_cases {again : Bool} {pc : ProcessPc}
    (h : process sh again pc c = some (sh', fs)) :
    Exec i sh (atDrive (.process again pc)) sh' fs := by
  cases pc with
  | drain => cases h; exact .drain again
  | now known =>
    simp only [process] at h
    split at h
    · split_ifs at h with ht
      cases h
      exact .readClock again known _ ht
    · cases h
  | loop known now =>
    simp only [process] at h
    split_ifs at h with hheap
    · cases again <;> cases h
      · exact .heapEmpty known now hheap
      · exact .heapEmptyAgain known now hheap
    · split at h
      · split at h
        · rename_i e he
          split_ifs at h with hmin hnow
          · cases h
            exact .popped again known now _ e he hmin hnow
          · have hmem := List.mem_of_getElem? he
            cases again <;> cases h
            · exact .noneExpired known now e hmem hmin (by omega)
            · exact .noneExpiredAgain known now e hmem hmin (by omega)
        · cases h
      · cases h
  | complete known now e => cases h; exact .complete again known now e
  | fired known now e => cases h; exact .fired again known now e

theorem driveIo_cases {pc : DrivePc} (h : driveIo sh pc c = some (sh', fs)) :
    Exec i sh (atDrive pc) sh' fs := by
  cases pc with
  | process again pc => exact process_cases h
  | hasPending now next => cases h; exact .hasPending now next
  | epollWait now timeout =>
    simp only [driveIo] at h
    split at h
    · split_ifs at h with hws
      cases h
      exact .epollReturn now timeout _ _ hws.1 hws.2
    · cases h
  | collect eventfdReady ws => cases h; exact .collect eventfdReady ws
  | wakeAll ws =>
    cases ws with
    | nil => cases h; exact .wakeAllEnd
    | cons w ws => cases h; exact .wakeAllNext w ws

theorem runWorker_cases {pc : WorkerPc V} (h : runWorker i sh pc c = some (sh', fs)) :
    Exec i sh (.worker pc) sh' fs := by
  cases pc with
  | top =>
    simp only [runWorker] at h
    split_ifs at h with hs <;> cases h
    · exact .topExit hs
    · exact .topGo (by simpa using hs)
  | dequeue =>
    simp only [runWorker] at h
    split_ifs at h with hl
    have hl : sh.queueLocked = false := by simpa using hl
    split at h <;> cases h
    · exact .dequeueSome _ _ hl ‹_›
    · obtain ⟨rfl, hq⟩ := ReadyQueue.dequeue_eq_none ‹_›
      exact .dequeueNone hl hq
  | casToken =>
    simp only [runWorker] at h
    split_ifs at h with ht <;> cases h
    · exact .tokenLost ht
    · exact .tokenWon (by simpa using ht)
  | recheck =>
    simp only [runWorker] at h
    split_ifs at h with hl hq <;> cases h
    · exact .recheckEmpty (by simpa using hl) (by simpa using hq)
    · exact .recheckBusy (by simpa using hl) (by simpa using hq)
  | release => cases h; exact .release
  | lockQueue =>
    simp only [runWorker] at h
    split_ifs at h with hl hq <;> cases h
    · exact .lockEmpty (by simpa using hl) (by simpa using hq)
    · exact .lockBusy (by simpa using hl) (by simpa using hq)
  | checkShutdown =>
    simp only [runWorker] at h
    split_ifs at h with hs <;> cases h
    · exact .sleepExit hs
    · exact .sleepGo (by simpa using hs)
  | wait => cases h; exact .wait
  | waiting =>
    simp only [runWorker] at h
    split_ifs at h with hi
    · split at h <;> cases h
      exact .timedOut hi
    · cases h
      exact .notified hi
  | reacquire =>
    simp only [runWorker] at h
    split_ifs at h with hl
    cases h
    exact .reacquire (by simpa using hl)
  | pollTask x pc => exact pollTask_cases h
  | driveIo pc => exact driveIo_cases h

theorem sleep_cases {pc : SleepPc} (h : sleep sh pc c = some (sh', fs)) :
    Exec i sh (.sleep pc) sh' fs := by
  cases pc with
  | now d =>
    simp only [sleep] at h
    split at h
    · split_ifs at h with ht
      cases h
      exact .sleepNow d _ ht
    · cases h
  | register deadline => cases h; exact .sleepRegister deadline
  | wakeReactor k => cases h; exact .sleepWake k

theorem pollSleep_cases {k : ℕ} {w : PollWaker} {pc : TimerState.PollPc}
    (h : pollSleep sh k w pc c = some (sh', fs)) : Exec i sh (.pollSleep k w pc) sh' fs := by
  unfold pollSleep at h
  dsimp only at h
  split at h <;> cases h
  · exact .pollSleep k w pc _ _ _ ‹_›
  · exact .pollSleepRet k w pc _ _ _ ‹_›

theorem fire_cases {k : ℕ} {pc : AtomicWaker.WakePc PollWaker}
    (h : fire sh k pc c = some (sh', fs)) :
    Exec i sh (.fire k pc) sh' fs := by
  unfold fire at h
  dsimp only at h
  split at h <;> cases h
  · exact .fire k pc _ _ _ ‹_›
  · exact .fireNone k pc _ _ ‹_›
  · exact .fireWake k pc _ _ _ ‹_›

theorem shutdown_cases {pc : ShutdownPc} (h : shutdown i sh pc = some (sh', fs)) :
    Exec i sh (.shutdown pc) sh' fs := by
  cases pc with
  | store => cases h; exact .shutdownStore
  | notifyAll => cases h; exact .shutdownNotify
  | wakeReactor => cases h; exact .shutdownWake
  | lock =>
    simp only [shutdown] at h
    split_ifs at h with hl hp <;> cases h
    · exact .shutdownPoisoned (by simpa using hl) hp
    · exact .shutdownLock (by simpa using hl) (by simpa using hp)
  | join handles =>
    cases handles with
    | nil => cases h; exact .shutdownEnd
    | cons j handles =>
      simp only [shutdown] at h
      split_ifs at h with hj ha <;> cases h
      · exact hj ▸ .shutdownSelf handles
      · exact .shutdownJoined j handles hj ha

/-- **The table is complete**: every step is one of its lines. -/
theorem exec_cases {f : Frame V} (h : exec i sh f c = some (sh', fs)) : Exec i sh f sh' fs := by
  cases f with
  | worker pc => exact runWorker_cases h
  | external =>
    simp only [exec] at h
    split at h
    · obtain ⟨r, hr, he⟩ := Option.map_eq_some_iff.mp h
      cases he
      exact userCall_cases (p := none) hr
    · cases h
  | wakerWake w t =>
    cases w with
    | task x => cases h; exact .wakeTask x t
    | other n => cases h; exact .wakeOther n t
  | wake x b t pc => exact wakeByRefImpl_cases h
  | enqueue x pc => exact enqueueTask_cases h
  | spawn x pc => exact spawnTask_cases h
  | blockOn x pc => exact blockOn_cases h
  | sleep pc => exact sleep_cases h
  | pollSleep k w pc => exact pollSleep_cases h
  | fire k pc => exact fire_cases h
  | shutdown pc => exact shutdown_cases h

/-- The call itself, before the frame of the caller is put back. -/
theorem exec_call {p : Option TaskId} {op : Call}
    (h : exec i sh (baseFrame p) (.call op) = some (sh', fs)) :
    ∃ gs, userCall sh p op = some (sh', gs) ∧ fs = gs ++ [baseFrame p] := by
  cases p <;> obtain ⟨⟨sh₁, gs⟩, hr, heq⟩ := Option.map_eq_some_iff.mp h <;> cases heq <;>
    exact ⟨gs, hr, rfl⟩

end Cases

/-! ### Invariants of the runtime -/

theorem start_frames (n m : ℕ) : (start V n m).frames
    = Multiset.replicate n (.worker .top) + Multiset.replicate m .external := by
  rw [Config.frames, start, List.flatten_append, ← Multiset.coe_add]
  congr 1 <;> rw [List.flatten_replicate_singleton, Multiset.coe_replicate]

theorem weigh_start (w : Frame V → ℕ) (n m : ℕ) :
    weigh w (start V n m).frames = n * w (.worker .top) + m * w .external := by
  simp [start_frames, weigh]

theorem filterMap_start {α : Type*} (key : Frame V → Option α) (htop : key (.worker .top) = none)
    (hext : key .external = none) (n m : ℕ) : (start V n m).frames.filterMap key = 0 := by
  refine Multiset.eq_zero_of_forall_notMem fun a ha => ?_
  obtain ⟨f, hf, hkey⟩ := (Multiset.mem_filterMap _ _).mp ha
  rw [start_frames, Multiset.mem_add] at hf
  rcases hf with hf | hf <;> obtain rfl := Multiset.eq_of_mem_replicate hf
  · cases htop.symm.trans hkey
  · cases hext.symm.trans hkey

/-- A schedule shows that a configuration with the property `p` is reachable. -/
theorem exists_reachable (n m : ℕ) (acts : List (ℕ × Choice V))
    (p : Config (Shared V) (Frame V) → Prop) [DecidablePred p]
    (h : ((machine V).run (fun _ _ _ => True) (start V n m) acts).any (p ·) = true) :
    ∃ c, Reachable n m c ∧ p c :=
  Machine.exists_reachesVia_of_run acts p h

/-- The frame invariant rule, with the table in the place of `exec`. -/
theorem Reachable.invariant {n m : ℕ} {c : Config (Shared V) (Frame V)}
    {I : Shared V → Multiset (Frame V) → Prop} (h : Reachable n m c)
    (h₀ : I (Shared.new n) (start V n m).frames)
    (hstep : ∀ (c c' : Config (Shared V) (Frame V)) i f (fs : List (Frame V)) R,
      Reachable n m c → Reachable n m c' → c.frames = f ::ₘ R → c'.frames = ↑fs + R →
      Exec i c.shared f c'.shared fs → I c.shared (f ::ₘ R) → I c'.shared (↑fs + R)) :
    I c.shared c.frames :=
  Machine.ReachesVia.frame_invariant h h₀ fun c c' i _ f fs R hc hc' _ _ hF hF' hex =>
    hstep c c' i f fs R hc hc' hF hF' (exec_cases hex)

/-- What every step from a reachable configuration keeps is kept for ever. -/
theorem Reachable.stable {n m : ℕ} {c c' : Config (Shared V) (Frame V)} {P : Shared V → Prop}
    (hc : Reachable n m c) (h : (machine V).Reaches c c') (hP : P c.shared)
    (hstep : ∀ (d d' : Config (Shared V) (Frame V)) i f (fs : List (Frame V)) R,
      Reachable n m d → d.frames = f ::ₘ R → Exec i d.shared f d'.shared fs → P d.shared →
      P d'.shared) :
    P c'.shared := by
  refine Machine.ReachesVia.invariant (I := fun d => P d.shared) h hP ?_
  intro d d' i x hd _ hs hPd
  obtain ⟨f, k, fs, R, -, hex, -, hF, -⟩ := Machine.step_cases hs
  exact hstep d d' i f fs R (hc.trans hd) hF (exec_cases hex) hPd

end MiniAsync.MultiThread
