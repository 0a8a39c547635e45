/-
  How the runtime comes to rest. A thread rests when it has nothing to do before
  something new happens: a worker on the condvar that was not notified, a driver
  in `epoll_wait` with nothing in the eventfd, the caller of a `block_on` whose
  slot is empty, a `shutdown` that waits for a worker, a thread outside of the
  runtime between two calls. Timeouts end some of these waits, too; what is shown
  here does not count on them.

  `shutdown` waits in two places: for a worker that it joins, and before that for
  the mutex of the `workers`, which another `shutdown` holds while it joins. These
  waits may last for ever, when tasks call `shutdown` themselves: the worker that
  is joined may be the one that waits for the mutex. They count as rest here.

  A thread that does not rest can go on, or it waits for the queue mutex, and then
  the holder of the mutex can go on (`Reachable.progress`). So when nothing can go
  on every thread rests, and then there is nothing to do (`goes_on_or_idle`): no
  call is under way but `block_on` and `shutdown`, the mutexes of the queue and the
  tasks are free, no task is ready, and every task that waits has been polled after
  all its wakes. The one exception is a pool whose workers are all blocked inside
  polls.
-/
import MiniAsync.MultiThread.Inv.Calls
import MiniAsync.MultiThread.Inv.Join
import MiniAsync.MultiThread.Inv.WakeUp
import MiniAsync.MultiThread.Inv.Watched
import Mathlib.Data.Finset.Max

namespace MiniAsync.MultiThread

open Interleave

variable {V : Type}

/-- Thread `i` has nothing to do while the frame is on top of its stack. -/
def Frame.Rests (sh : Shared V) (i : ℕ) : Frame V → Prop
  | .worker .waiting => i ∈ sh.waiters
  | .worker (.driveIo (.epollWait _ _)) => sh.eventfd = 0
  | .external => True
  | .blockOn x .wait => (sh.task x).signal = none
  | .shutdown .lock => sh.workersLocked = true
  | .shutdown (.join (j :: _)) => j ≠ i ∧ j ∈ sh.workersAlive
  | _ => False

/-- Thread `i` has ended or has nothing to do. -/
def Rests (c : Config (Shared V) (Frame V)) (i : ℕ) : Prop :=
  ∀ f, c.top i = some f → f.Rests c.shared i

/-- The next step of the frame takes the queue mutex. -/
def Frame.needsQueue : Frame V → Bool
  | .worker .dequeue | .worker .recheck | .worker .lockQueue | .worker .reacquire => true
  | .enqueue _ .push => true
  | _ => false

/-! ### The mutex of a `TaskState` -/

section Step

variable {i : ℕ} {sh sh' : Shared V} {f : Frame V} {fs : List (Frame V)}

theorem locked_modifyTask {sh : Shared V} {x y : TaskId} {g : Task V → Task V}
    (hg : (g (sh.task y)).locked = (sh.task y).locked) :
    ((sh.modifyTask y g).task x).locked = (sh.task x).locked := by
  rcases eq_or_ne x y with rfl | hne
  · rw [Shared.modifyTask_task_self, hg]
  · rw [Shared.modifyTask_task_of_ne sh hne]

theorem locked_newTask {sh : Shared V} {root : Bool} {x : TaskId}
    (hl : ((sh.newTask root).task x).locked = true) : (sh.task x).locked = true := by
  rcases eq_or_ne x sh.nextTaskId with rfl | hne
  · simp [Shared.newTask, Task.blank] at hl
  · simpa [Shared.newTask, hne] using hl

/-- A `TaskState` that is left locked is locked by the frame that unlocks it. -/
theorem Exec.locked_cases (h : Exec i sh f sh' fs) {x : TaskId}
    (hl : (sh'.task x).locked = true) :
    atPoll x .unlock ∈ fs ∨ ((sh.task x).locked = true ∧ f ≠ atPoll x .unlock) := by
  have hbase : ∀ p : Option TaskId, baseFrame p ≠ (atPoll x .unlock : Frame V) := fun p =>
    baseFrame_ne (by simp) (by simp)
  cases h
  case storeResult y v hl' hw | storeResultWake y v w hl' hw =>
    rcases eq_or_ne x y with rfl | hne
    · exact Or.inl (by simp)
    · exact Or.inr ⟨by simpa [Shared.resultStored, hne] using hl, by simp⟩
  case unlock y =>
    rcases eq_or_ne x y with rfl | hne
    · simp at hl
    · exact Or.inr ⟨by simpa [hne] using hl, by simpa using hne.symm⟩
  case callSpawn p | callBlockOn p => exact Or.inr ⟨locked_newTask hl, hbase p⟩
  case callShutdown p => exact Or.inr ⟨hl, hbase p⟩
  case callSleep p _ | callWake p _ _ | callPollSleep p _ _ _ _ => exact Or.inr ⟨hl, hbase p⟩
  case joinReady p _ _ _ _ _ _ _ | joinPending p _ _ _ _ _ _ _ =>
    rw [Shared.modifyHist_task, locked_modifyTask rfl] at hl
    exact Or.inr ⟨hl, hbase p⟩
  case signalTaken | storeSignal =>
    rw [Shared.modifyHist_task, locked_modifyTask rfl] at hl
    exact Or.inr ⟨hl, by simp⟩
  case started =>
    rw [Shared.modifyHist_task, Shared.setStatus, locked_modifyTask rfl] at hl
    exact Or.inr ⟨hl, by simp⟩
  case wakeRunning =>
    rw [wakeReturned, Shared.modifyHist_task, Shared.sleepWoken_task, Shared.setStatus,
      locked_modifyTask rfl] at hl
    exact Or.inr ⟨hl, by simp⟩
  case idled | storeScheduled | wakeIdle =>
    rw [Shared.setStatus, locked_modifyTask rfl] at hl
    exact Or.inr ⟨hl, by simp⟩
  all_goals exact Or.inr ⟨hl, by simp⟩

end Step

section Run

variable {n m : ℕ} {c : Config (Shared V) (Frame V)}

theorem Reachable.locked (h : Reachable n m c) {x : TaskId}
    (hl : (c.shared.task x).locked = true) : atPoll x .unlock ∈ c.frames := by
  refine h.invariant (I := fun sh F => (sh.task x).locked = true → atPoll x .unlock ∈ F)
    (fun hl => by cases hl) ?_ hl
  intro c c' i f fs R _ _ _ _ hex hI hl'
  rw [Multiset.mem_add]
  rcases hex.locked_cases hl' with hmem | ⟨hl, hne⟩
  · exact Or.inl (Multiset.mem_coe.mpr hmem)
  · exact Or.inr ((Multiset.mem_cons.mp (hI hl)).resolve_left (Ne.symm hne))

/-- The wrapper of a future finds the `TaskState` unlocked: nobody else unlocks it. -/
theorem Reachable.storeResult_unlocked (h : Reachable n m c) {x : TaskId} {v : V}
    (hf : atPoll x (.storeResult v) ∈ c.frames) : (c.shared.task x).locked = false := by
  by_contra hne
  have hunlock := h.locked (x := x) (by simpa using hne)
  have hrole := (h.handover x).role
  have hstoring : (exchange x c.shared).stored = false ∧ _ :=
    hrole (.storing v) (mem_allRoles.mpr ⟨_, hf, rfl⟩)
  have hunlocking : (exchange x c.shared).stored = true ∧ _ :=
    hrole .unlocking (mem_allRoles.mpr ⟨_, hunlock, rfl⟩)
  rw [hstoring.1] at hunlocking
  exact absurd hunlocking.1 (by simp)

end Run

/-! ### The mutex of the `workers` -/

section Step

variable {i : ℕ} {sh sh' : Shared V} {f : Frame V} {fs : List (Frame V)}

/-- The mutex of the `workers` is left locked by a `shutdown` that joins. -/
theorem Exec.workersLocked_cases (h : Exec i sh f sh' fs) (hl : sh'.workersLocked = true) :
    (∃ handles, .shutdown (.join handles) ∈ fs) ∨
      (sh.workersLocked = true ∧ ∀ handles, f ≠ .shutdown (.join handles)) := by
  have hbase : ∀ (p : Option TaskId) (handles : List ℕ),
      baseFrame p ≠ (.shutdown (.join handles) : Frame V) := by
    intro p handles
    cases p <;> simp [baseFrame]
  cases h
  case shutdownLock => exact Or.inl ⟨sh.workers, by simp⟩
  case shutdownJoined j handles hi h => exact Or.inl ⟨handles, by simp⟩
  case shutdownSelf | shutdownEnd => cases hl
  case callSpawn p | callBlockOn p | callShutdown p => exact Or.inr ⟨hl, hbase p⟩
  case callSleep p _ | callWake p _ _ | callPollSleep p _ _ _ _ => exact Or.inr ⟨hl, hbase p⟩
  case joinReady p _ _ _ _ _ _ _ | joinPending p _ _ _ _ _ _ _ => exact Or.inr ⟨hl, hbase p⟩
  all_goals exact Or.inr ⟨hl, by simp⟩

end Step

section Run

variable {n m : ℕ} {c : Config (Shared V) (Frame V)}

/-- Who holds the mutex of the `workers` joins them. -/
theorem Reachable.exists_joining (h : Reachable n m c) (hl : c.shared.workersLocked = true) :
    ∃ i handles, c.top i = some (.shutdown (.join handles)) := by
  have hjoin : ∃ handles, .shutdown (.join handles) ∈ c.frames := by
    refine h.invariant (I := fun sh F => sh.workersLocked = true →
      ∃ handles, .shutdown (.join handles) ∈ F) (fun hl => by cases hl) ?_ hl
    intro c c' i f fs R _ _ _ _ hex hI hl'
    rcases hex.workersLocked_cases hl' with ⟨handles, hmem⟩ | ⟨hl, hne⟩
    · exact ⟨handles, Multiset.mem_add.mpr (Or.inl (Multiset.mem_coe.mpr hmem))⟩
    · obtain ⟨handles, hmem⟩ := hI hl
      refine ⟨handles, Multiset.mem_add.mpr (Or.inr ?_)⟩
      exact (Multiset.mem_cons.mp hmem).resolve_left (Ne.symm (hne handles))
  obtain ⟨handles, hmem⟩ := hjoin
  obtain ⟨i, hi⟩ := h.exists_top hmem fun _ => rfl
  exact ⟨i, handles, hi⟩

end Run

/-! ### Threads that can go on -/

section Progress

variable {i : ℕ} {sh : Shared V}

/-- A heap that is not empty has a top entry. -/
theorem exists_top_entry {heap : List TimerEntry} (h : heap ≠ []) :
    ∃ (j : ℕ) (e : TimerEntry), heap[j]? = some e ∧ ∀ e' ∈ heap, e.deadline ≤ e'.deadline := by
  obtain ⟨e, he, hmin⟩ := heap.toFinset.exists_min_image TimerEntry.deadline
    (by simpa using h)
  obtain ⟨j, hj⟩ := List.getElem?_of_mem (List.mem_toFinset.mp he)
  exact ⟨j, e, hj, fun e' he' => hmin e' (List.mem_toFinset.mpr he')⟩

theorem exists_process (sh : Shared V) (again : Bool) (pc : ProcessPc) :
    ∃ ch, (process sh again pc ch).isSome = true := by
  cases pc with
  | drain => exact ⟨.go, rfl⟩
  | now known => exact ⟨.now sh.clock, by simp [process]⟩
  | loop known now =>
    by_cases hheap : sh.heap = []
    · exact ⟨.go, by simp [process, hheap, processReturn]⟩
    · obtain ⟨j, e, hj, hmin⟩ := exists_top_entry hheap
      refine ⟨.pick j, ?_⟩
      simp only [process, if_neg hheap, hj, if_pos hmin]
      split_ifs <;> rfl
  | complete known now e => exact ⟨.go, rfl⟩
  | fired known now e => exact ⟨.go, rfl⟩

theorem exists_driveIo {pc : DrivePc} (hr : ∀ now t, pc = .epollWait now t → sh.eventfd ≠ 0) :
    ∃ ch, (driveIo sh pc ch).isSome = true := by
  cases pc with
  | process again pc => exact exists_process sh again pc
  | hasPending now next => exact ⟨.go, rfl⟩
  | epollWait now t =>
    have hpos := Nat.pos_of_ne_zero (hr now t rfl)
    exact ⟨.epoll true [], by simp [driveIo, hpos]⟩
  | collect ready ws => exact ⟨.go, rfl⟩
  | wakeAll ws => cases ws <;> exact ⟨.go, rfl⟩

theorem exists_pollTask {x : TaskId} {pc : PollPc V}
    (hl : ∀ v, pc = .storeResult v → (sh.task x).locked = false) :
    ∃ ch, (pollTask sh x pc ch).isSome = true := by
  cases pc with
  | lookup | casRunning | casIdle =>
    refine ⟨.go, ?_⟩
    simp only [pollTask]
    split_ifs <;> rfl
  | polling => exact ⟨.ret .pending, rfl⟩
  | storeResult v =>
    refine ⟨.go, ?_⟩
    simp only [pollTask, storeResult, hl v rfl]
    split
    · rename_i hfalse
      cases hfalse
    · split <;> rfl
  | _ => exact ⟨.go, rfl⟩

theorem exists_runWorker {pc : WorkerPc V} (hr : ¬ (Frame.worker pc).Rests sh i)
    (hq : (Frame.worker pc).needsQueue = true → sh.queueLocked = false)
    (hl : ∀ x v, pc = .pollTask x (.storeResult v) → (sh.task x).locked = false) :
    ∃ ch, (runWorker i sh pc ch).isSome = true := by
  cases pc with
  | pollTask x pc => exact exists_pollTask fun v hv => hl x v (by rw [hv])
  | driveIo pc => exact exists_driveIo fun now t hpc hzero => hr (by rw [hpc]; exact hzero)
  | dequeue | recheck | lockQueue | reacquire =>
    refine ⟨.go, ?_⟩
    simp only [runWorker, hq rfl]
    repeat' split
    all_goals first | rfl | simp_all
  | waiting =>
    have hi : i ∉ sh.waiters := hr
    exact ⟨.go, by simp [runWorker, hi]⟩
  | _ =>
    refine ⟨.go, ?_⟩
    simp only [runWorker]
    first | rfl | (split_ifs <;> rfl)

theorem exists_enqueueTask {x : TaskId} {pc : EnqueuePc}
    (hq : pc = .push → sh.queueLocked = false) : ∃ ch, (enqueueTask sh x pc ch).isSome = true := by
  cases pc with
  | push => exact ⟨.go, by simp [enqueueTask, hq rfl]⟩
  | loadToken =>
    refine ⟨.go, ?_⟩
    simp only [enqueueTask]
    split_ifs <;> rfl
  | wakeReactor => exact ⟨.go, rfl⟩
  | notifyOne =>
    cases hw : sh.waiters with
    | nil => exact ⟨.go, by simp [enqueueTask, hw]⟩
    | cons j ws => exact ⟨.pick j, by simp [enqueueTask, hw]⟩

/-- **A frame that does not rest can be executed**, if the mutexes it takes are free. -/
theorem exists_exec {f : Frame V} (hr : ¬ f.Rests sh i)
    (hq : f.needsQueue = true → sh.queueLocked = false)
    (hl : ∀ x v, f = atPoll x (.storeResult v) → (sh.task x).locked = false) :
    ∃ ch, (exec i sh f ch).isSome = true := by
  cases f with
  | worker pc => exact exists_runWorker hr hq fun x v hpc => hl x v (by rw [hpc])
  | external => exact absurd trivial hr
  | wakerWake w t => cases w <;> exact ⟨.go, rfl⟩
  | wake x b t pc =>
    refine ⟨.go, ?_⟩
    cases pc <;> simp only [exec, wakeByRefImpl] <;> first | rfl | (split <;> rfl)
  | enqueue x pc => exact exists_enqueueTask fun hpc => hq (by rw [hpc]; rfl)
  | spawn x pc => cases pc <;> exact ⟨.go, rfl⟩
  | blockOn x pc =>
    refine ⟨.go, ?_⟩
    cases pc <;> simp only [exec, blockOn] <;> first | rfl | (split <;> rfl)
  | sleep pc =>
    cases pc with
    | now d => exact ⟨.now sh.clock, by simp [exec, sleep]⟩
    | register deadline => exact ⟨.go, rfl⟩
    | wakeReactor k => exact ⟨.go, rfl⟩
  | pollSleep k w pc =>
    refine ⟨.go, ?_⟩
    simp only [exec, pollSleep]
    split <;> rfl
  | fire k pc =>
    refine ⟨.go, ?_⟩
    simp only [exec, fire]
    split <;> rfl
  | shutdown pc =>
    cases pc with
    | lock =>
      have hfree : sh.workersLocked = false := Bool.eq_false_of_not_eq_true hr
      cases hp : sh.workersPoisoned with
      | true => exact ⟨.go, by simp [exec, shutdown, hfree, hp]⟩
      | false => exact ⟨.go, by simp [exec, shutdown, hfree, hp]⟩
    | join handles =>
      cases handles with
      | nil => exact ⟨.go, rfl⟩
      | cons j handles =>
        refine ⟨.go, ?_⟩
        simp only [exec, shutdown]
        split_ifs with hj ha
        · rfl
        · exact absurd ⟨hj, ha⟩ hr
        · rfl
    | _ => exact ⟨.go, rfl⟩

variable {n m : ℕ} {c : Config (Shared V) (Frame V)}

/-- A thread that does not rest can take a step, if it does not wait for the queue mutex. -/
theorem Reachable.exists_step (h : Reachable n m c) {f : Frame V} (htop : c.top i = some f)
    (hr : ¬ f.Rests c.shared i) (hq : f.needsQueue = true → c.shared.queueLocked = false) :
    ∃ ch c', (machine V).step c i ch = some c' := by
  obtain ⟨ch, hsome⟩ := exists_exec hr hq fun x v hf =>
    h.storeResult_unlocked (hf ▸ mem_frames_of_top htop)
  obtain ⟨r, hex⟩ := Option.isSome_iff_exists.mp hsome
  exact ⟨ch, Machine.exists_step htop hex⟩

/-- The holder of the queue mutex is about to release it. -/
theorem Reachable.exists_holder (h : Reachable n m c) (hl : c.shared.queueLocked = true) :
    ∃ j, c.top j = some (.worker .checkShutdown) ∨ c.top j = some (.worker .wait) := by
  have hlock := h.election.lock
  rw [hl, ind_true] at hlock
  obtain ⟨f, hf, hpos⟩ := (weigh_pos_iff holdsQueue c.frames).mp (by omega)
  unfold holdsQueue at hpos
  split at hpos
  · obtain ⟨j, hj⟩ := h.exists_top hf fun _ => rfl
    exact ⟨j, Or.inl hj⟩
  · obtain ⟨j, hj⟩ := h.exists_top hf fun _ => rfl
    exact ⟨j, Or.inr hj⟩
  · cases hpos

/-- **Who does not rest is not blocked for good**: when some thread does not rest, one of those that
do not rest can take a step. -/
theorem Reachable.progress (h : Reachable n m c) (hr : ¬ Rests c i) :
    ∃ j ch c', ¬ Rests c j ∧ (machine V).step c j ch = some c' := by
  unfold Rests at hr
  push Not at hr
  obtain ⟨f, htop, hf⟩ := hr
  by_cases hl : c.shared.queueLocked = true
  · -- the holder of the mutex can go on
    obtain ⟨j, hj⟩ := h.exists_holder hl
    have hgo : ∀ g : Frame V, g.needsQueue = false → ¬ g.Rests c.shared j → c.top j = some g →
        ∃ j ch c', ¬ Rests c j ∧ (machine V).step c j ch = some c' := by
      intro g hneeds hg hj
      obtain ⟨ch, c', hs⟩ := h.exists_step hj hg fun hneeds' => by
        rw [hneeds] at hneeds'
        cases hneeds'
      exact ⟨j, ch, c', fun hrest => hg (hrest g hj), hs⟩
    rcases hj with hj | hj
    · exact hgo _ rfl id hj
    · exact hgo _ rfl id hj
  · obtain ⟨ch, c', hs⟩ := h.exists_step htop hf fun _ => by simpa using hl
    exact ⟨i, ch, c', fun hrest => hf (hrest f htop), hs⟩

end Progress

/-! ### Sleeping workers and queued tasks -/

section Accounts

variable {i : ℕ} {sh sh' : Shared V} {f : Frame V} {fs : List (Frame V)}

/-- While workers sleep on the condvar: of the `n` workers, one that does not sleep and is not
inside `poll_task` is left for each queued task, up to the notifications that are still to come.
Here `p` workers are inside `poll_task` and `e` notifications are to come. -/
def QueueServed (n : ℕ) (sh : Shared V) (p e : ℕ) : Prop :=
  sh.waiters ≠ [] → sh.readyQueue.queue.length + sh.waiters.length + p ≤ n + e

theorem Exec.queueServed (h : Exec i sh f sh' fs) {n : ℕ} (p e : ℕ)
    (hduties' : sh'.waiters.length + ((fs.map pollsTask).sum + p) ≤ n)
    (hlock : 0 < holdsQueue f → sh.readyQueue.queue = [])
    (hI : QueueServed n sh (pollsTask f + p) (notifies f + e)) :
    QueueServed n sh' ((fs.map pollsTask).sum + p) ((fs.map notifies).sum + e) := by
  intro hw
  cases h
  case wait =>
    have hq := hlock Nat.one_pos
    simp [hq, pollsTask, notifies] at hduties' ⊢
    omega
  case dequeueSome x q hl h =>
    have hJ := hI hw
    rw [ReadyQueue.dequeue_eq_some h, List.length_cons] at hJ
    simp [pollsTask, notifies] at hJ ⊢
    omega
  case push x hl =>
    have hJ := hI hw
    have hlen := sh.readyQueue.length_enqueue_le x
    simp [pollsTask, notifies] at hJ ⊢
    omega
  case timedOut h | notifyOne _ _ h =>
    have hJ := hI (List.ne_nil_of_mem h)
    have hlen := List.length_erase_of_mem h
    have hpos := List.length_pos_of_mem h
    simp [pollsTask, notifies] at hJ ⊢
    omega
  case notifyNone x h => exact absurd h hw
  case notifyAll x => exact absurd rfl hw
  case shutdownNotify => exact absurd rfl hw
  -- the end of a poll
  case notFound | casFailed | idled | storeScheduled =>
    have hJ := hI hw
    simp [pollsTask, notifies, Shared.setStatus, Shared.modifyTask] at hJ ⊢
    omega
  case callSpawn p | callBlockOn p | callShutdown p => cases p <;> exact hI hw
  case callSleep p _ | callWake p _ _ | callPollSleep p _ _ _ _ => cases p <;> exact hI hw
  all_goals exact hI hw

variable {n m : ℕ} {c : Config (Shared V) (Frame V)}

theorem Reachable.queueServed (h : Reachable n m c) :
    QueueServed n c.shared (weigh pollsTask c.frames) (weigh notifies c.frames) := by
  refine h.invariant
    (I := fun sh F => QueueServed n sh (weigh pollsTask F) (weigh notifies F))
    (fun hw => absurd rfl hw) ?_
  intro c c' i f fs R hc hc' hF hF' hex hI
  rw [weigh_cons, weigh_cons] at hI
  rw [weigh_coe_add, weigh_coe_add]
  have hduties' := hc'.duties_le
  rw [hF', weigh_coe_add, weigh_coe_add] at hduties'
  have hel := hc.election
  refine hex.queueServed _ _ (by omega) (fun hpos => hel.locked (ind_pos_iff.mp ?_)) hI
  have hlock := hel.lock
  rw [hF, weigh_cons] at hlock
  omega

end Accounts

/-! ### The runtime at rest -/

section Rest

variable {n m : ℕ} {c : Config (Shared V) (Frame V)}

/-- There is nothing to do in the runtime. -/
structure Idle (n : ℕ) (c : Config (Shared V) (Frame V)) : Prop where
  /-- Every thread rests, in its own code or in a call that code outside of the runtime made. -/
  rests : ∀ (i : ℕ) (st : List (Frame V)), c.threads[i]? = some st →
    st = [] ∨ (∃ f, st = [f] ∧ f.Rests c.shared i) ∨
      ∃ f p, st = [f, baseFrame p] ∧ f.Rests c.shared i
  /-- The mutexes of the queue and of the tasks are free. -/
  unlocked : c.shared.queueLocked = false ∧ ∀ x, (c.shared.task x).locked = false
  /-- The mutex of the `workers` is free, or held by a `shutdown` that joins another thread, a
  worker that still runs. -/
  workers : c.shared.workersLocked = true → ∃ (i j : ℕ) (handles : List ℕ) (g : Frame V),
    c.top i = some (.shutdown (.join (j :: handles))) ∧ j ≠ i ∧ j < n ∧ c.top j = some g
  /-- No task is ready, or every worker is blocked inside a poll. -/
  queue : c.shared.shutdown = false → c.shared.readyQueue.queue = [] ∨
    ∀ i < n, ∃ f x, c.threads[i]? = some [f, atPoll x .polling]
  /-- A task has ended, is ready, is in a poll that is blocked, or waits for a wake that has not
  come. -/
  task : ∀ x, c.shared.Allocated x →
    (c.shared.hist x).finished = true ∨ x ∈ c.shared.readyQueue.queue ∨
      (∃ (i : ℕ) (f : Frame V), c.threads[i]? = some [f, atPoll x .polling]) ∨
      ((c.shared.task x).status = .idle ∧
        ∀ b ∈ (c.shared.hist x).returned, b < (c.shared.hist x).polls)

/-- Threads rest in their own code, or in a call from outside. -/
theorem Frame.Rests.kind {sh : Shared V} {i : ℕ} {f : Frame V} (h : f.Rests sh i) :
    f.kind = .own ∨ f.kind = .user := by
  unfold Frame.Rests at h
  split at h
  · exact Or.inl rfl
  · exact Or.inl rfl
  · exact Or.inl rfl
  · exact Or.inr rfl
  · exact Or.inr rfl
  · exact Or.inr rfl
  · cases h

theorem Reachable.stack_of_rests (h : Reachable n m c) {i : ℕ} {st : List (Frame V)}
    (hr : Rests c i) (hst : c.threads[i]? = some st) :
    st = [] ∨ (∃ f, st = [f] ∧ f.Rests c.shared i) ∨
      ∃ f p, st = [f, baseFrame p] ∧ f.Rests c.shared i := by
  have hlinked := h.awaited st (List.mem_of_getElem? hst)
  have hlast := h.bottom i st hst
  cases st with
  | nil => exact Or.inl rfl
  | cons f k =>
    have hf : f.Rests c.shared i := hr f (by simp [Config.top, hst])
    rcases hf.kind with hown | huser
    · exact Or.inr (Or.inl ⟨f, by rw [linked_own hlinked hown], hf⟩)
    · cases k with
      | nil =>
        have hown := (hlast f rfl).kind
        rw [huser] at hown
        cases hown
      | cons g k =>
        -- the caller is code outside of the runtime, which is at the bottom
        have hg := hlinked.2.1 f rfl
        rw [huser] at hg
        obtain ⟨p, rfl⟩ := Frame.eq_baseFrame hg
        have hnil := linked_own hlinked.2 (by cases p <;> rfl)
        exact Or.inr (Or.inr ⟨f, p, by rw [hnil], hf⟩)

/-- What is left of calls when every thread rests. -/
theorem Reachable.mem_frames_of_rests (h : Reachable n m c) (hr : ∀ i, Rests c i) {f : Frame V}
    (hf : f ∈ c.frames) :
    (∃ i, f.Rests c.shared i) ∨
      ∃ (i : ℕ) (g : Frame V) (p : Option TaskId),
        c.threads[i]? = some [g, baseFrame p] ∧ f = baseFrame p := by
  obtain ⟨st, hst, hmem⟩ := List.mem_flatten.mp (Multiset.mem_coe.mp hf)
  obtain ⟨i, hi⟩ := List.getElem?_of_mem hst
  rcases h.stack_of_rests (hr i) hi with rfl | ⟨g, rfl, hg⟩ | ⟨g, p, rfl, hg⟩
  · cases hmem
  · obtain rfl := List.mem_singleton.mp hmem
    exact Or.inl ⟨i, hg⟩
  · rcases List.mem_cons.mp hmem with rfl | hmem
    · exact Or.inl ⟨i, hg⟩
    · exact Or.inr ⟨i, g, p, hi, List.mem_singleton.mp hmem⟩

/-- A kind of frame that threads neither rest in nor call from does not occur. -/
theorem Reachable.weigh_of_rests (h : Reachable n m c) (hr : ∀ i, Rests c i) {w : Frame V → ℕ}
    (hrest : ∀ (i : ℕ) (f : Frame V), f.Rests c.shared i → w f = 0)
    (hbase : ∀ p, w (baseFrame p) = 0) : weigh w c.frames = 0 := by
  rw [weigh_eq_zero_iff]
  intro f hf
  rcases h.mem_frames_of_rests hr hf with ⟨i, hi⟩ | ⟨i, g, p, -, rfl⟩
  · exact hrest i f hi
  · exact hbase p

theorem Frame.Rests.quiet {sh : Shared V} {i : ℕ} {f : Frame V} (h : f.Rests sh i) :
    holdsQueue f = 0 ∧ notifies f = 0 ∧ f.role = none := by
  unfold Frame.Rests at h
  split at h
  all_goals first | exact ⟨rfl, rfl, rfl⟩ | cases h

/-- The drivers among the threads at rest are in `epoll_wait`, with nothing in the eventfd. -/
theorem Frame.Rests.drives {sh : Shared V} {i : ℕ} {f : Frame V} (h : f.Rests sh i) :
    MultiThread.drives f = headsForWait f ∧ (0 < MultiThread.drives f → sh.eventfd = 0) := by
  unfold Frame.Rests at h
  split at h
  · exact ⟨rfl, fun hpos => (nomatch hpos)⟩
  · exact ⟨rfl, fun _ => h⟩
  · exact ⟨rfl, fun hpos => (nomatch hpos)⟩
  · exact ⟨rfl, fun hpos => (nomatch hpos)⟩
  · exact ⟨rfl, fun hpos => (nomatch hpos)⟩
  · exact ⟨rfl, fun hpos => (nomatch hpos)⟩
  · cases h

/-- A worker that rests in its own code waits on the condvar or in `epoll_wait`. -/
theorem Frame.Rests.worker {sh : Shared V} {i : ℕ} {pc : WorkerPc V}
    (h : (Frame.worker pc).Rests sh i) :
    i ∈ sh.waiters ∨ 0 < MultiThread.drives (Frame.worker pc) := by
  cases pc with
  | waiting => exact Or.inl h
  | driveIo pc => exact Or.inr Nat.one_pos
  | _ => cases h

/-- Nobody drives the I/O while tasks are queued and every thread rests. -/
theorem Reachable.undriven (h : Reachable n m c) (hr : ∀ i, Rests c i)
    (hq : c.shared.readyQueue.queue ≠ []) : weigh drives c.frames = 0 := by
  have hquiet : weigh notifies c.frames = 0 :=
    h.weigh_of_rests hr (fun i f hf => hf.quiet.2.1) (fun p => by cases p <;> rfl)
  have hannounces := weigh_le_weigh announces_le c.frames
  by_contra hne
  obtain ⟨f, hf, hpos⟩ := (weigh_pos_iff drives c.frames).mp (Nat.pos_of_ne_zero hne)
  rcases h.mem_frames_of_rests hr hf with ⟨i, hi⟩ | ⟨i, g, p, -, rfl⟩
  · obtain ⟨heq, hzero⟩ := hi.drives
    have hheads := le_weigh headsForWait hf
    rcases h.election.announced (by omega) hq with hfd | hann
    · have hfd' := hzero hpos
      omega
    · omega
  · cases p <;> cases hpos

/-- **Queued tasks wait only for workers that are all blocked inside polls**, when every thread
rests. -/
theorem Reachable.queue_of_rests (h : Reachable n m c) (hr : ∀ i, Rests c i)
    (hs : c.shared.shutdown = false) (hq : c.shared.readyQueue.queue ≠ []) :
    ∀ i < n, ∃ f x, c.threads[i]? = some [f, atPoll x .polling] := by
  have hdrives := h.undriven hr hq
  -- every worker sleeps on the condvar or is blocked inside a poll
  have hworker : ∀ i < n, i ∈ c.shared.waiters ∨
      ∃ f x, c.threads[i]? = some [f, atPoll x .polling] := by
    intro i hi
    rcases h.worker_stack hi with ⟨k, pc, hst⟩ | ⟨hsd, -⟩
    · rcases h.stack_of_rests (hr i) hst with hnil | ⟨f, hone, hf⟩ | ⟨f, p, htwo, hf⟩
      · simp at hnil
      · have hpc : f = .worker pc := by
          have hl := congrArg List.getLast? hone
          simpa using hl.symm
        subst hpc
        have hmem : Frame.worker pc ∈ c.frames :=
          mem_frames_of_top (i := i) (by rw [Config.top, hst, hone]; rfl)
        have hle := le_weigh drives hmem
        exact Or.inl (hf.worker.resolve_right (by omega))
      · have hpc : baseFrame p = .worker pc := by
          have hl := congrArg List.getLast? htwo
          simpa using hl.symm
        cases p with
        | none => cases hpc
        | some x => exact Or.inr ⟨f, x, by rw [hst, htwo]; rfl⟩
    · rw [hs] at hsd
      cases hsd
  by_cases hw : c.shared.waiters = []
  · intro i hi
    refine (hworker i hi).resolve_left ?_
    rw [hw]
    exact List.not_mem_nil
  · -- then the accounts leave a worker for every queued task
    have htoken : c.shared.driverToken = false := by
      have hdriver := h.election.driver
      by_contra hne
      rw [hdrives, Bool.not_eq_false _ |>.mp hne] at hdriver
      cases hdriver
    have hun : Unwatched n c := by
      refine ⟨hs, hw, htoken, fun i hi hni => ?_⟩
      obtain ⟨f, x, hst⟩ := (hworker i hi).resolve_left hni
      exact ⟨_, hst, atPoll x .polling, by simp, rfl⟩
    have hle := le_of_unwatched hun
    have hserved := h.queueServed hw
    have hquiet : weigh notifies c.frames = 0 :=
      h.weigh_of_rests hr (fun i f hf => hf.quiet.2.1) (fun p => by cases p <;> rfl)
    have hlen := List.length_pos_of_ne_nil hq
    omega

/-- The tasks of a runtime in which every thread rests. -/
theorem Reachable.task_of_rests (h : Reachable n m c) (hr : ∀ i, Rests c i) (x : TaskId) :
    (c.shared.hist x).finished = true ∨ x ∈ c.shared.readyQueue.queue ∨
      (∃ (i : ℕ) (f : Frame V), c.threads[i]? = some [f, atPoll x .polling]) ∨
      ((c.shared.task x).status = .idle ∧
        ∀ b ∈ (c.shared.hist x).returned, b < (c.shared.hist x).polls) := by
  have hlife := h.lifecycle x
  -- the only frames with a role are polls that are blocked
  have hroles : ∀ r, r ≠ .runner → tally x c.frames r = 0 := by
    intro r hne
    refine h.weigh_of_rests hr (fun i f hf => ?_) fun p => ?_
    · simp [holds, hf.quiet.2.2]
    · cases p with
      | none => rfl
      | some y =>
        have hrole : (baseFrame (some y) : Frame V).role = some (y, .runner) := rfl
        simp [holds, hrole, Ne.symm hne]
  by_cases hfin : (c.shared.hist x).finished = true
  · exact Or.inl hfin
  have hfin : (view x c.shared).finished = false := by simpa using hfin
  refine Or.inr ?_
  cases hstatus : (c.shared.task x).status with
  | idle =>
    refine Or.inr (Or.inr ⟨rfl, fun b hb => ?_⟩)
    obtain ⟨-, hlt | hwoken⟩ := h.wakesSettled.1 x b hb
    · exact hlt
    · rw [view_status, hstatus] at hwoken
      cases hwoken
  | scheduled =>
    have htokens := hlife.tokens
    rw [view_status, hstatus, if_pos rfl, hroles _ (by simp), hroles _ (by simp),
      hroles _ (by simp), view_queued] at htokens
    exact Or.inl (List.count_pos_iff.mp (by omega))
  | running | notified =>
    refine Or.inr (Or.inl ?_)
    have hworkers := hlife.workers
    rw [view_status, hstatus, if_pos (by simp), hfin, hroles .resched (by simp)] at hworkers
    obtain ⟨f, hf, hrole⟩ := exists_of_tally_pos (x := x) (r := .runner) (F := c.frames) (by
      simp only [ind_false] at hworkers
      omega)
    rcases h.mem_frames_of_rests hr hf with ⟨i, hi⟩ | ⟨i, g, p, hst, rfl⟩
    · rw [hi.quiet.2.2] at hrole
      cases hrole
    · cases p with
      | none => cases hrole
      | some y =>
        obtain rfl : y = x := congrArg Prod.fst (Option.some.inj hrole)
        exact ⟨i, g, hst⟩

/-- A `shutdown` that rests with the mutex of the `workers` waits for a worker that runs. -/
theorem Reachable.workers_of_rests (h : Reachable n m c) (hr : ∀ i, Rests c i)
    (hl : c.shared.workersLocked = true) : ∃ (i j : ℕ) (handles : List ℕ) (g : Frame V),
    c.top i = some (.shutdown (.join (j :: handles))) ∧ j ≠ i ∧ j < n ∧ c.top j = some g := by
  obtain ⟨i, handles, htop⟩ := h.exists_joining hl
  have hi := hr i _ htop
  cases handles with
  | nil => cases hi
  | cons j handles =>
    obtain ⟨hne, hj⟩ : j ≠ i ∧ j ∈ c.shared.workersAlive := hi
    obtain ⟨hlt, g, hg⟩ := h.mem_workersAlive.mp hj
    exact ⟨i, j, handles, g, htop, hne, hlt, hg⟩

/-- **The runtime stops only when there is nothing to do.** In every reachable configuration some
thread that does not rest can take a step, or every thread rests. Then no call of the runtime's own
is under way, no mutex is held but the one of a `shutdown` that waits for a worker, no task is
ready (unless each worker is blocked inside a poll that itself waits in `block_on` or `shutdown`),
and every task that waits was polled after all wakes it has got. -/
theorem goes_on_or_idle (h : Reachable n m c) :
    (∃ i ch c', ¬ Rests c i ∧ (machine V).step c i ch = some c') ∨ Idle n c := by
  by_cases hr : ∀ i, Rests c i
  · refine Or.inr ⟨fun i st hst => h.stack_of_rests (hr i) hst, ⟨?_, fun x => ?_⟩,
      h.workers_of_rests hr, fun hs => ?_, fun x _ => h.task_of_rests hr x⟩
    · have hlock := h.election.lock
      rw [h.weigh_of_rests hr (fun i f hf => hf.quiet.1) fun p => by cases p <;> rfl] at hlock
      by_contra hne
      rw [Bool.not_eq_false _ |>.mp hne] at hlock
      cases hlock
    · by_contra hne
      have hunlock := h.locked (x := x) (by simpa using hne)
      rcases h.mem_frames_of_rests hr hunlock with ⟨i, hi⟩ | ⟨i, g, p, -, heq⟩
      · cases hi
      · exact absurd heq.symm (baseFrame_ne (by simp) (by simp))
    · by_cases hq : c.shared.readyQueue.queue = []
      · exact Or.inl hq
      · exact Or.inr (h.queue_of_rests hr hs hq)
  · push Not at hr
    obtain ⟨i, hi⟩ := hr
    exact Or.inl (h.progress hi)

end Rest

/-- Two workers, one task that waits for a wake: worker 1 sleeps on the condvar, worker 0 is in
`epoll_wait`, and no thread has anything to do. -/
theorem goes_on_or_idle_waiting : ∃ c : Config (Shared Unit) (Frame Unit), Reachable 2 1 c ∧
    c.shared.waiters = [1] ∧ (c.shared.task 1).status = .idle ∧ (∀ i, Rests c i) ∧
    ((∃ i ch c', ¬ Rests c i ∧ (machine Unit).step c i ch = some c') ∨ Idle 2 c) := by
  obtain ⟨c, hc, hw, hfd, hst, h0, h1, h2, hlen⟩ := exists_reachable 2 1
    [ -- a task is spawned, and worker 0 polls it once
      (2, .call .spawn), (2, .go), (2, .go), (2, .go), (2, .go), (2, .go),
      (0, .go), (0, .go), (0, .go), (0, .go), (0, .ret .pending), (0, .go),
      -- worker 0 becomes the driver
      (0, .go), (0, .go), (0, .go), (0, .go), (0, .go), (0, .now 0), (0, .go), (0, .go),
      -- worker 1 goes to sleep
      (1, .go), (1, .go), (1, .go), (1, .go), (1, .go), (1, .go)]
    (fun c : Config (Shared Unit) (Frame Unit) => c.shared.waiters = [1] ∧
      c.shared.eventfd = 0 ∧ (c.shared.task 1).status = .idle ∧
      c.top 0 = some (atDrive (.epollWait 0 5000000)) ∧ c.top 1 = some (.worker .waiting) ∧
      c.top 2 = some .external ∧ c.threads.length = 3)
    (by decide)
  refine ⟨c, hc, hw, hst, fun i f hf => ?_, goes_on_or_idle hc⟩
  have hi : i < 3 := by
    by_contra hge
    rw [Config.top, List.getElem?_eq_none (by omega)] at hf
    cases hf
  obtain rfl | rfl | rfl : i = 0 ∨ i = 1 ∨ i = 2 := by omega
  · obtain rfl := Option.some.inj (h0.symm.trans hf)
    exact hfd
  · obtain rfl := Option.some.inj (h1.symm.trans hf)
    show 1 ∈ c.shared.waiters
    rw [hw]
    exact List.mem_singleton_self 1
  · obtain rfl := Option.some.inj (h2.symm.trans hf)
    trivial

end MiniAsync.MultiThread
