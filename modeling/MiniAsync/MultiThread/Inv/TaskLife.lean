/-
  The runtime keeps the lifecycle of every task: seen from one task, each step
  of the machine is a step of `Lifecycle`. So the accounting of `Lifecycle.Inv`
  holds for every task in every reachable configuration, and with it the
  exclusive access to a task's future that `Task::poll` relies on.
-/
import MiniAsync.Interleave.Roles
import MiniAsync.MultiThread.Inv.Lifecycle
import MiniAsync.MultiThread.Inv.Valid

namespace MiniAsync.MultiThread

open Interleave

variable {V : Type}

/-! ### One task in the runtime -/

/-- What the runtime knows of the task `x`. -/
def view (x : TaskId) (sh : Shared V) : Lifecycle.View where
  status := (sh.task x).status
  allocated := decide (sh.Allocated x)
  queued := sh.readyQueue.queue.count x
  listed := decide (x ∈ sh.tasks)
  finished := (sh.hist x).finished
  removed := (sh.hist x).removed
  polls := (sh.hist x).polls
  wakes := (sh.hist x).wakes

@[simp] theorem view_status (x : TaskId) (sh : Shared V) :
    (view x sh).status = (sh.task x).status := rfl

@[simp] theorem view_queued (x : TaskId) (sh : Shared V) :
    (view x sh).queued = sh.readyQueue.queue.count x := rfl

@[simp] theorem view_finished (x : TaskId) (sh : Shared V) :
    (view x sh).finished = (sh.hist x).finished := rfl

@[simp] theorem view_removed (x : TaskId) (sh : Shared V) :
    (view x sh).removed = (sh.hist x).removed := rfl

@[simp] theorem view_polls (x : TaskId) (sh : Shared V) :
    (view x sh).polls = (sh.hist x).polls := rfl

@[simp] theorem view_wakes (x : TaskId) (sh : Shared V) :
    (view x sh).wakes = (sh.hist x).wakes := rfl

@[simp] theorem view_modifyTask_self (sh : Shared V) (x : TaskId) (g : Task V → Task V) :
    view x (sh.modifyTask x g) = { view x sh with status := (g (sh.task x)).status } := by
  ext1 <;> first | rfl | simp

@[simp] theorem view_modifyTask_of_ne (sh : Shared V) {x y : TaskId} (h : x ≠ y)
    (g : Task V → Task V) : view x (sh.modifyTask y g) = view x sh := by
  ext1 <;> first | rfl | simp [h]

@[simp] theorem view_modifyHist_self (sh : Shared V) (x : TaskId) (g : TaskHist V → TaskHist V) :
    view x (sh.modifyHist x g) = { view x sh with
      finished := (g (sh.hist x)).finished
      removed := (g (sh.hist x)).removed
      polls := (g (sh.hist x)).polls
      wakes := (g (sh.hist x)).wakes } := by
  ext1 <;> first | rfl | simp

@[simp] theorem view_modifyHist_of_ne (sh : Shared V) {x y : TaskId} (h : x ≠ y)
    (g : TaskHist V → TaskHist V) : view x (sh.modifyHist y g) = view x sh := by
  ext1 <;> first | rfl | simp [h]

@[simp] theorem view_sleepWoken (sh : Shared V) (x : TaskId) (w : Waker) (t : Option (ℕ × ℕ)) :
    view x (sh.sleepWoken w t) = view x sh := rfl

/-- A change of a task that leaves its status is not seen. -/
theorem view_modifyTask (sh : Shared V) (x y : TaskId) (g : Task V → Task V)
    (h : (g (sh.task y)).status = (sh.task y).status) :
    view x (sh.modifyTask y g) = view x sh := by
  rcases eq_or_ne x y with rfl | hne
  · rw [view_modifyTask_self, h]
    rfl
  · exact view_modifyTask_of_ne sh hne g

/-- A change of a task's history that leaves what the view shows is not seen. -/
theorem view_modifyHist (sh : Shared V) (x y : TaskId) (g : TaskHist V → TaskHist V)
    (hf : (g (sh.hist y)).finished = (sh.hist y).finished)
    (hr : (g (sh.hist y)).removed = (sh.hist y).removed)
    (hp : (g (sh.hist y)).polls = (sh.hist y).polls)
    (hw : (g (sh.hist y)).wakes = (sh.hist y).wakes) :
    view x (sh.modifyHist y g) = view x sh := by
  rcases eq_or_ne x y with rfl | hne
  · rw [view_modifyHist_self, hf, hr, hp, hw]
    rfl
  · exact view_modifyHist_of_ne sh hne g

/-- The role that a call frame gives to its thread, and for which task. -/
def Frame.role : Frame V → Option (TaskId × Lifecycle.Role)
  | .spawn x .insert => some (x, .inserting)
  | .spawn x .incActive => some (x, .pushing)
  | .enqueue x .push => some (x, .pushing)
  | .worker (.pollTask x pc) =>
    match pc with
    | .lookup | .casRunning => some (x, .held)
    | .polling | .storeResult _ | .unlock | .storeSignal _ | .notifySignal | .casIdle =>
      some (x, .runner)
    | .storeScheduled => some (x, .resched)
    | .remove => some (x, .completing)
    | .decActive | .notifyAll => none
  | .wake x _ _ pc =>
    match pc with
    | .load | .casIdle | .casRunning => some (x, .waking)
    | .ret => none
  | _ => none

/-- One for a frame with the role `r` for the task `x`. -/
def holds (x : TaskId) (r : Lifecycle.Role) (f : Frame V) : ℕ :=
  if f.role = some (x, r) then 1 else 0

section Step

variable {i : ℕ} {sh sh' : Shared V} {f : Frame V} {fs : List (Frame V)}

theorem stutter_of_eq {x : TaskId} (hv : view x sh' = view x sh)
    (hr : rolesOf Frame.role x fs = rolesOf Frame.role x [f]) :
    Lifecycle.Step (view x sh) (rolesOf Frame.role x [f]) (view x sh')
      (rolesOf Frame.role x fs) :=
  step_stutter .stutter hv hr

/-- A step of the lifecycle of the task `y`, seen from a task `x`. -/
theorem lifecycle_of_self {x y : TaskId} {r : Lifecycle.Role} {v : Lifecycle.View}
    {rs : List Lifecycle.Role} (hf : f.role = some (y, r))
    (h : Lifecycle.Step (view y sh) [r] v rs) (hv : view y sh' = v)
    (hr : rolesOf Frame.role y fs = rs) (hv' : x ≠ y → view x sh' = view x sh)
    (hr' : x ≠ y → rolesOf Frame.role x fs = []) :
    Lifecycle.Step (view x sh) (rolesOf Frame.role x [f]) (view x sh')
      (rolesOf Frame.role x fs) := by
  refine step_of_self .stutter hf hv' hr' ?_
  rw [hv, hr]
  exact h

theorem Shared.newTask_allocated_of_ne (sh : Shared V) (root : Bool) {x : TaskId}
    (hne : x ≠ sh.nextTaskId) : (sh.newTask root).Allocated x ↔ sh.Allocated x :=
  and_congr_right fun _ =>
    ⟨fun h => Nat.lt_of_le_of_ne (Nat.le_of_lt_succ h) hne, Nat.lt_succ_of_lt⟩

/-- A new task is not pushed yet; for the other tasks nothing happens. -/
theorem lifecycle_newTask (hsh : sh.Valid) (root : Bool) (x : TaskId) (rs : List Lifecycle.Role) :
    Lifecycle.Step (view x sh) rs (view x (sh.newTask root))
      (rolesOf Frame.role x [(.spawn sh.nextTaskId .insert : Frame V)] ++ rs) := by
  rcases eq_or_ne x sh.nextTaskId with rfl | hne
  · have hv : view sh.nextTaskId (sh.newTask root) = { view sh.nextTaskId sh with
        status := .scheduled, allocated := true, finished := false, removed := false, polls := 0,
        wakes := 0 } := by
      ext1 <;> first
        | rfl
        | simp [view, Shared.newTask, Shared.Allocated, Task.blank, TaskHist.blank, hsh.next]
    rw [hv]
    simpa [roleOf, Frame.role] using Lifecycle.Step.create (view sh.nextTaskId sh) rs
      (by simp [view, Shared.Allocated])
  · have hal := sh.newTask_allocated_of_ne root hne
    have hv : view x (sh.newTask root) = view x sh := by
      ext1 <;> first | rfl | exact decide_eq_decide.mpr hal | simp [view, Shared.newTask, hne]
    rw [hv]
    simpa [roleOf, Frame.role, hne.symm] using Lifecycle.Step.stutter (view x sh) rs

/-- **Simulation**: for every task, a step of the runtime is a step of the task's lifecycle. -/
theorem Exec.lifecycle (h : Exec i sh f sh' fs) (hsh : sh.Valid) (hf : f.Valid sh) (x : TaskId) :
    Lifecycle.Step (view x sh) (rolesOf Frame.role x [f]) (view x sh')
      (rolesOf Frame.role x fs) := by
  cases h
  case dequeueSome y q hl h =>
    have hq := ReadyQueue.dequeue_eq_some h
    rcases eq_or_ne x y with rfl | hne
    · have hv : view x sh = { view x { sh with readyQueue := q } with
          queued := (view x { sh with readyQueue := q }).queued + 1 } := by
        ext1 <;> first | rfl | simp [view, hq]
      rw [hv]
      simpa [roleOf, Frame.role] using
        Lifecycle.Step.dequeue (view x { sh with readyQueue := q }) []
    · refine stutter_of_eq ?_ (by simp [roleOf, Frame.role, hne.symm])
      ext1 <;> first | rfl | simp [view, hq, hne.symm]
  case notFound y h =>
    exact lifecycle_of_self rfl (.notFound (view y sh) (by simpa [view] using h)) rfl rfl
      (fun _ => rfl) (fun _ => rfl)
  case started y h =>
    exact lifecycle_of_self rfl (.start (view y sh) h) (by simp [Shared.setStatus])
      (rolesOf_self Frame.role rfl) (fun hne => by simp [Shared.setStatus, hne])
      (fun hne => rolesOf_of_ne Frame.role hne rfl)
  case casFailed y h =>
    exact lifecycle_of_self rfl (.casFailed (view y sh) h) rfl rfl (fun _ => rfl) (fun _ => rfl)
  case retPanicked y | unlock y | notifySignal y =>
    exact lifecycle_of_self rfl (.finish (view y sh)) (by simp) (rolesOf_self Frame.role rfl)
      (fun hne => by simp [hne]) (fun hne => rolesOf_of_ne Frame.role hne rfl)
  case remove y =>
    refine lifecycle_of_self rfl (.remove (view y sh)) ?_ rfl (fun hne => ?_) (fun _ => rfl)
    · ext1 <;> first | rfl | simp [view, Shared.modifyHist]
    · ext1 <;> first | rfl | simp [view, Shared.modifyHist, hne]
  case idled y h =>
    exact lifecycle_of_self rfl (.idle (view y sh) h) (by simp [Shared.setStatus]) rfl
      (fun hne => by simp [Shared.setStatus, hne]) (fun _ => rfl)
  case idleFailed y h =>
    exact lifecycle_of_self rfl (.missed (view y sh) h) rfl (rolesOf_self Frame.role rfl)
      (fun _ => rfl) (fun hne => rolesOf_of_ne Frame.role hne rfl)
  case storeScheduled y =>
    exact lifecycle_of_self rfl (.reschedule (view y sh)) (by simp [Shared.setStatus])
      (rolesOf_self Frame.role rfl) (fun hne => by simp [Shared.setStatus, hne])
      (fun hne => rolesOf_of_ne Frame.role hne rfl)
  case wakeTask y _ =>
    rcases eq_or_ne x y with rfl | hne
    · simpa [roleOf, Frame.role] using Lifecycle.Step.wakeCall (view x sh) []
        (decide_eq_true (hf (.task x) (by simp [Frame.mentions])))
    · exact stutter_of_eq (by simp [hne]) (by simp [roleOf, Frame.role, hne.symm])
  case loadWoken y b t h =>
    refine lifecycle_of_self rfl (.wakeSeen (view y sh) h) ?_ rfl
      (fun hne => by simp [wakeReturned, hne]) (fun _ => rfl)
    rw [wakeReturned, view_modifyHist _ _ _ _ rfl rfl rfl rfl, view_sleepWoken]
  case wakeIdle y b t h =>
    exact lifecycle_of_self rfl (.wakeIdle (view y sh) h) (by simp [Shared.setStatus])
      (by simp [roleOf, Frame.role]) (fun hne => by simp [Shared.setStatus, hne])
      (fun hne => by simp [roleOf, Frame.role, hne.symm])
  case wakeRunning y b t h =>
    exact lifecycle_of_self rfl (.wakeRunning (view y sh) h)
      (by simp [wakeReturned, Shared.setStatus]) rfl
      (fun hne => by simp [wakeReturned, Shared.setStatus, hne]) (fun _ => rfl)
  case push y hl =>
    have hq := ReadyQueue.enqueue_queue hsh.wf y
    have hother : x ≠ y → view x { sh with readyQueue := sh.readyQueue.enqueue y } = view x sh := by
      intro hne
      ext1 <;> first | rfl | (simp only [view, hq]; split_ifs <;> simp [hne.symm])
    by_cases hy : y ∈ sh.readyQueue.queue
    · rw [if_pos hy] at hq
      refine lifecycle_of_self rfl (.pushPresent (view y sh) (List.count_pos_iff.mpr hy)) ?_ rfl
        hother (fun _ => rfl)
      ext1 <;> first | rfl | simp [view, hq]
    · rw [if_neg hy] at hq
      refine lifecycle_of_self rfl (.push (view y sh) (List.count_eq_zero.mpr hy)) ?_ rfl
        hother (fun _ => rfl)
      ext1 <;> first | rfl | simp [view, hq]
  case insert y =>
    refine lifecycle_of_self rfl (.insert (view y sh)) ?_ (rolesOf_self Frame.role rfl)
      (fun hne => ?_) (fun hne => rolesOf_of_ne Frame.role hne rfl)
    · ext1 <;> first | rfl | simp [view]
    · ext1 <;> first | rfl | simp [view, hne]
  case callSpawn p =>
    rw [rolesOf_cons (Frame.spawn _ _)]
    exact lifecycle_newTask hsh false x _
  case callBlockOn p =>
    rw [rolesOf_cons (Frame.spawn _ _), rolesOf_cons (Frame.blockOn _ _)]
    exact lifecycle_newTask hsh true x _
  -- the other changes of a task or of its history are not seen
  case storeResult | storeResultWake =>
    refine stutter_of_eq ?_ rfl
    rw [Shared.resultStored, view_modifyHist _ _ _ _ rfl rfl rfl rfl, view_modifyTask _ _ _ _ rfl]
  case retReady | retReadyRoot | wakeRet =>
    exact stutter_of_eq (view_modifyHist _ _ _ _ rfl rfl rfl rfl) rfl
  all_goals first
    | exact .stutter _ _
    | refine stutter_of_eq ?_ rfl
      rw [view_modifyHist _ _ _ _ rfl rfl rfl rfl, view_modifyTask _ _ _ _ rfl]

end Step

/-! ### The accounting over all threads -/

/-- How many call frames hold which role for the task `x`. -/
def tally (x : TaskId) (F : Multiset (Frame V)) (r : Lifecycle.Role) : ℕ := weigh (holds x r) F

theorem tally_add (x : TaskId) (fs : List (Frame V)) (R : Multiset (Frame V)) :
    tally x ((fs : Multiset (Frame V)) + R)
      = fun r => (rolesOf Frame.role x fs).count r + tally x R r := by
  funext r
  rw [tally, weigh_coe_add, count_rolesOf]
  rfl

theorem tally_cons (x : TaskId) (f : Frame V) (R : Multiset (Frame V)) :
    tally x (f ::ₘ R) = fun r => (rolesOf Frame.role x [f]).count r + tally x R r :=
  tally_add x [f] R

/-- **The accounting of every task holds in every reachable configuration.** -/
theorem Reachable.lifecycle {n m : ℕ} {c : Config (Shared V) (Frame V)} (h : Reachable n m c)
    (x : TaskId) : Lifecycle.Inv (view x c.shared) (tally x c.frames) := by
  refine h.invariant (I := fun sh F => Lifecycle.Inv (view x sh) (tally x F)) ?_ ?_
  · have hv : view x (Shared.new n : Shared V) = Lifecycle.View.blank := by
      have hx : ¬ (Shared.new n : Shared V).Allocated x := fun h => absurd h.2 (Nat.not_lt.mpr h.1)
      ext1 <;> first | rfl | exact decide_eq_false hx
    have ht : tally x (start V n m).frames = fun _ => 0 := by
      funext r
      rw [tally, weigh_start]
      rfl
    rw [hv, ht]
    exact Lifecycle.inv_blank
  · intro c c' i f fs R hc _ hF _ hex hI
    obtain ⟨hsh, hf⟩ := hc.valid
    have hstep := hex.lifecycle hsh (hf f (hF ▸ Multiset.mem_cons_self f R)) x
    rw [tally_cons] at hI
    rw [tally_add]
    exact hstep.inv (tally x R) hI

/-! ### Exclusive access to the future -/

/-- The frame is inside `Task::poll` of the task `x`. -/
def Frame.insidePoll (x : TaskId) : Frame V → Bool
  | .worker (.pollTask y pc) =>
    match pc with
    | .polling | .storeResult _ | .unlock | .storeSignal _ | .notifySignal => y = x
    | _ => false
  | _ => false

/-- The frame belongs to a thread that has put the task `x` into SCHEDULED and has not pushed its
id yet: in `spawn`, in a wake or after a poll. -/
def Frame.aboutToPush (x : TaskId) : Frame V → Bool
  | .spawn y _ => y = x
  | .enqueue y .push => y = x
  | _ => false

/-- The frame belongs to a worker that has dequeued `x` and has not done the compare-and-swap from
SCHEDULED to RUNNING. -/
def Frame.dequeued (x : TaskId) : Frame V → Bool
  | .worker (.pollTask y pc) =>
    match pc with
    | .lookup | .casRunning => y = x
    | _ => false
  | _ => false

/-- The number of schedule tokens for the task `x`. -/
def tokens (x : TaskId) (c : Config (Shared V) (Frame V)) : ℕ :=
  c.shared.readyQueue.queue.count x + c.frames.countP (·.aboutToPush x)
    + c.frames.countP (·.dequeued x)

/-- Frames are compared with their roles one constructor at a time. -/
theorem aboutToPush_eq (x : TaskId) (f : Frame V) :
    (if f.aboutToPush x then 1 else 0) = holds x .inserting f + holds x .pushing f := by
  cases f with
  | spawn y pc => cases pc <;> simp [holds, Frame.role, Frame.aboutToPush]
  | enqueue y pc => cases pc <;> simp [holds, Frame.role, Frame.aboutToPush]
  | wake y b t pc => cases pc <;> simp [holds, Frame.role, Frame.aboutToPush]
  | worker pc =>
    cases pc with
    | pollTask y pc => cases pc <;> simp [holds, Frame.role, Frame.aboutToPush]
    | _ => rfl
  | _ => rfl

theorem dequeued_eq (x : TaskId) (f : Frame V) :
    (if f.dequeued x then 1 else 0) = holds x .held f := by
  cases f with
  | spawn y pc => cases pc <;> simp [holds, Frame.role, Frame.dequeued]
  | enqueue y pc => cases pc <;> simp [holds, Frame.role, Frame.dequeued]
  | wake y b t pc => cases pc <;> simp [holds, Frame.role, Frame.dequeued]
  | worker pc =>
    cases pc with
    | pollTask y pc => cases pc <;> simp [holds, Frame.role, Frame.dequeued]
    | _ => rfl
  | _ => rfl

theorem insidePoll_le (x : TaskId) (f : Frame V) :
    (if f.insidePoll x then 1 else 0) ≤ holds x .runner f := by
  cases f with
  | worker pc =>
    cases pc with
    | pollTask y pc => cases pc <;> simp [holds, Frame.role, Frame.insidePoll]
    | _ => exact Nat.le_refl 0
  | _ => exact Nat.zero_le _

theorem tokens_eq (x : TaskId) (c : Config (Shared V) (Frame V)) :
    tokens x c = tally x c.frames .inserting + tally x c.frames .pushing
      + (view x c.shared).queued + tally x c.frames .held := by
  have hpush : c.frames.countP (·.aboutToPush x)
      = tally x c.frames .inserting + tally x c.frames .pushing := by
    rw [countP_eq_weigh, tally, tally, ← weigh_add]
    exact congrArg (weigh · c.frames) (funext (aboutToPush_eq x))
  have hdeq : c.frames.countP (·.dequeued x) = tally x c.frames .held := by
    rw [countP_eq_weigh, tally]
    exact congrArg (weigh · c.frames) (funext (dequeued_eq x))
  rw [tokens, hpush, hdeq, view_queued]
  omega

theorem countP_insidePoll_le (x : TaskId) (F : Multiset (Frame V)) :
    F.countP (·.insidePoll x) ≤ tally x F .runner := by
  rw [countP_eq_weigh]
  exact weigh_le_weigh (insidePoll_le x) F

/-- A thread whose topmost frame has a role is counted. -/
theorem tally_pos {x : TaskId} {r : Lifecycle.Role} {c : Config (Shared V) (Frame V)} {i : ℕ}
    {f : Frame V} (h : c.top i = some f) (hf : f.role = some (x, r)) : 0 < tally x c.frames r := by
  have hle : holds x r f ≤ tally x c.frames r := le_weigh _ (mem_frames_of_top h)
  rwa [holds, if_pos hf] at hle

/-- What the soundness of `Task::poll` rests on, for the task `x`. -/
structure Exclusive (x : TaskId) (c : Config (Shared V) (Frame V)) : Prop where
  /-- At most one worker is inside `Task::poll`. -/
  one : c.frames.countP (·.insidePoll x) ≤ 1
  /-- It is there only while the state is RUNNING or NOTIFIED. -/
  busy : 0 < c.frames.countP (·.insidePoll x) →
    (c.shared.task x).status = .running ∨ (c.shared.task x).status = .notified
  /-- One schedule token exists when the state is SCHEDULED, none otherwise. -/
  token : tokens x c = if (c.shared.task x).status = .scheduled then 1 else 0
  /-- After the future has returned `Ready` or has panicked, no poll of it begins or goes on. -/
  final : (c.shared.hist x).finished = true → ∀ c', (machine V).Reaches c c' →
    (c'.shared.hist x).polls = (c.shared.hist x).polls ∧ c'.frames.countP (·.insidePoll x) = 0
  /-- The compare-and-swap in `poll_task` does not fail. -/
  cas : ∀ i, c.top i = some (atPoll x .casRunning) → (c.shared.task x).status = .scheduled
  /-- The lookup in `poll_task` finds the task. -/
  found : ∀ i, c.top i = some (atPoll x .lookup) → x ∈ c.shared.tasks
  /-- `ReadyQueue::enqueue` does not find the id present. -/
  absent : ∀ i, c.top i = some (.enqueue x .push) → x ∉ c.shared.readyQueue.pending

theorem Reachable.finished_final {n m : ℕ} {c c' : Config (Shared V) (Frame V)}
    (h : Reachable n m c) (hr : (machine V).Reaches c c') (x : TaskId)
    (hf : (c.shared.hist x).finished = true) :
    (c'.shared.hist x).finished = true ∧ (c'.shared.hist x).polls = (c.shared.hist x).polls := by
  refine h.stable (P := fun sh => (sh.hist x).finished = true ∧
    (sh.hist x).polls = (c.shared.hist x).polls) hr ⟨hf, rfl⟩ ?_
  rintro d d' i f fs R hd hF hex ⟨hfin, hpolls⟩
  obtain ⟨hsh, hval⟩ := hd.valid
  have hstep := hex.lifecycle hsh (hval f (hF ▸ Multiset.mem_cons_self f R)) x
  have hI := hd.lifecycle x
  rw [hF, tally_cons] at hI
  obtain ⟨hfin', hpolls'⟩ := hstep.finished (tally x R) hI hfin
  exact ⟨hfin', hpolls'.trans hpolls⟩

/-- **Exclusive access.** In every reachable configuration, for every task: at most one worker
is inside `Task::poll`, and only while the task is RUNNING or NOTIFIED; the schedule tokens are
one or none as the task is SCHEDULED or not; a future that has ended is not polled again. So the
early returns of `poll_task` and the present case of `ReadyQueue::enqueue` are never taken. -/
theorem reachable_exclusive {n m : ℕ} {c : Config (Shared V) (Frame V)} (h : Reachable n m c)
    (x : TaskId) : Exclusive x c := by
  have hI := h.lifecycle x
  have hle := countP_insidePoll_le x c.frames
  have hwork := hI.workers
  refine ⟨?_, fun hpos => ?_, ?_, fun hf c' hr => ?_, fun i hi => ?_, fun i hi => ?_,
    fun i hi => ?_⟩
  · split_ifs at hwork <;> omega
  · exact Lifecycle.busy_iff.mp (hI.busy_of_runner (by omega))
  · rw [tokens_eq]
    exact hI.tokens
  · obtain ⟨hfin, hpolls⟩ := h.finished_final hr x hf
    refine ⟨hpolls, ?_⟩
    -- after the end the one worker the state allows for is accounted for by the end itself
    have hc' : Reachable n m c' := h.trans hr
    have hwork' := (hc'.lifecycle x).workers
    have hle' := countP_insidePoll_le x c'.frames
    rw [view_finished, hfin, ind_true] at hwork'
    split_ifs at hwork'
    omega
  · have hpos := tally_pos hi (x := x) (r := .held) rfl
    exact hI.scheduled_of_token (by omega)
  · have hpos := tally_pos hi (x := x) (r := .held) rfl
    exact of_decide_eq_true (hI.listed_of_token (by omega))
  · have hpos := tally_pos hi (x := x) (r := .pushing) rfl
    have hs := hI.scheduled_of_token (by omega)
    have htok := hI.tokens
    rw [if_pos hs, view_queued] at htok
    rw [← h.valid.1.wf.mem_iff]
    exact List.count_eq_zero.mp (by omega)

/-- A run in which a worker is inside the poll of a task that was woken meanwhile. -/
theorem reachable_exclusive_notified : ∃ c : Config (Shared Unit) (Frame Unit),
    Reachable 1 1 c ∧ c.top 0 = some (atPoll 1 .polling) ∧ (c.shared.task 1).status = .notified ∧
      Exclusive 1 c := by
  obtain ⟨c, hc, htop, hst⟩ := exists_reachable 1 1
    [(1, .call .spawn), (1, .go), (1, .go), (1, .go), (1, .go), (1, .go),
      (0, .go), (0, .go), (0, .go), (0, .go),
      (1, .call (.wake (.task 1))), (1, .go), (1, .go), (1, .go)]
    (fun c : Config (Shared Unit) (Frame Unit) =>
      c.top 0 = some (atPoll 1 .polling) ∧ (c.shared.task 1).status = .notified)
    (by decide)
  exact ⟨c, hc, htop, hst, reachable_exclusive hc 1⟩

end MiniAsync.MultiThread
