/-
  `Executor::tick` (`executor.rs`) as one call.

  The executor has the live tasks and the ready queue; a poll of a task is known to
  it by the wake-ups that it makes, before and after the task is removed, and by
  whether it returns `Ready` (`TaskPoll`). `tick` empties the queue first and polls
  what it has taken out, so what is woken meanwhile waits for the next tick.

  `tickLoop_polled`, `tickLoop_tasks` and `tickLoop_readyQueue` say what the loop
  polls, removes and leaves in the queue; `tick_fair` is the round that follows from
  it, and that no task is polled twice before a round is over. The tick that
  `block_on` makes step by step is this call (`exists_tick_of_run`).
-/
import MiniAsync.ReadyQueues
import MiniAsync.SingleThread.BlockOn

namespace MiniAsync.SingleThread

open MultiThread (PollResult)
open Heap Timer Trace Queue

/-- `Executor`, with the ids of the live tasks. -/
structure Executor where
  tasks : Finset TaskId
  readyQueue : ReadyQueue
deriving DecidableEq

/-- What a poll of a task does to the executor: the tasks that it wakes, one after the other,
whether it returns `Ready`, and the tasks that are woken when the finished future is dropped. -/
structure TaskPoll where
  wakes : List TaskId
  ready : Bool
  dropWakes : List TaskId
deriving DecidableEq

/-- All wake-ups of a poll. -/
def TaskPoll.woken (p : TaskPoll) : List TaskId :=
  if p.ready then p.wakes ++ p.dropWakes else p.wakes

namespace Executor

/-- `Executor::new`. -/
def new : Executor := ⟨∅, ReadyQueue.new⟩

/-- `Executor::spawn`. -/
def spawn (ex : Executor) (x : TaskId) : Executor := ⟨insert x ex.tasks, ex.readyQueue.push x⟩

/-- `waker_wake`. -/
def wake (ex : Executor) (x : TaskId) : Executor := { ex with readyQueue := ex.readyQueue.push x }

def wakeAll (ex : Executor) (xs : List TaskId) : Executor := xs.foldl wake ex

/-- A poll of the task `x`, with its removal if it is finished. -/
def poll (ex : Executor) (x : TaskId) (p : TaskPoll) : Executor :=
  let ex := ex.wakeAll p.wakes
  if p.ready then { ex with tasks := ex.tasks.erase x }.wakeAll p.dropWakes else ex

/-- The polls of a tick, in their order. -/
abbrev Log := List (TaskId × TaskPoll)

/-- The loop of `tick` over the drained ids. What the polls do is given by `polls`, one after the
other. -/
def tickLoop (polls : ℕ → TaskPoll) : List TaskId → Executor → Log × Executor
  | [], ex => ([], ex)
  | x :: rest, ex =>
    if x ∈ ex.tasks then
      let (log, ex) := tickLoop (fun n => polls (n + 1)) rest (ex.poll x (polls 0))
      ((x, polls 0) :: log, ex)
    else tickLoop polls rest ex

/-- `Executor::tick`, with its polls and its result. -/
def tick (ex : Executor) (polls : ℕ → TaskPoll) : (Log × Bool) × Executor :=
  let (ready, queue) := ex.readyQueue.drain
  let ex := { ex with readyQueue := queue }
  if ready.isEmpty then (([], false), ex)
  else
    let (log, ex) := tickLoop polls ready ex
    ((log, true), ex)

/-- All wake-ups of a tick, in their order. -/
def woken (log : Log) : List TaskId := log.flatMap fun e => e.2.woken

theorem woken_concat (log : Log) (e : TaskId × TaskPoll) :
    woken (log ++ [e]) = woken log ++ e.2.woken := by
  simp [woken]

/-! ### What a poll changes -/

variable {ex : Executor} {x y : TaskId}

theorem wakeAll_eq (ex : Executor) (xs : List TaskId) :
    ex.wakeAll xs = ⟨ex.tasks, xs.foldl ReadyQueue.push ex.readyQueue⟩ := by
  unfold wakeAll
  induction xs generalizing ex with
  | nil => rfl
  | cons x xs ih => exact ih (ex.wake x)

theorem wakeAll_append (ex : Executor) (xs ys : List TaskId) :
    ex.wakeAll (xs ++ ys) = (ex.wakeAll xs).wakeAll ys :=
  List.foldl_append

theorem poll_eq (ex : Executor) (x : TaskId) (p : TaskPoll) :
    ex.poll x p = ⟨if p.ready then ex.tasks.erase x else ex.tasks,
      p.woken.foldl ReadyQueue.push ex.readyQueue⟩ := by
  unfold poll TaskPoll.woken
  cases p.ready with
  | false => exact wakeAll_eq ex p.wakes
  | true =>
    simp only [wakeAll_eq, if_true, List.foldl_append]

theorem mem_poll_tasks (p : TaskPoll) :
    y ∈ (ex.poll x p).tasks ↔ y ∈ ex.tasks ∧ ¬ (y = x ∧ p.ready = true) := by
  rw [poll_eq]
  cases p.ready with
  | false => simp
  | true =>
    simp only [if_true, Finset.mem_erase, and_true]
    exact and_comm

/-! ### The loop -/

/-- The loop polls the tasks that are alive; no poll ends another task. -/
theorem tickLoop_polled {rest : List TaskId} (hnd : rest.Nodup) (polls : ℕ → TaskPoll)
    (ex : Executor) :
    (tickLoop polls rest ex).1.map Prod.fst = rest.filter (· ∈ ex.tasks) := by
  induction rest generalizing polls ex with
  | nil => rfl
  | cons x rest ih =>
    obtain ⟨hx, hnd⟩ := List.nodup_cons.mp hnd
    rw [tickLoop]
    by_cases hlive : x ∈ ex.tasks
    · rw [if_pos hlive, List.filter_cons_of_pos (by simpa using hlive), List.map_cons, ih hnd]
      have hsame : ∀ y ∈ rest,
          decide (y ∈ (ex.poll x (polls 0)).tasks) = decide (y ∈ ex.tasks) := by
        intro y hy
        have hne : y ≠ x := fun he => hx (he ▸ hy)
        simp [mem_poll_tasks, hne]
      rw [List.filter_congr hsame]
    · rw [if_neg hlive, List.filter_cons_of_neg (by simpa using hlive)]
      exact ih hnd polls ex

/-- The loop removes the tasks that have returned `Ready`. -/
theorem tickLoop_tasks (polls : ℕ → TaskPoll) (rest : List TaskId) (ex : Executor) :
    y ∈ (tickLoop polls rest ex).2.tasks ↔
      y ∈ ex.tasks ∧ ∀ p, (y, p) ∈ (tickLoop polls rest ex).1 → p.ready = false := by
  induction rest generalizing polls ex with
  | nil => simp [tickLoop]
  | cons x rest ih =>
    rw [tickLoop]
    split_ifs with hlive
    · simp only [ih, mem_poll_tasks, List.mem_cons, Prod.mk.injEq]
      constructor
      · rintro ⟨⟨hy, hnot⟩, hrest⟩
        refine ⟨hy, ?_⟩
        rintro p (⟨rfl, rfl⟩ | hp)
        · simpa using hnot
        · exact hrest p hp
      · rintro ⟨hy, hall⟩
        refine ⟨⟨hy, ?_⟩, fun p hp => hall p (Or.inr hp)⟩
        rintro ⟨rfl, hready⟩
        rw [hall _ (Or.inl ⟨rfl, rfl⟩)] at hready
        cases hready
    · exact ih polls ex

/-- The loop pushes the ids that are woken. -/
theorem tickLoop_readyQueue (polls : ℕ → TaskPoll) (rest : List TaskId) (ex : Executor) :
    (tickLoop polls rest ex).2.readyQueue =
      (woken (tickLoop polls rest ex).1).foldl ReadyQueue.push ex.readyQueue := by
  induction rest generalizing polls ex with
  | nil => rfl
  | cons x rest ih =>
    rw [tickLoop]
    split_ifs with hlive
    · simp only [ih, woken, List.flatMap_cons, List.foldl_append, poll_eq]
    · exact ih polls ex

/-- The polls are the given ones. -/
theorem tickLoop_polls (polls : ℕ → TaskPoll) (rest : List TaskId) (ex : Executor) :
    (tickLoop polls rest ex).1.map Prod.snd =
      (List.range (tickLoop polls rest ex).1.length).map polls := by
  induction rest generalizing polls ex with
  | nil => rfl
  | cons x rest ih =>
    rw [tickLoop]
    split_ifs with hlive
    · simp only [List.map_cons, List.length_cons, List.range_succ_eq_map, List.map_map, ih]
      rfl
    · exact ih polls ex

end Executor

/-! ### Rounds -/

theorem ReadyQueue.Sim.pushAll {q : ReadyQueue} {a : DistinctQueue ℕ} (hsim : q.Sim a)
    (xs : List TaskId) : (xs.foldl ReadyQueue.push q).Sim (a.insertAll xs) := by
  induction xs generalizing q a with
  | nil => exact hsim
  | cons x xs ih => exact ih (hsim.push x)

namespace Executor

/-- The set of the ready queue has its ids, each of which is queued once. -/
structure QueueOk (ex : Executor) : Prop where
  set_eq : ex.readyQueue.set = ex.readyQueue.queue.toFinset
  nodup : ex.readyQueue.queue.Nodup

/-- A tick that makes the polls `log` is a round: they are the given polls, of the tasks that are
alive and queued at its start, each once and in the order of the queue; it removes the tasks that
return `Ready`; and it leaves in the queue the ids that are woken in it, whether they are polled in
it or not, each once and in the order of their first wake-ups. -/
structure Round (ex : Executor) (polls : ℕ → TaskPoll) (log : Log) (ex' : Executor) : Prop where
  made : log.map Prod.snd = (List.range log.length).map polls
  polled : log.map Prod.fst = ex.readyQueue.queue.filter (· ∈ ex.tasks)
  once : (log.map Prod.fst).Nodup
  removed : ∀ x, x ∈ ex'.tasks ↔ x ∈ ex.tasks ∧ ∀ p, (x, p) ∈ log → p.ready = false
  queued : ∀ x, x ∈ ex'.readyQueue.queue ↔ x ∈ woken log
  ordered : ex'.readyQueue.queue.Pairwise fun x y => (woken log).idxOf x < (woken log).idxOf y
  queueOk : ex'.QueueOk

variable {ex ex' : Executor}

theorem QueueOk.of_sim {a : DistinctQueue ℕ} (hsim : ex.readyQueue.Sim a) : ex.QueueOk :=
  ⟨hsim.queue_eq ▸ hsim.set_eq, hsim.queue_eq ▸ a.nodup⟩

theorem QueueOk.sim (h : ex.QueueOk) : ex.readyQueue.Sim ⟨ex.readyQueue.queue, h.nodup⟩ :=
  ⟨rfl, h.set_eq⟩

/-- With an empty queue there is nothing to do. -/
theorem tick_eq (ex : Executor) (polls : ℕ → TaskPoll) :
    ((ex.tick polls).1.1, (ex.tick polls).2) =
      tickLoop polls ex.readyQueue.queue ⟨ex.tasks, ReadyQueue.new⟩ := by
  unfold tick ReadyQueue.drain
  cases ex.readyQueue.queue <;> rfl

theorem round_tick (hq : ex.QueueOk) (polls : ℕ → TaskPoll) :
    ex.Round polls (ex.tick polls).1.1 (ex.tick polls).2 := by
  obtain ⟨hlog, hex⟩ := Prod.ext_iff.mp (ex.tick_eq polls)
  simp only at hlog hex
  have hpolled := tickLoop_polled hq.nodup polls ⟨ex.tasks, ReadyQueue.new⟩
  have hready := tickLoop_readyQueue polls ex.readyQueue.queue ⟨ex.tasks, ReadyQueue.new⟩
  have hsim : (ex.tick polls).2.readyQueue.Sim
      (DistinctQueue.empty.insertAll (woken (ex.tick polls).1.1)) := by
    rw [hlog, hex, hready]
    exact ReadyQueue.Sim.pushAll .empty _
  rw [← hlog] at hpolled
  refine ⟨?_, hpolled, ?_, fun x => ?_, fun x => ?_, ?_, .of_sim hsim⟩
  · rw [hlog]
    exact tickLoop_polls polls _ _
  · rw [hpolled]
    exact hq.nodup.filter _
  · rw [hlog, hex]
    exact tickLoop_tasks polls _ _
  · rw [hsim.queue_eq]
    exact DistinctQueue.mem_insertAll _
  · rw [hsim.queue_eq]
    exact DistinctQueue.insertAll_order _

/-! ### Sequences of ticks -/

/-- What happens to the executor: its own calls, and wake-ups from outside of a tick. -/
inductive Op where
  | spawn (x : TaskId)
  | wake (x : TaskId)
  | tick (polls : ℕ → TaskPoll)

def step (ex : Executor) : Op → Option (Log × Executor)
  | .spawn x => some ([], ex.spawn x)
  | .wake x => some ([], ex.wake x)
  | .tick polls => some ((ex.tick polls).1.1, (ex.tick polls).2)

abbrev system : System Executor Op Log := ofFn step

/-- The tasks that are polled, in their order. -/
def polledIn (h : List (Op × Log)) : List TaskId := h.flatMap fun e => e.2.map Prod.fst

theorem QueueOk.step {o : Op} {log : Log} (hq : ex.QueueOk) (hs : ex.step o = some (log, ex')) :
    ex'.QueueOk := by
  cases o with
  | spawn x =>
    cases hs
    exact QueueOk.of_sim (hq.sim.push x)
  | wake x =>
    cases hs
    exact QueueOk.of_sim (hq.sim.push x)
  | tick polls =>
    cases hs
    exact (round_tick hq polls).queueOk

theorem run_queueOk {h : List (Op × Log)} (hq : ex.QueueOk) (hr : Run system ex h ex') :
    ex'.QueueOk :=
  hr.invariant (I := fun _ ex => ex.QueueOk) hq fun _ _ _ _ _ _ hq hs => hq.step hs

/-- The second occurrence of an element comes after the end of a list that has it once. -/
theorem prefix_of_nodup {α : Type} {a b c d l : List α} {x : α} (hnd : (a ++ x :: b).Nodup)
    (heq : b ++ l = c ++ x :: d) : b <+: c := by
  rcases List.append_eq_append_iff.mp heq with ⟨m, hc, -⟩ | ⟨m, hb, hm⟩
  · exact ⟨m, hc.symm⟩
  · cases m with
    | nil =>
      rw [List.append_nil] at hb
      rw [hb]
    | cons y m =>
      cases hm
      have hx : x ∉ b := (List.nodup_cons.mp (List.nodup_append.mp hnd).2.1).1
      exact absurd (hb ▸ List.mem_append_right c List.mem_cons_self) hx

/-- **One tick is one round.** Whatever the polled tasks do, `tick` is a round, in every state with
a good ready queue. So over any calls and wake-ups, if a tick polls `x` after the tasks `a` and
before the tasks `b`, and `c` is what is polled after it until `x` is polled again, then all of `b`
comes before the second poll, and every task that was alive and queued when the tick began is among
`a`, `x` and `b`. -/
theorem tick_fair :
    (∀ ex : Executor, ex.QueueOk → ∀ polls,
      ex.Round polls (ex.tick polls).1.1 (ex.tick polls).2) ∧
    ∀ (ex₀ ex₁ ex₂ ex₃ : Executor) (h₁ h₂ : List (Op × Log)) (polls : ℕ → TaskPoll) (log : Log),
      ex₀.QueueOk → Run system ex₀ h₁ ex₁ → ex₁.step (.tick polls) = some (log, ex₂) →
      Run system ex₂ h₂ ex₃ → ∀ a x b c d, log.map Prod.fst = a ++ x :: b →
        b ++ polledIn h₂ = c ++ x :: d →
        b <+: c ∧ ∀ y ∈ ex₁.readyQueue.queue, y ∈ ex₁.tasks → y ∈ a ++ x :: b := by
  refine ⟨fun ex hq polls => round_tick hq polls, ?_⟩
  intro ex₀ ex₁ ex₂ ex₃ h₁ h₂ polls log hq hr₁ hs _ a x b c d hlog hagain
  have hround := round_tick (run_queueOk hq hr₁) polls
  cases hs
  refine ⟨prefix_of_nodup (hlog ▸ hround.once) hagain, fun y hy hlive => ?_⟩
  rw [← hlog, hround.polled]
  exact List.mem_filter.mpr ⟨hy, decide_eq_true hlive⟩

/-- The task `1` wakes `2` and itself; `2`, which is still to be polled, finishes and wakes `3` when
it is dropped; `7` is not alive. In the next tick `1` is polled again, after `2` was. -/
theorem tick_fair_two_ticks :
    ∃ (ex₀ ex₁ : Executor) (polls : ℕ → TaskPoll) (log log' : Log), ex₀.QueueOk ∧
      ex₀.step (.tick polls) = some (log, ex₁) ∧ ex₀.Round polls log ex₁ ∧
      log.map Prod.fst = [1] ++ 2 :: [] ∧ ex₁.readyQueue.queue = [2, 1, 3] ∧ ex₁.tasks = {1} ∧
      (ex₁.tick polls).1.1 = log' ∧ log'.map Prod.fst = [1] ∧
      ([2] <+: [2] ∧ ∀ y ∈ ex₀.readyQueue.queue, y ∈ ex₀.tasks → y ∈ [] ++ 1 :: [2]) := by
  let polls : ℕ → TaskPoll := fun n => if n = 0 then ⟨[2, 1, 2], false, []⟩ else ⟨[], true, [3]⟩
  let ex₀ : Executor := ⟨{1, 2}, ⟨[1, 2, 7], {1, 2, 7}⟩⟩
  have hq : ex₀.QueueOk := ⟨by decide, by decide⟩
  obtain ⟨hround, hfair⟩ := tick_fair
  refine ⟨ex₀, (ex₀.tick polls).2, polls, (ex₀.tick polls).1.1, _, hq, rfl, hround ex₀ hq polls,
    by decide, by decide, by decide, rfl, by decide, ?_⟩
  exact hfair ex₀ ex₀ (ex₀.tick polls).2 _ [] [(.tick polls, _)] polls _ hq .nil rfl
    (.cons rfl .nil) [] 1 [2] [2] [] (by decide) (by decide)

/-! ### Ticks in parts -/

theorem tickLoop_append (polls : ℕ → TaskPoll) (xs ys : List TaskId) (ex : Executor) :
    tickLoop polls (xs ++ ys) ex =
      ((tickLoop polls xs ex).1 ++
        (tickLoop (fun n => polls (n + (tickLoop polls xs ex).1.length)) ys
          (tickLoop polls xs ex).2).1,
        (tickLoop (fun n => polls (n + (tickLoop polls xs ex).1.length)) ys
          (tickLoop polls xs ex).2).2) := by
  induction xs generalizing polls ex with
  | nil => rfl
  | cons x xs ih =>
    rw [List.cons_append, tickLoop, tickLoop]
    split_ifs with hlive
    · simp only [ih]
      rfl
    · exact ih polls ex

/-- The polls that are not made do not matter. -/
theorem tickLoop_congr {polls polls' : ℕ → TaskPoll} {xs : List TaskId} {ex : Executor}
    (hp : ∀ n < (tickLoop polls xs ex).1.length, polls' n = polls n) :
    tickLoop polls' xs ex = tickLoop polls xs ex := by
  induction xs generalizing polls polls' ex with
  | nil => rfl
  | cons x xs ih =>
    rw [tickLoop] at hp
    rw [tickLoop, tickLoop]
    split_ifs at hp ⊢ with hlive
    · simp only [List.length_cons] at hp
      have hzero : polls' 0 = polls 0 := hp 0 (Nat.succ_pos _)
      rw [hzero, ih fun n hn => hp (n + 1) (Nat.succ_lt_succ hn)]
    · exact ih hp

/-- The loop goes on with the poll `p` of the next task. -/
theorem exists_tickLoop_concat {polls : ℕ → TaskPoll} {xs : List TaskId} {ex ex' : Executor}
    {log : Log} {x : TaskId} (hloop : tickLoop polls xs ex = (log, ex')) (hx : x ∈ ex'.tasks)
    (p : TaskPoll) :
    ∃ polls', tickLoop polls' (xs ++ [x]) ex = (log ++ [(x, p)], ex'.poll x p) := by
  let polls' : ℕ → TaskPoll := fun n => if n < log.length then polls n else p
  have hsame : tickLoop polls' xs ex = (log, ex') := by
    rw [← hloop]
    refine tickLoop_congr fun n hn => ?_
    rw [hloop] at hn
    exact if_pos hn
  have hlast : polls' (0 + log.length) = p := if_neg (by omega)
  refine ⟨polls', ?_⟩
  rw [tickLoop_append, hsame]
  simp only [tickLoop, if_pos hx, hlast]

theorem tickLoop_concat_of_notMem {polls : ℕ → TaskPoll} {xs : List TaskId} {ex ex' : Executor}
    {log : Log} {x : TaskId} (hloop : tickLoop polls xs ex = (log, ex')) (hx : x ∉ ex'.tasks) :
    tickLoop polls (xs ++ [x]) ex = (log, ex') := by
  rw [tickLoop_append, hloop]
  simp only [tickLoop, if_neg hx, List.append_nil]

end Executor

/-! ### The ticks of `block_on` -/

/-- The tasks that a waker wakes. -/
def Waker.targets : Waker → List TaskId
  | .task x => [x]
  | .flag _ => []
  | .other xs => xs

namespace Runtime

variable {Q : MaxHeap cmp} {V : Type} {rt rt' rt'' : Runtime Q V} {x y r : TaskId}
  {xs ys : List TaskId}

/-- The `Executor` in the runtime. -/
def executor (rt : Runtime Q V) : Executor := ⟨rt.tasks, rt.ready⟩

/-- As far as the executor sees it, the tasks `xs` have been woken and nothing else was done. -/
structure Woke (rt : Runtime Q V) (xs : List TaskId) (rt' : Runtime Q V) : Prop where
  executor : rt'.executor = rt.executor.wakeAll xs
  wakes : ∀ y, (rt'.hist y).wakes = (rt.hist y).wakes + xs.count y
  polls : ∀ y, (rt'.hist y).polls = (rt.hist y).polls

namespace Woke

protected theorem refl (rt : Runtime Q V) : Woke rt [] rt := ⟨rfl, fun _ => rfl, fun _ => rfl⟩

theorem trans (h : Woke rt xs rt') (h' : Woke rt' ys rt'') : Woke rt (xs ++ ys) rt'' where
  executor := by rw [h'.executor, h.executor, Executor.wakeAll_append]
  wakes y := by rw [h'.wakes, h.wakes, List.count_append, Nat.add_assoc]
  polls y := (h'.polls y).trans (h.polls y)

theorem wakeTask (rt : Runtime Q V) (x : TaskId) : Woke rt [x] (rt.wakeTask x) := by
  refine ⟨rfl, fun y => ?_, fun y => proj_modifyHist TaskHist.polls rfl y⟩
  rcases eq_or_ne y x with rfl | hne
  · rw [List.count_singleton_self]
    exact congrArg TaskHist.wakes (hist_modifyHist_self { rt with ready := _ } y _)
  · rw [hist_wakeTask_of_ne hne, List.count_singleton, if_neg (by simpa using hne.symm)]
    rfl

theorem wake (rt : Runtime Q V) (w : Waker) : Woke rt w.targets (rt.wake w) := by
  cases w with
  | task x => exact wakeTask rt x
  | flag r => exact ⟨rfl, fun _ => rfl, fun _ => rfl⟩
  | other xs =>
    show Woke rt xs (xs.foldl Runtime.wakeTask rt)
    induction xs generalizing rt with
    | nil => exact Woke.refl rt
    | cons x xs ih => exact (wakeTask rt x).trans (ih (rt.wakeTask x))

/-- What user code does wakes tasks, or does not concern the executor. -/
theorem exists_of_act {a : Act} (ha : rt.ActStep a rt') : ∃ xs, Woke rt xs rt' := by
  cases ha with
  | @wake w hw => exact ⟨_, wake rt w⟩
  | @joinReady x w v hx hroot hv =>
    exact ⟨[], rfl, fun y => proj_modifyHist TaskHist.wakes rfl y,
      fun y => proj_modifyHist TaskHist.polls rfl y⟩
  | joinPending hx hroot hw => exact ⟨[], rfl, fun _ => rfl, fun _ => rfl⟩
  | sleep => exact ⟨[], rfl, fun _ => rfl, fun _ => rfl⟩
  | pollSleep hw => exact ⟨[], rfl, fun _ => rfl, fun _ => rfl⟩

theorem exists_of_acts {as : List Act} (ha : rt.acts as = some rt') : ∃ xs, Woke rt xs rt' := by
  refine acts_rule (P := fun rt' => ∃ xs, Woke rt xs rt') ⟨[], Woke.refl rt⟩ ?_ ha
  rintro rt₁ a rt₂ - ⟨xs, h₁⟩ hact
  obtain ⟨ys, h₂⟩ := exists_of_act hact
  exact ⟨xs ++ ys, h₁.trans h₂⟩

end Woke

/-- As far as the executor sees it, the task `x` has been polled, and the poll was `p`. -/
structure PolledAs (rt : Runtime Q V) (x : TaskId) (p : TaskPoll) (rt' : Runtime Q V) : Prop where
  executor : rt'.executor = rt.executor.poll x p
  wakes : ∀ y, (rt'.hist y).wakes = (rt.hist y).wakes + p.woken.count y
  polls : ∀ y, (rt'.hist y).polls = (rt.hist y).polls + [x].count y

theorem polls_beginPoll (rt : Runtime Q V) (x y : TaskId) :
    ((rt.beginPoll x).hist y).polls = (rt.hist y).polls + [x].count y := by
  rcases eq_or_ne y x with rfl | hne
  · rw [beginPoll, hist_modifyHist_self, List.count_singleton_self]
  · rw [hist_beginPoll_of_ne hne, List.count_singleton, if_neg (by simpa using hne.symm)]
    rfl

/-- The end of a task is seen as its removal and a wake-up. -/
theorem exists_woke_complete (rt : Runtime Q V) (x : TaskId) (v : V) :
    ∃ xs, Woke (rt.store x v) xs (rt.complete x v) := by
  unfold complete
  split
  · exact ⟨_, Woke.wake _ _⟩
  · exact ⟨[], Woke.refl _⟩

theorem exists_polledAs {as drops : List Act} {res : PollResult V}
    (hp : rt.pollTask x as res drops = some rt') :
    ∃ p : TaskPoll, (p.ready = true ↔ ∃ v, res = .ready v) ∧ PolledAs rt x p rt' := by
  rw [pollTask] at hp
  split at hp
  · cases hp
  · rename_i mid hacts
    obtain ⟨xs, hmid⟩ := Woke.exists_of_acts hacts
    -- the history of the results is not seen
    have hend : ∀ res, Woke (rt.beginPoll x) xs (mid.endPoll x res) := fun res =>
      ⟨hmid.executor, fun y => (proj_modifyHist TaskHist.wakes rfl y).trans (hmid.wakes y),
        fun y => (proj_modifyHist TaskHist.polls rfl y).trans (hmid.polls y)⟩
    have hpending : ∀ res, PolledAs rt x ⟨xs, false, []⟩ (mid.endPoll x res) := by
      intro res
      refine ⟨(hend res).executor, fun y => ?_, fun y => ?_⟩
      · rw [(hend res).wakes]
        exact congrArg (· + xs.count y) (proj_modifyHist TaskHist.wakes rfl y)
      · rw [(hend res).polls, polls_beginPoll]
    cases res with
    | ready v =>
      obtain ⟨ys, hcomplete⟩ := exists_woke_complete (mid.endPoll x (.ready v)) x v
      obtain ⟨zs, hdrops⟩ := Woke.exists_of_acts hp
      have hlast := hcomplete.trans hdrops
      refine ⟨⟨xs, true, ys ++ zs⟩, by simp, ?_, fun y => ?_, fun y => ?_⟩
      · rw [hlast.executor]
        have hexec : (mid.endPoll x (.ready v)).executor = rt.executor.wakeAll xs :=
          (hend (.ready v)).executor
        have hstored : ((mid.endPoll x (.ready v)).store x v).executor =
            { rt.executor.wakeAll xs with tasks := (rt.executor.wakeAll xs).tasks.erase x } := by
          rw [← hexec]
          rfl
        exact congrArg (Executor.wakeAll · (ys ++ zs)) hstored
      · rw [hlast.wakes]
        show ((mid.endPoll x (.ready v)).hist y).wakes + _ = _
        rw [(hpending (.ready v)).wakes, Nat.add_assoc]
        exact congrArg (_ + ·) List.count_append.symm
      · rw [hlast.polls]
        exact (hpending (.ready v)).polls y
    | pending =>
      cases hp
      exact ⟨⟨xs, false, []⟩, by simp, hpending .pending⟩
    | panicked =>
      cases hp
      exact ⟨⟨xs, false, []⟩, by simp, hpending .panicked⟩

/-- The position is in the loop of `tick`. -/
def InLoop (s : State Q V) : Prop := ∃ r rest, s.pc = .poll r rest

/-- What the loop of `tick` has done so far in `block_on`, if it began with the ids `ready`. -/
structure TickPart (rt : Runtime Q V) (ready rest : List TaskId) (log : Executor.Log)
    (rt' : Runtime Q V) : Prop where
  loop : ∃ done polls, ready = done ++ rest ∧
    Executor.tickLoop polls done rt.executor = (log, rt'.executor)
  wakes : ∀ y, (rt'.hist y).wakes = (rt.hist y).wakes + (Executor.woken log).count y
  polls : ∀ y, (rt'.hist y).polls = (rt.hist y).polls + (log.map Prod.fst).count y

/-- A step of the loop polls the next task, or leaves it out. -/
theorem TickPart.step {ready rest : List TaskId} {log : Executor.Log} {c : Choice V} {s : State Q V}
    (h : TickPart rt ready rest log rt') (hs : rt'.Step (.poll r rest) c s) :
    (∃ rest' log', s.pc = .poll r rest' ∧ TickPart rt ready rest' log' s.rt) ∨ ¬ InLoop s := by
  cases hs with
  | pollNone => exact Or.inr fun ⟨_, _, hpc⟩ => by cases hpc
  | @pollSkip _ x rest hx =>
    obtain ⟨done, polls, hready, hloop⟩ := h.loop
    refine Or.inl ⟨rest, log, rfl, ⟨done ++ [x], polls, ?_, ?_⟩, h.wakes, h.polls⟩
    · rw [hready, List.append_assoc]
      rfl
    · exact Executor.tickLoop_concat_of_notMem hloop hx
  | @poll _ x rest as res drops rt₁ hx hp =>
    obtain ⟨p, -, hpoll⟩ := exists_polledAs hp
    obtain ⟨done, polls, hready, hloop⟩ := h.loop
    obtain ⟨polls', hloop'⟩ := Executor.exists_tickLoop_concat hloop hx p
    have hpart : TickPart rt ready rest (log ++ [(x, p)]) rt₁ := by
      refine ⟨⟨done ++ [x], polls', ?_, ?_⟩, fun y => ?_, fun y => ?_⟩
      · rw [hready, List.append_assoc]
        rfl
      · rw [hloop', hpoll.executor]
      · rw [hpoll.wakes, h.wakes, Executor.woken_concat, List.count_append, Nat.add_assoc]
      · rw [hpoll.polls, h.polls, List.map_append, List.count_append, Nat.add_assoc]
        rfl
    cases res with
    | panicked => exact Or.inr fun ⟨_, _, hpc⟩ => by cases hpc
    | ready v => exact Or.inl ⟨rest, _, rfl, hpart⟩
    | pending => exact Or.inl ⟨rest, _, rfl, hpart⟩

/-- **The ticks of `block_on` are calls of `tick`.** From the drain of a queue that is not empty to
the end of the loop, `block_on` does to the executor what `tick` does with some polls; the polls and
the wake-ups that the history has counted are those of the call. -/
theorem exists_tick_of_run {h : List (Op V × Unit)} {t : ℕ} (hne : rt.ready.queue ≠ [])
    (hr : Run (restrict (fun s _ => InLoop s) (State.system Q V))
      ⟨{ rt with clock := t, ready := rt.ready.drain.2 }, .poll r rt.ready.drain.1⟩ h
      ⟨rt', .poll r []⟩) :
    ∃ polls log, rt.executor.tick polls = ((log, true), rt'.executor) ∧
      (∀ y, (rt'.hist y).wakes = (rt.hist y).wakes + (Executor.woken log).count y) ∧
      ∀ y, (rt'.hist y).polls = (rt.hist y).polls + (log.map Prod.fst).count y := by
  let rt₀ : Runtime Q V := { rt with clock := t, ready := rt.ready.drain.2 }
  have hpart : (∃ rest log, Pc.poll r [] = .poll r rest ∧
      TickPart rt₀ rt.ready.drain.1 rest log rt') ∨ ¬ InLoop (⟨rt', .poll r []⟩ : State Q V) := by
    refine hr.invariant (I := fun _ s => (∃ rest log, s.pc = .poll r rest ∧
      TickPart rt₀ rt.ready.drain.1 rest log s.rt) ∨ ¬ InLoop s) ?_ ?_
    · exact Or.inl ⟨_, [], rfl, ⟨[], fun _ => ⟨[], false, []⟩, rfl, rfl⟩, fun _ => rfl,
        fun _ => rfl⟩
    · rintro _ ⟨rt₁, pc⟩ o _ s' - (⟨rest, log, rfl, h₁⟩ | hout) ⟨hin, hs⟩
      · obtain ⟨-, hstep⟩ := State.of_step hs
        have hclock : TickPart rt₀ rt.ready.drain.1 rest log { rt₁ with clock := o.time } :=
          ⟨h₁.loop, h₁.wakes, h₁.polls⟩
        exact hclock.step hstep
      · exact absurd hin hout
  obtain ⟨rest, log, hpc, h₁⟩ := hpart.resolve_right fun hout => hout ⟨r, [], rfl⟩
  cases hpc
  obtain ⟨done, polls, hready, hloop⟩ := h₁.loop
  rw [List.append_nil] at hready
  refine ⟨polls, log, ?_, h₁.wakes, h₁.polls⟩
  have hnot : rt.ready.queue.isEmpty = false := List.isEmpty_eq_false_iff.mpr hne
  rw [← hready] at hloop
  have hloop' : Executor.tickLoop polls rt.ready.queue ⟨rt.tasks, rt.ready.drain.2⟩ =
      (log, rt'.executor) := hloop
  rw [ReadyQueue.drain] at hloop'
  simp only [Executor.tick, executor, ReadyQueue.drain, hnot, Bool.false_eq_true, if_false]
  rw [hloop', executor]

end Runtime

end MiniAsync.SingleThread
