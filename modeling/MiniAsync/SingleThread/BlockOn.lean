/-
  `block_on` of the single-threaded runtime over every run: it returns the value of
  its root and cannot reach its panic (`block_on_returns_root`), and as long as no
  poll panics it never blocks while there is something to poll
  (`block_on_blocks_idle`). After a panic it can (`panic_strands_drained`).

  What a step of `block_on` does is said once (`Runtime.Step`). `BlockOn` is what
  holds of the root while `block_on` runs: the flag is set, or the root is alive and
  its state has the waker of the flag. A finished root therefore has its flag set,
  and behind step 2 the root is alive (`Runtime.Place`), so that there is always a
  task. `Inv.step` adds what holds of the tasks, and `run_inv` is the invariant.
-/
import MiniAsync.SingleThread.Inv

namespace MiniAsync.SingleThread

open MultiThread (PollResult)
open Heap Timer Trace

variable {Q : MaxHeap cmp} {V : Type}

/-- What the tick has still to work through. -/
def Pc.rest : Pc → List TaskId
  | .poll _ rest => rest
  | _ => []

/-- The task that the step polls. -/
def Pc.polled : Pc → Option TaskId
  | .poll _ (x :: _) => some x
  | _ => none

/-- The result of the poll. -/
def Choice.result : Choice V → Option (PollResult V)
  | .poll _ res _ => some res
  | _ => none

namespace Runtime

/-! ### The steps -/

/-- What a step can do. -/
inductive Step (rt : Runtime Q V) : Pc → Choice V → State Q V → Prop
  | user {as rt'} (ha : rt.acts as = some rt') : Step rt .idle (.user as) ⟨rt', .idle⟩
  | spawn : Step rt .idle .spawn ⟨rt.spawn false, .idle⟩
  | blockOn : Step rt .idle .blockOn ⟨rt.blockOn, .tick rt.nextId⟩
  | skipId : Step rt .idle .skipId ⟨{ rt with nextId := rt.nextId + 1 }, .idle⟩
  | tickNone {r} (hq : rt.ready.queue = []) :
    Step rt (.tick r) .go ⟨{ rt with ready := rt.ready.drain.2 }, .checkHandle r⟩
  | tick {r} (hq : rt.ready.queue ≠ []) :
    Step rt (.tick r) .go ⟨{ rt with ready := rt.ready.drain.2 }, .poll r rt.ready.drain.1⟩
  | pollNone {r} : Step rt (.poll r []) .go ⟨rt, .tick r⟩
  | pollSkip {r x rest} (hx : x ∉ rt.tasks) : Step rt (.poll r (x :: rest)) .go ⟨rt, .poll r rest⟩
  | poll {r x rest as res drops rt'} (hx : x ∈ rt.tasks)
    (hp : rt.pollTask x as res drops = some rt') :
    Step rt (.poll r (x :: rest)) (.poll as res drops) ⟨rt', .afterPoll r rest res⟩
  | handle {r} (hf : rt.flag r = true) : Step rt (.checkHandle r) .go
    ({ rt with flag := Function.update rt.flag r false }.pollRoot r (.checkEmpty r))
  | noHandle {r} (hf : rt.flag r = false) : Step rt (.checkHandle r) .go ⟨rt, .checkEmpty r⟩
  | empty {r} (ht : rt.tasks = ∅) : Step rt (.checkEmpty r) .go ⟨rt, .pollEmpty r⟩
  | nonempty {r} (ht : rt.tasks ≠ ∅) : Step rt (.checkEmpty r) .go ⟨rt, .process r⟩
  | pollEmpty {r} : Step rt (.pollEmpty r) .go (rt.pollRoot r (.process r))
  | process {r} : Step rt (.process r) .go ⟨rt.process.2, .checkReady r rt.process.1⟩
  | noneReady {r timeout} (hq : rt.ready.queue = []) :
    Step rt (.checkReady r timeout) .go ⟨rt, .checkPending r timeout⟩
  | someReady {r timeout} : Step rt (.checkReady r timeout) .go ⟨rt, .tick r⟩
  | finish {r timeout} (ht : rt.tasks = ∅) :
    Step rt (.checkPending r timeout) .go ⟨rt, .finalPoll r⟩
  | block {r timeout timeout'} : Step rt (.checkPending r timeout) .go ⟨rt, .reactorPoll r timeout'⟩
  | reactor {r timeout ws} (hws : ∀ w ∈ ws, rt.Holds w) :
    Step rt (.reactorPoll r timeout) (.reactor ws) ⟨rt.wakeAll ws, .processAgain r⟩
  | processAgain {r} : Step rt (.processAgain r) .go ⟨rt.process.2, .tick r⟩
  | finalPoll {r} : Step rt (.finalPoll r) .go (rt.pollRoot r .panicked)
  | caught : Step rt .unwound .caught ⟨rt, .idle⟩

variable {rt rt' : Runtime Q V} {rest lost : List TaskId} {x y r : TaskId} {pc : Pc} {c : Choice V}
  {s : State Q V}

theorem Step.of_step (h : rt.step pc c = some s) : rt.Step pc c s := by
  unfold Runtime.step at h
  split at h
  · split at h
    · cases h
    · cases h
      exact .user ‹_›
  · cases h
    exact .spawn
  · cases h
    exact .blockOn
  · cases h
    exact .skipId
  · cases h
    split_ifs with hq
    · exact .tickNone hq
    · exact .tick hq
  · cases h
    exact .pollNone
  · split_ifs at h with hx
    cases h
    exact .pollSkip hx
  · split_ifs at h with hx
    split at h
    · cases h
    · cases h
      exact .poll hx ‹_›
  · split_ifs at h with hf
    · cases h
      exact .handle hf
    · cases h
      exact .noHandle (Bool.eq_false_iff.mpr hf)
  · cases h
    split_ifs with ht
    · exact .empty ht
    · exact .nonempty ht
  · cases h
    exact .pollEmpty
  · cases h
    exact .process
  · cases h
    split_ifs with hq
    · exact .noneReady (List.isEmpty_iff.mp hq)
    · exact .someReady
  · cases h
    split_ifs with hp ht
    · exact .block
    · exact .finish ht
    · exact .block
  · split_ifs at h with hws
    cases h
    exact .reactor hws
  · cases h
    exact .processAgain
  · cases h
    exact .finalPoll
  · cases h
    exact .caught
  · cases h

/-! ### The root -/

/-- The root of a running `block_on`. -/
structure BlockOn (rt : Runtime Q V) (r : TaskId) : Prop where
  spawned : rt.Spawned r
  root : (rt.hist r).root = true
  yielded : (rt.hist r).yielded = []
  armed : rt.flag r = true ∨ r ∈ rt.tasks ∧ (rt.state r).waker = some (.flag r)

theorem BlockOn.congr (h : rt.BlockOn r) (hspawned : (rt'.hist r).spawned = (rt.hist r).spawned)
    (hroot : (rt'.hist r).root = (rt.hist r).root)
    (hyielded : (rt'.hist r).yielded = (rt.hist r).yielded) (hstate : rt'.state r = rt.state r)
    (hflag : rt.flag r = true → rt'.flag r = true) (htasks : r ∈ rt.tasks → r ∈ rt'.tasks) :
    rt'.BlockOn r where
  spawned := hspawned.trans h.spawned
  root := hroot.trans h.root
  yielded := hyielded.trans h.yielded
  armed := by
    rw [hstate]
    exact h.armed.imp hflag (And.imp_left htasks)

theorem BlockOn.frame (h : rt.BlockOn r) (hf : Frame rt rt') : rt'.BlockOn r :=
  h.congr (hf.spawned r) (hf.root r) (hf.yielded r h.root) (hf.state r h.root) (hf.flag r)
    fun ht => hf.tasks ▸ ht

theorem BlockOn.beginPoll (h : rt.BlockOn r) (x : TaskId) : (rt.beginPoll x).BlockOn r :=
  h.congr (proj_modifyHist _ rfl r) (proj_modifyHist _ rfl r) (proj_modifyHist _ rfl r) rfl id id

theorem BlockOn.endPoll (h : rt.BlockOn r) (x : TaskId) (res : PollResult V) :
    (rt.endPoll x res).BlockOn r :=
  h.congr (proj_modifyHist _ rfl r) (proj_modifyHist _ rfl r) (proj_modifyHist _ rfl r) rfl id id

theorem complete_of_some {w : Waker} (hw : (rt.state x).waker = some w) (v : V) :
    rt.complete x v = (rt.store x v).wake w := by
  unfold Runtime.complete
  rw [hw]

/-- A completed root has set its flag. -/
theorem BlockOn.complete (h : rt.BlockOn r) (hok : rt.Ok rest) (hx : x ∈ rt.tasks) (v : V) :
    ((rt.endPoll x (.ready v)).complete x v).BlockOn r := by
  obtain ⟨hf, -⟩ := hok.complete hx v
  have he := h.endPoll x (.ready v)
  rcases eq_or_ne r x with rfl | hne
  · -- the completion calls the waker of the flag, unless the flag was set
    refine ⟨hf.spawned_iff.mpr he.spawned, (hf.root r).trans he.root,
      (hf.yielded r he.root).trans he.yielded, Or.inl ?_⟩
    rcases he.armed with hflag | ⟨-, hw⟩
    · exact hf.flag r hflag
    · rw [complete_of_some hw]
      exact Function.update_self _ _ _
  · have hst : ((rt.endPoll x (.ready v)).store x v).BlockOn r :=
      he.congr rfl rfl rfl (state_setState_of_ne hne _) id (Finset.mem_erase_of_ne_of_mem hne)
    exact hst.frame hf

/-- A stored result has set the flag. -/
theorem BlockOn.flag_of_result (h : rt.BlockOn r) (hok : rt.Ok rest)
    (hres : (rt.state r).result.isSome = true) : rt.flag r = true := by
  rcases h.armed with hflag | ⟨ht, -⟩
  · exact hflag
  · rw [((hok.task r h.spawned).unfinished ht).2.1] at hres
    cases hres

/-- A root without a result is alive. -/
theorem BlockOn.mem_tasks (h : rt.BlockOn r) (hok : rt.Ok rest)
    (hres : (rt.state r).result = none) : r ∈ rt.tasks := by
  by_contra hdead
  obtain ⟨v, -, ⟨hsome, -⟩ | ⟨-, hone⟩⟩ := (hok.task r h.spawned).finished hdead
  · rw [hres] at hsome
    cases hsome
  · rw [h.yielded] at hone
    cases hone

/-! ### A poll of the root's handle -/

theorem pollRoot_of_some {v : V} (hv : (rt.state r).result = some v) (pc : Pc) :
    rt.pollRoot r pc =
      ⟨(rt.takeResult r v).modifyHist r fun h => { h with returned := some v }, .idle⟩ := by
  unfold Runtime.pollRoot Runtime.pollHandle
  rw [hv]

theorem pollRoot_returns {v : V} (hv : (rt.state r).result = some v) (pc : Pc) :
    (rt.pollRoot r pc).pc = .idle ∧ ((rt.pollRoot r pc).rt.hist r).returned = some v := by
  rw [pollRoot_of_some hv]
  refine ⟨rfl, ?_⟩
  rw [hist_modifyHist_self]

theorem pollRoot_of_none (hv : (rt.state r).result = none) (pc : Pc) :
    rt.pollRoot r pc = ⟨rt.setWaker r (.flag r), pc⟩ := by
  unfold Runtime.pollRoot Runtime.pollHandle
  rw [hv]

theorem Ok.setReturned (h : rt.Ok rest) (hr : rt.Spawned r) {v : V}
    (hv : v ∈ (rt.hist r).yielded) :
    (rt.modifyHist r fun h => { h with returned := some v }).Ok rest := by
  have hhist := hist_modifyHist_self rt r fun h => { h with returned := some v }
  refine h.change hr ?_ rfl h.synced (fun y hne => ?_) ?_ (h.stored r) rfl
  · exact (congrArg TaskHist.spawned hhist).trans hr
  · exact ⟨Iff.rfl, rfl, rfl, hist_modifyHist_of_ne hne _⟩
  · rw [hhist]
    have ht := h.task r hr
    refine ⟨ht.unfinished, ht.finished, ht.scheduled, ht.budget, ?_⟩
    rintro _ ⟨⟩
    exact hv

theorem Ok.pollRoot (h : rt.Ok lost) (hr : rt.Spawned r) (pc : Pc) (hpc : pc.rest = []) :
    (rt.pollRoot r pc).rt.Ok ((rt.pollRoot r pc).pc.rest ++ lost) := by
  cases hv : (rt.state r).result with
  | some v =>
    rw [pollRoot_of_some hv]
    have hhist := hist_modifyHist_self (rt.setState r ⟨none, (rt.state r).waker⟩) r
      fun h => { h with yielded := h.yielded ++ [v] }
    refine (h.takeResult hr hv).setReturned ((congrArg TaskHist.spawned hhist).trans hr) ?_
    exact (congrArg TaskHist.yielded hhist) ▸ List.mem_append_right _ (List.mem_singleton_self v)
  | none =>
    rw [pollRoot_of_none hv, hpc]
    exact h.setWaker hr trivial

/-! ### The polls and their results -/

/-- How often the task was polled, with the results. -/
def record (rt : Runtime Q V) (x : TaskId) : ℕ × List (PollResult V) :=
  ((rt.hist x).polls, (rt.hist x).results)

theorem Frame.record (hf : Frame rt rt') (x : TaskId) : rt'.record x = rt.record x :=
  Prod.ext (hf.polls x) (hf.results x)

/-- What a poll of the root's handle does not change. -/
theorem proj_pollRoot {α : Type} (p : TaskHist V → α) (hy : ∀ h l, p { h with yielded := l } = p h)
    (hr : ∀ h v, p { h with returned := v } = p h) (rt : Runtime Q V) (r : TaskId) (pc : Pc)
    (x : TaskId) : p ((rt.pollRoot r pc).rt.hist x) = p (rt.hist x) := by
  cases hv : (rt.state r).result with
  | some v =>
    have htake : p ((rt.takeResult r v).hist x) = p (rt.hist x) := by
      rw [takeResult, proj_modifyHist p (hy _ _)]
      rfl
    rw [pollRoot_of_some hv, ← htake]
    exact proj_modifyHist (f := fun h => { h with returned := some v }) p (hr _ _) x
  | none =>
    rw [pollRoot_of_none hv]
    rfl

theorem record_pollRoot (rt : Runtime Q V) (r : TaskId) (pc : Pc) (x : TaskId) :
    (rt.pollRoot r pc).rt.record x = rt.record x :=
  proj_pollRoot (fun h => (h.polls, h.results)) (fun _ _ => rfl) (fun _ _ => rfl) rt r pc x

theorem record_spawn (hok : rt.Ok rest) (root : Bool) (x : TaskId) :
    (rt.spawn root).record x = rt.record x ∨
      ¬ rt.Spawned x ∧ (rt.spawn root).record x = (0, []) := by
  rcases eq_or_ne x rt.nextId with rfl | hne
  · have hhist : (rt.spawn root).hist rt.nextId = TaskHist.new root V := Function.update_self _ _ _
    rw [record, hhist]
    exact Or.inr ⟨fun hs => Nat.lt_irrefl _ (hok.given _ hs), rfl⟩
  · have hhist : (rt.spawn root).hist x = rt.hist x := Function.update_of_ne hne _ _
    rw [record, hhist]
    exact Or.inl rfl

/-- A poll begins and ends once. -/
theorem record_endPoll_self {mid : Runtime Q V} (hf : Frame (rt.beginPoll x) mid)
    (res : PollResult V) :
    (mid.endPoll x res).record x = ((rt.hist x).polls + 1, (rt.hist x).results ++ [res]) := by
  have hbegin : (rt.beginPoll x).record x = ((rt.hist x).polls + 1, (rt.hist x).results) := by
    rw [record, beginPoll, hist_modifyHist_self]
  obtain ⟨hpolls, hresults⟩ := Prod.ext_iff.mp ((hf.record x).trans hbegin)
  rw [record, hist_endPoll_self]
  exact Prod.ext hpolls (congrArg (· ++ [res]) hresults)

theorem record_endPoll_of_ne {mid : Runtime Q V} (hf : Frame (rt.beginPoll x) mid)
    (res : PollResult V) (hne : y ≠ x) : (mid.endPoll x res).record y = rt.record y := by
  have hbegin : (rt.beginPoll x).record y = rt.record y := by
    rw [record, hist_beginPoll_of_ne hne, record]
  rw [record, hist_endPoll_of_ne hne]
  exact (hf.record y).trans hbegin

theorem record_pollTask (hok : rt.Ok (x :: rest)) (hx : x ∈ rt.tasks) {as drops : List Act}
    {res : PollResult V} (hp : rt.pollTask x as res drops = some rt') (y : TaskId) :
    ∃ mid, Frame (rt.beginPoll x) mid ∧ rt'.record y = (mid.endPoll x res).record y := by
  obtain ⟨-, mid, hf, hmid, ⟨v, rfl, hdrops⟩ | ⟨-, rfl⟩⟩ := hok.pollTask hx hp
  · refine ⟨mid, hf, (hdrops.record y).trans ?_⟩
    exact (hmid.complete (hf.tasks ▸ hx) v).1.record y
  · exact ⟨mid, hf, rfl⟩

/-- **What a step adds to the record of a task**: nothing, or the step spawns the task, or it polls
it. -/
theorem Step.record (hs : rt.Step pc c s) (hok : rt.Ok (pc.rest ++ lost)) (x : TaskId) :
    s.rt.record x = rt.record x ∨ (¬ rt.Spawned x ∧ s.rt.record x = (0, [])) ∨
      ∃ res ∈ c.result, x ∈ pc.polled ∧
        s.rt.record x = ((rt.hist x).polls + 1, (rt.hist x).results ++ [res]) := by
  cases hs with
  | user ha => exact Or.inl ((hok.acts ha).1.record x)
  | spawn => exact (record_spawn hok false x).imp_right Or.inl
  | blockOn => exact (record_spawn hok true x).imp_right Or.inl
  | @poll r y rest as res drops rt' hy hp =>
    obtain ⟨mid, hf, hrec⟩ := record_pollTask hok hy hp x
    rcases eq_or_ne x y with rfl | hne
    · exact Or.inr (Or.inr ⟨res, rfl, rfl, hrec.trans (record_endPoll_self hf res)⟩)
    · exact Or.inl (hrec.trans (record_endPoll_of_ne hf res hne))
  | handle hf => exact Or.inl (record_pollRoot _ _ _ x)
  | pollEmpty | finalPoll => exact Or.inl (record_pollRoot _ _ _ x)
  | process | processAgain => exact Or.inl (hok.process.1.record x)
  | reactor hws => exact Or.inl ((hok.wakeAll fun w hw => (hws w hw).known).1.record x)
  | _ => exact Or.inl rfl

/-- Every poll that has begun has a result. -/
def Counted (rt : Runtime Q V) : Prop := ∀ x, (rt.hist x).polls = (rt.hist x).results.length

theorem Counted.step (h : rt.Counted) (hs : rt.Step pc c s) (hok : rt.Ok (pc.rest ++ lost)) :
    s.rt.Counted := by
  intro x
  have hx : (rt.hist x).polls = (rt.hist x).results.length := h x
  show (s.rt.record x).1 = (s.rt.record x).2.length
  rcases hs.record hok x with hrec | ⟨-, hrec⟩ | ⟨res, -, -, hrec⟩ <;> rw [hrec]
  · exact hx
  · rfl
  · rw [List.length_append, ← hx]
    rfl

/-- No poll has panicked. -/
def NoPanic (rt : Runtime Q V) : Prop := ∀ x, .panicked ∉ (rt.hist x).results

/-- A result stays. -/
theorem Ok.results_step (h : rt.Ok (pc.rest ++ lost)) (hs : rt.Step pc c s) {res : PollResult V}
    (hres : res ∈ (rt.hist x).results) : res ∈ (s.rt.hist x).results := by
  show res ∈ (s.rt.record x).2
  rcases hs.record h x with hrec | ⟨hfresh, -⟩ | ⟨res', -, -, hrec⟩
  · rw [hrec]
    exact hres
  · rw [(h.other x hfresh).2.2] at hres
    cases hres
  · rw [hrec]
    exact List.mem_append_left _ hres

theorem NoPanic.of_step (h : s.rt.NoPanic) (hs : rt.Step pc c s) (hok : rt.Ok (pc.rest ++ lost)) :
    rt.NoPanic :=
  fun x hx => h x (hok.results_step hs hx)

theorem not_noPanic_of_pollTask (hok : rt.Ok (x :: rest)) (hx : x ∈ rt.tasks) {as drops : List Act}
    (hp : rt.pollTask x as .panicked drops = some rt') : ¬ rt'.NoPanic := by
  intro hno
  obtain ⟨mid, hf, hrec⟩ := record_pollTask hok hx hp x
  have hresults : (rt'.hist x).results = (rt.hist x).results ++ [.panicked] :=
    (Prod.ext_iff.mp (hrec.trans (record_endPoll_self hf .panicked))).2
  refine hno x ?_
  rw [hresults]
  exact List.mem_append_right _ (List.mem_singleton_self _)

/-! ### Positions -/

/-- What holds at each position of `block_on`. -/
def Place (rt : Runtime Q V) : Pc → Prop
  | .idle => True
  | .tick r => rt.BlockOn r
  | .poll r _ => rt.BlockOn r
  | .checkHandle r => rt.BlockOn r
  | .checkEmpty r => rt.BlockOn r ∧ r ∈ rt.tasks
  | .pollEmpty _ => False
  | .process r => rt.BlockOn r ∧ r ∈ rt.tasks
  | .checkReady r _ => rt.BlockOn r ∧ r ∈ rt.tasks
  | .checkPending r _ => rt.BlockOn r ∧ r ∈ rt.tasks ∧ rt.ready.queue = []
  | .reactorPoll r _ => rt.BlockOn r ∧ r ∈ rt.tasks ∧ rt.ready.queue = []
  | .processAgain r => rt.BlockOn r ∧ r ∈ rt.tasks
  | .finalPoll _ => False
  | .panicked => False
  | .unwound => True

theorem Place.clock (h : rt.Place pc) (clock : ℕ) : { rt with clock := clock }.Place pc := by
  have hroot : ∀ {r}, rt.BlockOn r → { rt with clock := clock }.BlockOn r :=
    fun h => h.congr rfl rfl rfl rfl id id
  cases pc with
  | tick r => exact hroot h
  | poll r rest => exact hroot h
  | checkHandle r => exact hroot h
  | checkEmpty r => exact h.imp_left hroot
  | process r => exact h.imp_left hroot
  | checkReady r timeout => exact h.imp_left hroot
  | checkPending r timeout => exact h.imp_left hroot
  | reactorPoll r timeout => exact h.imp_left hroot
  | processAgain r => exact h.imp_left hroot
  | idle | unwound => trivial
  | pollEmpty r | finalPoll r | panicked => exact h

theorem BlockOn.place_afterPoll (h : rt.BlockOn r) (rest : List TaskId) (res : PollResult V) :
    rt.Place (.afterPoll r rest res) := by
  cases res with
  | panicked => trivial
  | ready v => exact h
  | pending => exact h

/-- Step 2. -/
theorem BlockOn.place_pollRoot (h : rt.BlockOn r) (hok : rt.Ok rest) :
    ({ rt with flag := Function.update rt.flag r false }.pollRoot r (.checkEmpty r)).rt.Place
      ({ rt with flag := Function.update rt.flag r false }.pollRoot r (.checkEmpty r)).pc := by
  cases hv : (rt.state r).result with
  | some v =>
    rw [pollRoot_of_some (by exact hv)]
    trivial
  | none =>
    rw [pollRoot_of_none (by exact hv)]
    have ht := h.mem_tasks hok hv
    refine ⟨⟨h.spawned, h.root, h.yielded, Or.inr ⟨ht, ?_⟩⟩, ht⟩
    exact congrArg TaskState.waker (state_setState_self _ r _)

theorem blockOn_place (rt : Runtime Q V) : rt.blockOn.Place (.tick rt.nextId) := by
  have hhist : (rt.spawn true).hist rt.nextId = TaskHist.new true V := Function.update_self _ _ _
  exact ⟨congrArg TaskHist.spawned hhist, congrArg TaskHist.root hhist,
    congrArg TaskHist.yielded hhist, Or.inl (Function.update_self _ _ _)⟩

end Runtime

theorem State.of_step {s s' : State Q V} {op : Op V} (hs : s.step op = some s') :
    s.rt.clock ≤ op.time ∧ { s.rt with clock := op.time }.Step s.pc op.choice s' := by
  unfold State.step at hs
  split_ifs at hs with hle
  exact ⟨hle, .of_step hs⟩

/-! ### The invariant -/

/-- What holds in every state. Polls that panicked have lost the ids `lost`: they had been drained,
and their tick did not come to them. -/
structure Inv (s : State Q V) : Prop where
  ok : ∃ lost, s.rt.Ok (s.pc.rest ++ lost) ∧ (s.rt.NoPanic → lost = [])
  counted : s.rt.Counted
  place : s.rt.Place s.pc

namespace Inv

variable {rt rt' : Runtime Q V} {s s' : State Q V} {pc pc' : Pc} {r x : TaskId}
  {rest lost : List TaskId} {op : Op V} {c : Choice V}

theorem pollTask {as drops : List Runtime.Act} {res : PollResult V}
    (hroot : rt.BlockOn r) (hok : rt.Ok (x :: (rest ++ lost))) (hx : x ∈ rt.tasks)
    (hp : rt.pollTask x as res drops = some rt') (hlost : rt'.NoPanic → lost = [])
    (hcounted : rt'.Counted) : Inv (⟨rt', .afterPoll r rest res⟩ : State Q V) := by
  obtain ⟨hok', mid, hf, hmid, hend⟩ := hok.pollTask hx hp
  have hx' : x ∈ mid.tasks := hf.tasks ▸ hx
  have hroot' : mid.BlockOn r := (hroot.beginPoll x).frame hf
  have hlists : ∃ lost', rt'.Ok ((Pc.afterPoll r rest res).rest ++ lost') ∧
      (rt'.NoPanic → lost' = []) := by
    cases res with
    | ready v => exact ⟨lost, hok', hlost⟩
    | pending => exact ⟨lost, hok', hlost⟩
    | panicked =>
      exact ⟨rest ++ lost, hok', fun hno => absurd hno (Runtime.not_noPanic_of_pollTask hok hx hp)⟩
  rcases hend with ⟨v, rfl, hdrops⟩ | ⟨-, rfl⟩
  · exact ⟨hlists, hcounted,
      ((hroot'.complete hmid hx' v).frame hdrops).place_afterPoll rest (.ready v)⟩
  · exact ⟨hlists, hcounted, (hroot'.endPoll x res).place_afterPoll _ _⟩

theorem of_ok (hlost : rt.NoPanic → lost = []) (hok : rt.Ok (pc.rest ++ lost))
    (hcounted : rt.Counted) (hplace : rt.Place pc) : Inv (⟨rt, pc⟩ : State Q V) :=
  ⟨⟨lost, hok, hlost⟩, hcounted, hplace⟩

/-- **Every step keeps the invariant.** -/
theorem runtime_step (h : Inv (⟨rt, pc⟩ : State Q V)) (hs : rt.Step pc c s') : Inv s' := by
  obtain ⟨lost, hok, hlost⟩ := h.ok
  have hcounted : s'.rt.Counted := h.counted.step hs hok
  have hlost' : s'.rt.NoPanic → lost = [] := fun hno => hlost (hno.of_step hs hok)
  have hplace : rt.Place pc := h.place
  cases hs with
  | user ha => exact of_ok hlost' (hok.acts ha).2 hcounted trivial
  | spawn => exact of_ok hlost' (hok.spawn false) hcounted trivial
  | blockOn => exact of_ok hlost' ((hok.spawn true).flag _) hcounted rt.blockOn_place
  | skipId => exact of_ok hlost' hok.skipId hcounted trivial
  | tickNone hq =>
    have hd := hok.drain
    rw [ReadyQueue.drain, hq] at hd
    exact of_ok hlost' hd hcounted (hplace.congr rfl rfl rfl rfl id id)
  | tick hq => exact of_ok hlost' hok.drain hcounted (hplace.congr rfl rfl rfl rfl id id)
  | pollNone => exact of_ok hlost' hok hcounted hplace
  | pollSkip hx => exact of_ok hlost' (hok.skip hx) hcounted hplace
  | poll hx hp => exact pollTask hplace hok hx hp hlost' hcounted
  | @handle r hf =>
    have hok' := hok.flag (Function.update rt.flag r false)
    exact of_ok hlost' (hok'.pollRoot hplace.spawned _ rfl) hcounted (hplace.place_pollRoot hok)
  | @noHandle r hf =>
    -- the flag is not set, so the root is alive
    refine of_ok hlost' hok hcounted ⟨hplace, ?_⟩
    rcases hplace.armed with hflag | ⟨ht, -⟩
    · exact absurd (hf.symm.trans hflag) Bool.false_ne_true
    · exact ht
  | empty ht =>
    -- behind step 2 the root itself is a task
    rw [Runtime.Place, ht] at hplace
    exact absurd hplace.2 (Finset.notMem_empty _)
  | nonempty ht => exact of_ok hlost' hok hcounted hplace
  | pollEmpty => exact hplace.elim
  | process =>
    exact of_ok hlost' hok.process.2 hcounted
      ⟨hplace.1.frame hok.process.1, hok.process.1.tasks ▸ hplace.2⟩
  | noneReady hq => exact of_ok hlost' hok hcounted ⟨hplace.1, hplace.2, hq⟩
  | someReady => exact of_ok hlost' hok hcounted hplace.1
  | finish ht =>
    rw [Runtime.Place, ht] at hplace
    exact absurd hplace.2.1 (Finset.notMem_empty _)
  | block => exact of_ok hlost' hok hcounted hplace
  | reactor hws =>
    have hkeep := hok.wakeAll fun w hw => (hws w hw).known
    exact of_ok hlost' hkeep.2 hcounted ⟨hplace.1.frame hkeep.1, hkeep.1.tasks ▸ hplace.2.1⟩
  | processAgain => exact of_ok hlost' hok.process.2 hcounted (hplace.1.frame hok.process.1)
  | finalPoll => exact hplace.elim
  | caught => exact of_ok hlost' hok hcounted trivial

theorem clock (h : Inv s) (clock : ℕ) :
    Inv (⟨{ s.rt with clock := clock }, s.pc⟩ : State Q V) := by
  obtain ⟨lost, hok, hlost⟩ := h.ok
  exact ⟨⟨lost, hok.clock _, hlost⟩, h.counted, h.place.clock _⟩

theorem step (h : Inv s) (hs : s.step op = some s') : Inv s' :=
  (h.clock op.time).runtime_step (State.of_step hs).2

end Inv

theorem run_inv {h : List (Op V × Unit)} {s : State Q V}
    (hr : Run (State.system Q V) (State.new Q V) h s) : Inv s :=
  hr.invariant (I := fun _ s => Inv s) 
    (Inv.of_ok (fun _ => rfl) Runtime.Ok.new (fun _ => rfl) trivial)
    fun _ _ _ _ _ _ hi hs => hi.step hs

/-! ### What `block_on` returns and when it blocks -/

section Runs

variable {h : List (Op V × Unit)} {s : State Q V}

/-- The `yielded` and `returned` values of a task are those of its last poll. -/
theorem Inv.endsWith_of_yielded (hi : Inv s) {x : TaskId} {v : V}
    (hv : v ∈ (s.rt.hist x).yielded) : EndsWith (s.rt.hist x).results v := by
  obtain ⟨lost, hok, -⟩ := hi.ok
  by_cases hs : s.rt.Spawned x
  · have ht := hok.task x hs
    by_cases hl : x ∈ s.rt.tasks
    · rw [(ht.unfinished hl).2.2] at hv
      cases hv
    · obtain ⟨v', hend, ⟨-, hnil⟩ | ⟨-, hone⟩⟩ := ht.finished hl
      · rw [hnil] at hv
        cases hv
      · rw [hone] at hv
        cases List.mem_singleton.mp hv
        exact hend
  · rw [(hok.other x hs).2.2] at hv
    cases hv

theorem Inv.yielded_of_returned (hi : Inv s) {x : TaskId} {v : V}
    (hv : (s.rt.hist x).returned = some v) : v ∈ (s.rt.hist x).yielded := by
  obtain ⟨lost, hok, -⟩ := hi.ok
  by_cases hs : s.rt.Spawned x
  · exact (hok.task x hs).returned v hv
  · rw [(hok.other x hs).2.2] at hv
    cases hv

/-- Step 2 returns the stored result. -/
theorem Inv.step_checkHandle (hi : Inv s) {r : TaskId} (hpc : s.pc = .checkHandle r) {op : Op V}
    {s' : State Q V} (hs : s.step op = some s') :
    match (s.rt.state r).result with
    | some v => s'.pc = .idle ∧ (s'.rt.hist r).returned = some v
    | none => s'.pc = .checkEmpty r := by
  obtain ⟨rt, pc⟩ := s
  obtain ⟨time, choice⟩ := op
  cases hpc
  obtain ⟨lost, hok, -⟩ := hi.ok
  have hflag := hi.place.flag_of_result hok
  obtain ⟨-, hstep⟩ := State.of_step hs
  cases hv : (rt.state r).result with
  | some v =>
    cases hstep with
    | handle hf => exact Runtime.pollRoot_returns (by exact hv) _
    | noHandle hf => exact absurd (hf.symm.trans (hflag (by rw [hv]; rfl))) Bool.false_ne_true
  | none =>
    cases hstep with
    | handle hf => rw [Runtime.pollRoot_of_none (by exact hv)]
    | noHandle hf => rfl

/-- **`block_on` returns the value of its root.** In every run, with any tasks, any behaviour of
their polls and any events: what `block_on` returns is what the root's future returned; at step 2 a
stored result has set the flag, so that the poll behind the flag returns exactly if there is a
result; and neither the branch of step 3 nor the `break` of step 6 nor the panic is reached. -/
theorem block_on_returns_root (hr : Run (State.system Q V) (State.new Q V) h s) :
    (∀ r v, (s.rt.hist r).returned = some v → EndsWith (s.rt.hist r).results v) ∧
    (∀ r, s.pc = .checkHandle r →
      ((s.rt.state r).result.isSome = true → s.rt.flag r = true) ∧
      ∀ op s', s.step op = some s' →
        match (s.rt.state r).result with
        | some v => s'.pc = .idle ∧ (s'.rt.hist r).returned = some v
        | none => s'.pc = .checkEmpty r) ∧
    (∀ r, s.pc ≠ .pollEmpty r) ∧ (∀ r, s.pc ≠ .finalPoll r) ∧ s.pc ≠ .panicked := by
  have hi := run_inv hr
  refine ⟨fun r v hv => hi.endsWith_of_yielded (hi.yielded_of_returned hv), fun r hpc => ⟨?_, ?_⟩,
    fun r hpc => ?_, fun r hpc => ?_, fun hpc => ?_⟩
  · have hroot := hi.place
    obtain ⟨lost, hok, -⟩ := hi.ok
    rw [hpc] at hroot
    exact hroot.flag_of_result hok
  · exact fun op s' hs => hi.step_checkHandle hpc hs
  all_goals
    have hplace := hi.place
    rw [hpc] at hplace
    exact hplace

/-- Two tasks, the root being the second, which finishes at its second poll; `block_on` returns its
value. -/
theorem block_on_returns_root_two_tasks :
    ∃ (h : List (Op ℕ × Unit)) (s : State (sortedList cmp) ℕ),
      Run (State.system (sortedList cmp) ℕ) (State.new (sortedList cmp) ℕ) h s ∧
      (s.rt.hist 2).returned = some 42 ∧ EndsWith (s.rt.hist 2).results 42 := by
  obtain ⟨h, s, hr, hret⟩ := exists_run_of_foldlM
    (f := State.step) (s := State.new (sortedList cmp) ℕ)
    ([.spawn, .blockOn, .go, .poll [.wake (.task 2)] .pending [], .poll [] .pending [], .go, .go,
      .poll [.wake (.task 1)] (.ready 42) [], .go, .go, .poll [] .pending [], .go, .go,
      .go].map (Op.mk 0))
    (fun s => (s.rt.hist 2).returned = some 42) (by decide)
  exact ⟨h, s, hr, hret, (block_on_returns_root hr).1 2 42 hret⟩

/-- No operation of the history is a poll that panics. -/
def PanicFree (h : List (Op V × Unit)) : Prop := ∀ e ∈ h, e.1.choice.result ≠ some .panicked

instance [DecidableEq V] (h : List (Op V × Unit)) : Decidable (PanicFree h) :=
  inferInstanceAs (Decidable (∀ e ∈ h, _))

theorem run_noPanic (hr : Run (State.system Q V) (State.new Q V) h s) (hno : PanicFree h) :
    s.rt.NoPanic := by
  refine hr.invariant (I := fun h s => PanicFree h → s.rt.NoPanic) (fun _ _ => by rintro ⟨⟩) ?_ hno
  intro h s op _ s' hr ih hs hno x hx
  obtain ⟨hbefore, hlast⟩ := List.forall_mem_append.mp hno
  obtain ⟨lost, hok, -⟩ := ((run_inv hr).clock op.time).ok
  have hx : .panicked ∈ (s'.rt.record x).2 := hx
  -- the result was there before, or the step is a poll with this result
  rcases (State.of_step hs).2.record hok x with hrec | ⟨-, hrec⟩ | ⟨res, hres, -, hrec⟩ <;>
    rw [hrec] at hx
  · exact ih hbefore x hx
  · cases hx
  · rcases List.mem_append.mp hx with hx | hx
    · exact ih hbefore x hx
    · rw [← List.mem_singleton.mp hx] at hres
      exact hlast _ (List.mem_singleton_self _) hres

/-- **`block_on` blocks only if there is nothing to poll.** In every run, at every call of
`Reactor::poll`: the ready queue is empty and the root is not finished; and if no poll has panicked
then every task has begun a poll after its latest wake-up. No task is polled more often than once
and once for each of its wake-ups, and none after its future has returned `Ready`. -/
theorem block_on_blocks_idle (hr : Run (State.system Q V) (State.new Q V) h s) :
    (∀ r timeout, s.pc = .reactorPoll r timeout →
      s.rt.ready.isEmpty = true ∧ (r ∈ s.rt.tasks ∧ NoReady (s.rt.hist r).results) ∧
      (PanicFree h →
        ∀ x ∈ s.rt.tasks, 0 < (s.rt.hist x).polls ∧ (s.rt.hist x).seen = (s.rt.hist x).wakes)) ∧
    ∀ x, (s.rt.hist x).polls ≤ 1 + (s.rt.hist x).wakes ∧
      (s.rt.hist x).polls = (s.rt.hist x).results.length ∧
      (NoReady (s.rt.hist x).results ∨ ∃ v, EndsWith (s.rt.hist x).results v) := by
  have hi := run_inv hr
  obtain ⟨lost, hok, hlost⟩ := hi.ok
  refine ⟨fun r timeout hpc => ?_, fun x => ⟨?_, hi.counted x, ?_⟩⟩
  · have hplace := hi.place
    rw [hpc] at hplace
    obtain ⟨hroot, ht, hq⟩ := hplace
    refine ⟨List.isEmpty_iff.mpr hq, ⟨ht, ((hok.task r hroot.spawned).unfinished ht).1⟩, ?_⟩
    intro hno x hx
    -- nothing has been lost, so what is due would be in the queue
    have hzero : s.rt.occurs (s.pc.rest ++ lost) x = 0 := by
      rw [hlost (run_noPanic hr hno), hpc, Runtime.occurs, hq]
      rfl
    have hdue : ¬ ((s.rt.hist x).polls = 0 ∨ (s.rt.hist x).seen ≠ (s.rt.hist x).wakes) :=
      fun hdue => absurd ((hok.task x (hok.spawned hx)).scheduled hx hdue) (by rw [hzero]; decide)
    rw [not_or, not_not] at hdue
    exact ⟨Nat.pos_of_ne_zero hdue.1, hdue.2⟩
  · by_cases hs : s.rt.Spawned x
    · exact (Nat.le_add_right _ _).trans (hok.task x hs).budget
    · rw [(hok.other x hs).2.2]
      exact Nat.zero_le _
  · by_cases hs : s.rt.Spawned x
    · by_cases hl : x ∈ s.rt.tasks
      · exact Or.inl ((hok.task x hs).unfinished hl).1
      · obtain ⟨v, hend, -⟩ := (hok.task x hs).finished hl
        exact Or.inr ⟨v, hend⟩
    · rw [(hok.other x hs).2.2]
      exact Or.inl (by rintro _ ⟨⟩)

/-- The root and another task wait; `block_on` calls `Reactor::poll`. -/
theorem block_on_blocks_idle_two_tasks :
    ∃ (h : List (Op ℕ × Unit)) (s : State (sortedList cmp) ℕ),
      Run (State.system (sortedList cmp) ℕ) (State.new (sortedList cmp) ℕ) h s ∧ PanicFree h ∧
      s.pc = .reactorPoll 2 (5 * millis) ∧
      0 < (s.rt.hist 1).polls ∧ (s.rt.hist 1).seen = (s.rt.hist 1).wakes := by
  let ops : List (Op ℕ) := [.spawn, .blockOn, .go, .poll [] .pending [],
    .poll [.wake (.task 1)] .pending [], .go, .go, .poll [] .pending [], .go, .go, .go, .go, .go,
    .go, .go].map (Op.mk 0)
  obtain ⟨s, hr, hpc, hmem⟩ := exists_state_of_foldlM
    (f := State.step) (s := State.new (sortedList cmp) ℕ) ops
    (fun s => s.pc = .reactorPoll 2 (5 * millis) ∧ 1 ∈ s.rt.tasks) (by decide)
  have hno : PanicFree (ops.map (·, ())) := by decide
  exact ⟨_, s, hr, hno, hpc, ((block_on_blocks_idle hr).1 2 _ hpc).2.2 hno 1 hmem⟩

/-- **A caught panic loses wake-ups.** In the first tick of `block_on` of the root 3 the tasks 1 and
2 wake themselves, and the second tick drains their ids. The poll of 1 panics, and the caller
catches the panic. `block_on` of another root then calls `Reactor::poll`, while the task 2 is alive,
is not in the queue and has not been polled since its wake-up. -/
theorem panic_strands_drained :
    ∃ (h : List (Op ℕ × Unit)) (s : State (sortedList cmp) ℕ),
      Run (State.system (sortedList cmp) ℕ) (State.new (sortedList cmp) ℕ) h s ∧
      s.pc = .reactorPoll 4 (5 * millis) ∧ 2 ∈ s.rt.tasks ∧ s.rt.ready.isEmpty = true ∧
      (s.rt.hist 2).polls = 1 ∧ (s.rt.hist 2).seen < (s.rt.hist 2).wakes :=
  exists_run_of_foldlM (f := State.step) (s := State.new (sortedList cmp) ℕ)
    ([.spawn, .spawn, .blockOn, .go, .poll [.wake (.task 1)] .pending [],
      .poll [.wake (.task 2)] .pending [], .poll [] .pending [], .go, .go, .poll [] .panicked [],
      .caught, .blockOn, .go, .poll [] .pending [], .go, .go, .go, .go, .go, .go, .go].map
        (Op.mk 0))
    (fun s => s.pc = .reactorPoll 4 (5 * millis) ∧ 2 ∈ s.rt.tasks ∧ s.rt.ready.isEmpty = true ∧
      (s.rt.hist 2).polls = 1 ∧ (s.rt.hist 2).seen < (s.rt.hist 2).wakes) (by decide)

end Runs

end MiniAsync.SingleThread
