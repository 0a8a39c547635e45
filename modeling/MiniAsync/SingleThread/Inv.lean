/-
  What holds in every state of the single-threaded runtime.

  `TaskOk` is what is true of one task: while it is alive its polls have not
  returned `Ready`, and it is in the ready queue or in the drained list if it has
  not been polled or not been polled since its latest wake-up; its polls and its
  occurrences in the two lists are paid for by its spawning and its wake-ups; its
  value is in the result slot until its handle yields it.

  `Ok` says it of every task, together with what ties the queue, the stored wakers
  and the ids to each other.

  Each primitive of the model keeps these; what user code leaves alone is said once
  (`Frame`).
-/
import MiniAsync.SingleThread.Runtime

namespace MiniAsync.SingleThread

open MultiThread (PollResult TimerEntry)
open Heap Timer Trace

variable {Q : MaxHeap cmp} {V : Type}

/-! ### The ready queue -/

namespace ReadyQueue

variable {q : ReadyQueue} {x y : TaskId}

/-- The set holds what the queue holds. -/
def Synced (q : ReadyQueue) : Prop := ∀ x, x ∈ q.set ↔ x ∈ q.queue

theorem Synced.push (hq : q.Synced) (x : TaskId) : (q.push x).Synced := by
  intro y
  unfold ReadyQueue.push
  split_ifs
  · exact hq y
  · rw [Finset.mem_insert, List.mem_append, List.mem_singleton, hq y, or_comm]

theorem mem_push (hq : q.Synced) : y ∈ (q.push x).queue ↔ y ∈ q.queue ∨ y = x := by
  unfold ReadyQueue.push
  split_ifs with hx
  · refine ⟨Or.inl, ?_⟩
    rintro (hy | rfl)
    · exact hy
    · exact (hq y).mp hx
  · rw [List.mem_append, List.mem_singleton]

theorem count_push_of_ne (hne : y ≠ x) : (q.push x).queue.count y = q.queue.count y := by
  unfold ReadyQueue.push
  split_ifs
  · rfl
  · rw [List.count_append, List.count_singleton, if_neg (by simpa using hne.symm)]
    rfl

theorem count_push_self : (q.push x).queue.count x ≤ q.queue.count x + 1 := by
  unfold ReadyQueue.push
  split_ifs
  · exact Nat.le_succ _
  · rw [List.count_append, List.count_singleton_self]

end ReadyQueue

/-! ### One task -/

/-- No poll has returned `Ready`. -/
def NoReady (results : List (PollResult V)) : Prop := ∀ r ∈ results, ∀ v, r ≠ .ready v

/-- The future has returned `Ready v`, at its last poll and at no earlier one. -/
def EndsWith (results : List (PollResult V)) (v : V) : Prop :=
  ∃ before, results = before ++ [.ready v] ∧ NoReady before

theorem NoReady.snoc {results : List (PollResult V)} (h : NoReady results) {res : PollResult V}
    (hres : ∀ v, res ≠ .ready v) : NoReady (results ++ [res]) := by
  intro r hr
  rcases List.mem_append.mp hr with hr | hr
  · exact h r hr
  · rw [List.mem_singleton.mp hr]
    exact hres

theorem NoReady.endsWith {results : List (PollResult V)} (h : NoReady results) (v : V) :
    EndsWith (results ++ [.ready v]) v :=
  ⟨results, rfl, h⟩

/-- The only `Ready` is the last one. -/
theorem EndsWith.eq_of_mem {results : List (PollResult V)} {u v : V} (h : EndsWith results u)
    (hv : .ready v ∈ results) : v = u := by
  obtain ⟨before, rfl, hno⟩ := h
  rcases List.mem_append.mp hv with hv | hv
  · exact absurd rfl (hno _ hv v)
  · cases List.mem_singleton.mp hv
    rfl

/-- What is true of a task, from whether it is alive, its occurrences in the ready queue and the
drained list, its shared state and its history. -/
structure TaskOk (live : Prop) (occurs : ℕ) (st : TaskState V) (h : TaskHist V) : Prop where
  unfinished : live → NoReady h.results ∧ st.result = none ∧ h.yielded = []
  finished : ¬ live → ∃ v, EndsWith h.results v ∧
    ((st.result = some v ∧ h.yielded = []) ∨ (st.result = none ∧ h.yielded = [v]))
  scheduled : live → h.polls = 0 ∨ h.seen ≠ h.wakes → 0 < occurs
  budget : h.polls + occurs ≤ 1 + h.wakes
  returned : ∀ v, h.returned = some v → v ∈ h.yielded

namespace TaskOk

variable {live : Prop} {occurs occurs' : ℕ} {st : TaskState V} {h : TaskHist V}

theorem wake (ht : TaskOk live occurs st h) (hpos : 0 < occurs') (hle : occurs' ≤ occurs + 1) :
    TaskOk live occurs' st { h with wakes := h.wakes + 1 } where
  unfinished := ht.unfinished
  finished := ht.finished
  scheduled _ _ := hpos
  budget := by
    have := ht.budget
    show h.polls + occurs' ≤ 1 + (h.wakes + 1)
    omega
  returned := ht.returned

theorem setWaker (ht : TaskOk live occurs st h) (w : Waker) :
    TaskOk live occurs ⟨st.result, some w⟩ h :=
  ⟨ht.unfinished, ht.finished, ht.scheduled, ht.budget, ht.returned⟩

/-- The handle yields the value. -/
theorem yield (ht : TaskOk live occurs st h) {v : V} (hres : st.result = some v) :
    TaskOk live occurs ⟨none, st.waker⟩ { h with yielded := h.yielded ++ [v] } := by
  have hdead : ¬ live := by
    intro hl
    rw [(ht.unfinished hl).2.1] at hres
    cases hres
  refine ⟨fun hl => absurd hl hdead, fun _ => ?_, fun hl => absurd hl hdead, ht.budget, ?_⟩
  · obtain ⟨v', hend, ⟨hsome, hnil⟩ | ⟨hnone, -⟩⟩ := ht.finished hdead
    · rw [hres] at hsome
      cases hsome
      exact ⟨v, hend, Or.inr ⟨rfl, by rw [hnil]; rfl⟩⟩
    · rw [hres] at hnone
      cases hnone
  · exact fun v' hv' => List.mem_append_left _ (ht.returned v' hv')

theorem begin (ht : TaskOk live (occurs + 1) st h) :
    TaskOk live occurs st { h with polls := h.polls + 1, seen := h.wakes } where
  unfinished := ht.unfinished
  finished := ht.finished
  scheduled _ hdue := by
    rcases hdue with hzero | hne
    · exact absurd hzero (Nat.succ_ne_zero _)
    · exact absurd rfl hne
  budget := by
    have := ht.budget
    show h.polls + 1 + occurs ≤ 1 + h.wakes
    omega
  returned := ht.returned

theorem endPoll (ht : TaskOk live occurs st h) (hl : live) {res : PollResult V}
    (hres : ∀ v, res ≠ .ready v) :
    TaskOk live occurs st { h with results := h.results ++ [res] } := by
  obtain ⟨hnr, hrest⟩ := ht.unfinished hl
  exact ⟨fun _ => ⟨hnr.snoc hres, hrest⟩, fun hd => absurd hl hd, ht.scheduled, ht.budget,
    ht.returned⟩

theorem complete (ht : TaskOk live occurs st h) (hl : live) {dead : Prop} (hd : ¬ dead) (v : V) :
    TaskOk dead occurs ⟨some v, none⟩ { h with results := h.results ++ [.ready v] } := by
  obtain ⟨hnr, -, hnil⟩ := ht.unfinished hl
  exact ⟨fun h => absurd h hd, fun _ => ⟨v, hnr.endsWith v, Or.inl ⟨rfl, hnil⟩⟩,
    fun h => absurd h hd, ht.budget, ht.returned⟩

theorem spawn (root : Bool) (hpos : 0 < occurs) (hle : occurs ≤ 1) (hl : live) :
    TaskOk live occurs (⟨none, none⟩ : TaskState V) (TaskHist.new root V) where
  unfinished _ := ⟨by rintro _ ⟨⟩, rfl, rfl⟩
  finished hd := absurd hl hd
  scheduled _ _ := hpos
  budget := by
    show 0 + occurs ≤ 1 + 0
    omega
  returned := by rintro _ ⟨⟩

/-- An id is skipped or moved. -/
theorem of_le (ht : TaskOk live occurs st h) (hle : occurs' ≤ occurs) (hpos : live → 0 < occurs →
    0 < occurs') : TaskOk live occurs' st h :=
  ⟨ht.unfinished, ht.finished, fun hl hdue => hpos hl (ht.scheduled hl hdue),
    (Nat.add_le_add_left hle _).trans ht.budget, ht.returned⟩

end TaskOk


/-! ### The wakers that timers store -/

namespace TimerWheel

variable {W : Type} {t : TimerWheel Q W} {w : W}

/-- A timer has the waker `w`. -/
def Stores (t : TimerWheel Q W) (w : W) : Prop := ∃ k, (t.state k).waker = some w

theorem Stores.of_register {deadline : ℕ} (h : (t.register deadline).2.Stores w) : t.Stores w := by
  obtain ⟨k, hk⟩ := h
  rcases eq_or_ne k t.count with rfl | hne
  · simp [register] at hk
  · exact ⟨k, by simpa [register, hne] using hk⟩

theorem Stores.of_poll {k : ℕ} {w' : W} (h : (t.poll k w').2.Stores w) : t.Stores w ∨ w = w' := by
  unfold poll at h
  split_ifs at h
  · exact Or.inl h
  · obtain ⟨j, hj⟩ := h
    rcases eq_or_ne j k with rfl | hne
    · exact Or.inr (by simpa using hj.symm)
    · exact Or.inl ⟨j, by simpa [hne] using hj⟩

theorem Stores.of_fire {e : TimerEntry} (h : (t.fire e).2.Stores w) : t.Stores w := by
  obtain ⟨k, hk⟩ := h
  rcases eq_or_ne k e.id with rfl | hne
  · simp [fire] at hk
  · exact ⟨k, by simpa [fire, hne] using hk⟩

theorem stores_of_mem_fireAll {es : List TimerEntry} (h : w ∈ (t.fireAll es).1) : t.Stores w := by
  induction es generalizing t with
  | nil => cases h
  | cons e es ih =>
    rcases List.mem_append.mp h with h | h
    · exact ⟨e.id, Option.mem_toList.mp h⟩
    · exact (ih h).of_fire

theorem Stores.of_fireAll {es : List TimerEntry} (h : (t.fireAll es).2.Stores w) : t.Stores w := by
  induction es generalizing t with
  | nil => exact h
  | cons e es ih => exact (ih h).of_fire

/-- `process` calls wakers that timers store, and stores none. -/
theorem stores_of_mem_process {now : ℕ} (h : w ∈ (t.process now).1.2.1) : t.Stores w := by
  unfold process at h
  rw [processLoop_eq (Nat.lt_succ_self _)] at h
  obtain ⟨k, hk⟩ := stores_of_mem_fireAll h
  exact ⟨k, hk⟩

theorem Stores.of_process {now : ℕ} (h : (t.process now).2.Stores w) : t.Stores w := by
  unfold process at h
  rw [processLoop_eq (Nat.lt_succ_self _)] at h
  obtain ⟨k, hk⟩ := Stores.of_fireAll h
  exact ⟨k, hk⟩

end TimerWheel

/-! ### The runtime -/

namespace Runtime

/-- What an act can do. -/
inductive ActStep (rt : Runtime Q V) : Act → Runtime Q V → Prop
  | wake {w} (hw : rt.Holds w) : ActStep rt (.wake w) (rt.wake w)
  | joinReady {x w v} (hx : rt.Spawned x) (hroot : (rt.hist x).root = false)
    (hv : (rt.state x).result = some v) : ActStep rt (.pollJoin x w) (rt.takeResult x v)
  | joinPending {x w} (hx : rt.Spawned x) (hroot : (rt.hist x).root = false) (hw : rt.Holds w) :
    ActStep rt (.pollJoin x w) (rt.setWaker x w)
  | sleep {deadline} :
    ActStep rt (.sleep deadline) { rt with timers := (rt.timers.register deadline).2 }
  | pollSleep {k w} (hw : rt.Holds w) :
    ActStep rt (.pollSleep k w) { rt with timers := (rt.timers.poll k w).2 }

variable {rt rt' : Runtime Q V} {rest rest' : List TaskId} {x y r : TaskId} {w : Waker}

theorem ActStep.of_act {a : Act} (ha : rt.act a = some rt') : rt.ActStep a rt' := by
  cases a with
  | wake w =>
    simp only [act] at ha
    split_ifs at ha with hw
    cases ha
    exact .wake hw
  | pollJoin x w =>
    simp only [act] at ha
    split_ifs at ha with hx
    obtain ⟨hx, hroot, hw⟩ := hx
    cases ha
    unfold pollHandle
    split
    · exact .joinReady hx hroot ‹_›
    · exact .joinPending hx hroot hw
  | sleep deadline =>
    cases ha
    exact .sleep
  | pollSleep k w =>
    simp only [act] at ha
    split_ifs at ha with hk
    cases ha
    exact .pollSleep hk.2

/-- A waker wakes tasks of the runtime only. -/
def Known (rt : Runtime Q V) : Waker → Prop
  | .task x => rt.Spawned x
  | .flag _ => True
  | .other xs => ∀ x ∈ xs, rt.Spawned x

theorem Holds.known : ∀ {w : Waker}, rt.Holds w → rt.Known w
  | .task _, h => h
  | .other _, h => h

theorem Known.mono (hs : ∀ x, rt.Spawned x → rt'.Spawned x) :
    ∀ {w : Waker}, rt.Known w → rt'.Known w
  | .task _, h => hs _ h
  | .flag _, _ => trivial
  | .other _, h => fun x hx => hs x (h x hx)

/-- How often the task `x` is in the ready queue and in the drained list. -/
def occurs (rt : Runtime Q V) (rest : List TaskId) (x : TaskId) : ℕ :=
  rt.ready.queue.count x + rest.count x

/-- What holds of the runtime while `rest` has been drained and not polled. -/
structure Ok (rt : Runtime Q V) (rest : List TaskId) : Prop where
  synced : rt.ready.Synced
  given : ∀ x, rt.Spawned x → x < rt.nextId
  other : ∀ x, ¬ rt.Spawned x → x ∉ rt.tasks ∧ rt.occurs rest x = 0 ∧ rt.hist x = TaskHist.none V
  task : ∀ x, rt.Spawned x → TaskOk (x ∈ rt.tasks) (rt.occurs rest x) (rt.state x) (rt.hist x)
  stored : ∀ x w, (rt.state x).waker = some w → rt.Known w
  timers : ∀ w, rt.timers.Stores w → rt.Known w

theorem Ok.new : (new Q V).Ok [] where
  synced x := by simp [Runtime.new, ReadyQueue.new]
  given := by rintro _ ⟨⟩
  other x _ := ⟨Finset.notMem_empty x, rfl, rfl⟩
  task := by rintro _ ⟨⟩
  stored := by rintro _ _ ⟨⟩
  timers := by rintro _ ⟨_, ⟨⟩⟩

/-- The task `y` has not changed. -/
structure Same (rt : Runtime Q V) (rest : List TaskId) (rt' : Runtime Q V) (rest' : List TaskId)
    (y : TaskId) : Prop where
  live : y ∈ rt'.tasks ↔ y ∈ rt.tasks
  occurs : rt'.occurs rest' y = rt.occurs rest y
  state : rt'.state y = rt.state y
  hist : rt'.hist y = rt.hist y

/-- One spawned task changes. -/
theorem Ok.change (h : rt.Ok rest) (hx : rt.Spawned x) (hx' : rt'.Spawned x)
    (hn : rt'.nextId = rt.nextId) (hsynced : rt'.ready.Synced)
    (hsame : ∀ y, y ≠ x → rt.Same rest rt' rest' y)
    (htask : TaskOk (x ∈ rt'.tasks) (rt'.occurs rest' x) (rt'.state x) (rt'.hist x))
    (hstored : ∀ w, (rt'.state x).waker = some w → rt.Known w) (htimers : rt'.timers = rt.timers) :
    rt'.Ok rest' := by
  have hspawned : ∀ y, rt'.Spawned y ↔ rt.Spawned y := by
    intro y
    rcases eq_or_ne y x with rfl | hne
    · exact iff_of_true hx' hx
    · rw [Spawned, (hsame y hne).hist]
  refine ⟨hsynced, fun y hy => ?_, fun y hy => ?_, fun y hy => ?_, fun y w hw => ?_, fun w hw => ?_⟩
  · rw [hn]
    exact h.given y ((hspawned y).mp hy)
  · have hs := hsame y (fun he => hy (he ▸ hx'))
    rw [hs.live, hs.occurs, hs.hist]
    exact h.other y (fun hy' => hy ((hspawned y).mpr hy'))
  · rcases eq_or_ne y x with rfl | hne
    · exact htask
    · have hs := hsame y hne
      rw [hs.live, hs.occurs, hs.state, hs.hist]
      exact h.task y ((hspawned y).mp hy)
  · refine Known.mono (fun z hz => (hspawned z).mpr hz) ?_
    rcases eq_or_ne y x with rfl | hne
    · exact hstored w hw
    · rw [(hsame y hne).state] at hw
      exact h.stored y w hw
  · rw [htimers] at hw
    exact (h.timers w hw).mono fun z hz => (hspawned z).mpr hz

/-! ### Fields of the small updates -/

theorem hist_modifyHist_self (rt : Runtime Q V) (x : TaskId) (f : TaskHist V → TaskHist V) :
    (rt.modifyHist x f).hist x = f (rt.hist x) :=
  Function.update_self _ _ _

theorem hist_modifyHist_of_ne (hne : y ≠ x) (f : TaskHist V → TaskHist V) :
    (rt.modifyHist x f).hist y = rt.hist y :=
  Function.update_of_ne hne _ _

theorem hist_wakeTask_of_ne (hne : y ≠ x) : (rt.wakeTask x).hist y = rt.hist y :=
  Function.update_of_ne hne _ _

theorem hist_beginPoll_of_ne (hne : y ≠ x) : (rt.beginPoll x).hist y = rt.hist y :=
  Function.update_of_ne hne _ _

/-- What an update of a history does not change. -/
theorem proj_modifyHist {α : Type} (p : TaskHist V → α) {f : TaskHist V → TaskHist V}
    (hp : p (f (rt.hist x)) = p (rt.hist x)) (y : TaskId) :
    p ((rt.modifyHist x f).hist y) = p (rt.hist y) := by
  rcases eq_or_ne y x with rfl | hne
  · rw [hist_modifyHist_self, hp]
  · rw [hist_modifyHist_of_ne hne]

theorem hist_endPoll_self (rt : Runtime Q V) (x : TaskId) (res : PollResult V) :
    (rt.endPoll x res).hist x =
      { rt.hist x with results := (rt.hist x).results ++ [res] } :=
  Function.update_self _ _ _

theorem hist_endPoll_of_ne (hne : y ≠ x) (res : PollResult V) :
    (rt.endPoll x res).hist y = rt.hist y :=
  Function.update_of_ne hne _ _

theorem state_setState_self (rt : Runtime Q V) (x : TaskId) (st : TaskState V) :
    (rt.setState x st).state x = st :=
  Function.update_self _ _ _

theorem state_setState_of_ne (hne : y ≠ x) (st : TaskState V) :
    (rt.setState x st).state y = rt.state y :=
  Function.update_of_ne hne _ _

/-! ### Primitives -/

theorem Ok.wakeTask (h : rt.Ok rest) (hx : rt.Spawned x) : (rt.wakeTask x).Ok rest := by
  have hhist : (rt.wakeTask x).hist x = { rt.hist x with wakes := (rt.hist x).wakes + 1 } :=
    hist_modifyHist_self _ x _
  refine h.change hx ?_ rfl (h.synced.push x) (fun y hne => ?_) ?_ (h.stored x) rfl
  · rw [Spawned, hhist]
    exact hx
  · refine ⟨Iff.rfl, ?_, rfl, hist_wakeTask_of_ne hne⟩
    exact congrArg (· + rest.count y) (ReadyQueue.count_push_of_ne hne)
  · rw [hhist]
    refine (h.task x hx).wake ?_ ?_
    · have hmem : x ∈ (rt.ready.push x).queue := (ReadyQueue.mem_push h.synced).mpr (Or.inr rfl)
      exact Nat.add_pos_left (List.count_pos_iff.mpr hmem) _
    · have hle : (rt.ready.push x).queue.count x ≤ _ := ReadyQueue.count_push_self
      show (rt.ready.push x).queue.count x + rest.count x ≤ _
      unfold Runtime.occurs
      omega

theorem Ok.flag (h : rt.Ok rest) (flag : TaskId → Bool) : { rt with flag := flag }.Ok rest :=
  ⟨h.synced, h.given, h.other, h.task, h.stored, h.timers⟩

theorem Ok.clock (h : rt.Ok rest) (clock : ℕ) : { rt with clock := clock }.Ok rest :=
  ⟨h.synced, h.given, h.other, h.task, h.stored, h.timers⟩

theorem Ok.setTimers (h : rt.Ok rest) {timers : TimerWheel Q Waker}
    (ht : ∀ w, timers.Stores w → rt.Known w) : { rt with timers := timers }.Ok rest :=
  ⟨h.synced, h.given, h.other, h.task, h.stored, ht⟩

theorem Ok.skipId (h : rt.Ok rest) : { rt with nextId := rt.nextId + 1 }.Ok rest :=
  ⟨h.synced, fun x hx => Nat.lt_succ_of_lt (h.given x hx), h.other, h.task, h.stored, h.timers⟩

theorem Ok.takeResult (h : rt.Ok rest) (hx : rt.Spawned x) {v : V}
    (hv : (rt.state x).result = some v) : (rt.takeResult x v).Ok rest := by
  have hhist : (rt.takeResult x v).hist x = _ := hist_modifyHist_self _ x _
  have hst : (rt.takeResult x v).state x = _ := state_setState_self rt x _
  refine h.change hx ?_ rfl h.synced (fun y hne => ?_) ?_ (fun w hw => ?_) rfl
  · rw [Spawned, hhist]
    exact hx
  · exact ⟨Iff.rfl, rfl, state_setState_of_ne hne _, hist_modifyHist_of_ne hne _⟩
  · rw [hhist, hst]
    exact (h.task x hx).yield hv
  · rw [hst] at hw
    exact h.stored x w hw

theorem Ok.setWaker (h : rt.Ok rest) (hx : rt.Spawned x) (hw : rt.Known w) :
    (rt.setWaker x w).Ok rest := by
  have hst : (rt.setWaker x w).state x = _ := state_setState_self rt x _
  refine h.change hx hx rfl h.synced (fun y hne => ?_) ?_ (fun w' hw' => ?_) rfl
  · exact ⟨Iff.rfl, rfl, state_setState_of_ne hne _, rfl⟩
  · rw [hst]
    exact (h.task x hx).setWaker w
  · rw [hst] at hw'
    cases hw'
    exact hw

theorem Ok.spawn (h : rt.Ok rest) (root : Bool) : (rt.spawn root).Ok rest := by
  have hfresh : ¬ rt.Spawned rt.nextId := fun hs => absurd (h.given _ hs) (lt_irrefl _)
  have hhist : ∀ y, y ≠ rt.nextId → (rt.spawn root).hist y = rt.hist y :=
    fun y hne => Function.update_of_ne hne _ _
  have hself : (rt.spawn root).hist rt.nextId = TaskHist.new root V := Function.update_self _ _ _
  have hmono : ∀ y, rt.Spawned y → (rt.spawn root).Spawned y := by
    intro y hy
    rw [Spawned, hhist y (fun he => hfresh (he ▸ hy))]
    exact hy
  have hcount : ∀ y, y ≠ rt.nextId → (rt.spawn root).occurs rest y = rt.occurs rest y :=
    fun y hne => congrArg (· + rest.count y) (ReadyQueue.count_push_of_ne hne)
  refine ⟨h.synced.push _, fun y hy => ?_, fun y hy => ?_, fun y hy => ?_, fun y w hw => ?_,
    fun w hw => (h.timers w hw).mono hmono⟩
  · rcases eq_or_ne y rt.nextId with rfl | hne
    · exact Nat.lt_succ_self _
    · rw [Spawned, hhist y hne] at hy
      exact Nat.lt_succ_of_lt (h.given y hy)
  · -- an id without a task is not the new one
    have hne : y ≠ rt.nextId := by
      rintro rfl
      exact hy (by rw [Spawned, hself]; rfl)
    rw [Spawned, hhist y hne] at hy
    obtain ⟨htasks, hocc, hnone⟩ := h.other y hy
    rw [hcount y hne, hhist y hne]
    exact ⟨fun hmem => htasks (Finset.mem_of_mem_insert_of_ne hmem hne), hocc, hnone⟩
  · rcases eq_or_ne y rt.nextId with rfl | hne
    · -- the new task is queued once
      obtain ⟨-, hocc, -⟩ := h.other _ hfresh
      have hst : (rt.spawn root).state rt.nextId = ⟨none, none⟩ := Function.update_self _ _ _
      rw [hself, hst]
      have hmem : rt.nextId ∈ (rt.ready.push rt.nextId).queue :=
        (ReadyQueue.mem_push h.synced).mpr (Or.inr rfl)
      have hle : (rt.ready.push rt.nextId).queue.count rt.nextId ≤ _ := ReadyQueue.count_push_self
      have hzero : rt.ready.queue.count rt.nextId + rest.count rt.nextId = 0 := hocc
      refine TaskOk.spawn root ?_ ?_ (Finset.mem_insert_self _ _)
      · exact Nat.add_pos_left (List.count_pos_iff.mpr hmem) _
      · show (rt.ready.push rt.nextId).queue.count rt.nextId + rest.count rt.nextId ≤ 1
        omega
    · rw [Spawned, hhist y hne] at hy
      have hst : (rt.spawn root).state y = rt.state y := Function.update_of_ne hne _ _
      have hlive : y ∈ (rt.spawn root).tasks ↔ y ∈ rt.tasks :=
        ⟨fun hmem => Finset.mem_of_mem_insert_of_ne hmem hne, Finset.mem_insert_of_mem⟩
      rw [hlive, hcount y hne, hst, hhist y hne]
      exact h.task y hy
  · refine Known.mono hmono ?_
    rcases eq_or_ne y rt.nextId with rfl | hne
    · have hst : (rt.spawn root).state rt.nextId = ⟨none, none⟩ := Function.update_self _ _ _
      rw [hst] at hw
      cases hw
    · exact h.stored y w ((congrArg TaskState.waker
        (Function.update_of_ne hne _ _ : (rt.spawn root).state y = rt.state y)).symm.trans hw)

/-- `drain` moves the queue into the list of the tick. -/
theorem Ok.drain (h : rt.Ok rest) :
    { rt with ready := rt.ready.drain.2 }.Ok (rt.ready.drain.1 ++ rest) := by
  have hocc : ∀ x, { rt with ready := rt.ready.drain.2 }.occurs (rt.ready.drain.1 ++ rest) x =
      rt.occurs rest x := by
    intro x
    show ([] : List TaskId).count x + (rt.ready.queue ++ rest).count x =
      rt.ready.queue.count x + rest.count x
    rw [List.count_nil, Nat.zero_add, List.count_append]
  refine ⟨fun x => by simp [ReadyQueue.drain], h.given, fun x hx => ?_, fun x hx => ?_, h.stored,
    h.timers⟩
  · rw [hocc]
    exact h.other x hx
  · rw [hocc]
    exact h.task x hx

/-- The tick leaves out a task that is not there. -/
theorem Ok.skip (h : rt.Ok (x :: rest)) (hx : x ∉ rt.tasks) : rt.Ok rest := by
  have hle : ∀ y, rt.occurs rest y ≤ rt.occurs (x :: rest) y :=
    fun y => Nat.add_le_add_left (List.count_le_count_cons) _
  refine ⟨h.synced, h.given, fun y hy => ?_, fun y hy => ?_, h.stored, h.timers⟩
  · obtain ⟨htasks, hocc, hnone⟩ := h.other y hy
    exact ⟨htasks, Nat.le_zero.mp (hocc ▸ hle y), hnone⟩
  · refine (h.task y hy).of_le (hle y) (fun hl hpos => ?_)
    have hne : x ≠ y := by
      rintro rfl
      exact hx hl
    unfold Runtime.occurs at hpos ⊢
    rwa [List.count_cons_of_ne hne] at hpos

theorem Ok.spawned (h : rt.Ok rest) (hx : x ∈ rt.tasks) : rt.Spawned x := by
  by_contra hns
  exact (h.other x hns).1 hx

theorem Ok.beginPoll (h : rt.Ok (x :: rest)) (hx : x ∈ rt.tasks) : (rt.beginPoll x).Ok rest := by
  have hs := h.spawned hx
  have hhist := hist_modifyHist_self rt x
    fun h => { h with polls := h.polls + 1, seen := h.wakes }
  refine h.change hs ?_ rfl h.synced (fun y hne => ?_) ?_ (h.stored x) rfl
  · exact (congrArg TaskHist.spawned hhist).trans hs
  · refine ⟨Iff.rfl, ?_, rfl, hist_beginPoll_of_ne hne⟩
    unfold Runtime.occurs
    rw [List.count_cons_of_ne hne.symm]
    rfl
  · have ht := h.task x hs
    rw [Runtime.occurs, List.count_cons_self] at ht
    exact hhist ▸ ht.begin

theorem Ok.endPoll (h : rt.Ok rest) (hx : x ∈ rt.tasks) {res : PollResult V}
    (hres : ∀ v, res ≠ .ready v) : (rt.endPoll x res).Ok rest := by
  have hs := h.spawned hx
  have hhist := hist_endPoll_self rt x res
  refine h.change hs ?_ rfl h.synced (fun y hne => ?_) ?_ (h.stored x) rfl
  · exact (congrArg TaskHist.spawned hhist).trans hs
  · exact ⟨Iff.rfl, rfl, rfl, hist_endPoll_of_ne hne _⟩
  · exact hhist ▸ (h.task x hs).endPoll hx hres

theorem Ok.store (h : rt.Ok rest) (hx : x ∈ rt.tasks) (v : V) :
    ((rt.endPoll x (.ready v)).store x v).Ok rest := by
  have hs := h.spawned hx
  have hhist := hist_endPoll_self rt x (.ready v)
  have hst : ((rt.endPoll x (.ready v)).store x v).state x = _ :=
    state_setState_self (rt.endPoll x (.ready v)) x _
  refine h.change hs ?_ rfl h.synced (fun y hne => ?_) ?_ (fun w hw => ?_) rfl
  · exact (congrArg TaskHist.spawned hhist).trans hs
  · exact ⟨⟨Finset.mem_of_mem_erase, Finset.mem_erase_of_ne_of_mem hne⟩, rfl,
      state_setState_of_ne hne _, hist_endPoll_of_ne hne _⟩
  · rw [hst]
    exact hhist ▸ (h.task x hs).complete hx (Finset.notMem_erase x _) v
  · rw [hst] at hw
    cases hw

/-! ### What user code, wake-ups and timers leave alone -/

/-- Nothing has been polled and no root has been touched; flags have only been set. -/
structure Frame (rt rt' : Runtime Q V) : Prop where
  tasks : rt'.tasks = rt.tasks
  spawned : ∀ x, (rt'.hist x).spawned = (rt.hist x).spawned
  root : ∀ x, (rt'.hist x).root = (rt.hist x).root
  polls : ∀ x, (rt'.hist x).polls = (rt.hist x).polls
  results : ∀ x, (rt'.hist x).results = (rt.hist x).results
  state : ∀ x, (rt.hist x).root = true → rt'.state x = rt.state x
  yielded : ∀ x, (rt.hist x).root = true → (rt'.hist x).yielded = (rt.hist x).yielded
  flag : ∀ r, rt.flag r = true → rt'.flag r = true

namespace Frame

protected theorem refl (rt : Runtime Q V) : Frame rt rt :=
  ⟨rfl, fun _ => rfl, fun _ => rfl, fun _ => rfl, fun _ => rfl, fun _ _ => rfl, fun _ _ => rfl,
    fun _ h => h⟩

theorem trans {rt'' : Runtime Q V} (h : Frame rt rt') (h' : Frame rt' rt'') : Frame rt rt'' where
  tasks := h'.tasks.trans h.tasks
  spawned x := (h'.spawned x).trans (h.spawned x)
  root x := (h'.root x).trans (h.root x)
  polls x := (h'.polls x).trans (h.polls x)
  results x := (h'.results x).trans (h.results x)
  state x hx := (h'.state x ((h.root x).trans hx)).trans (h.state x hx)
  yielded x hx := (h'.yielded x ((h.root x).trans hx)).trans (h.yielded x hx)
  flag r hr := h'.flag r (h.flag r hr)

/-- The history of a task is changed where the frame does not look. -/
theorem modifyHist (x : TaskId) (f : TaskHist V → TaskHist V)
    (hspawned : (f (rt.hist x)).spawned = (rt.hist x).spawned)
    (hroot : (f (rt.hist x)).root = (rt.hist x).root)
    (hpolls : (f (rt.hist x)).polls = (rt.hist x).polls)
    (hresults : (f (rt.hist x)).results = (rt.hist x).results)
    (hyielded : (rt.hist x).root = true → (f (rt.hist x)).yielded = (rt.hist x).yielded) :
    Frame rt (rt.modifyHist x f) where
  tasks := rfl
  spawned := proj_modifyHist _ hspawned
  root := proj_modifyHist _ hroot
  polls := proj_modifyHist _ hpolls
  results := proj_modifyHist _ hresults
  state _ _ := rfl
  yielded y hy := by
    rcases eq_or_ne y x with rfl | hne
    · exact proj_modifyHist TaskHist.yielded (hyielded hy) y
    · rw [hist_modifyHist_of_ne hne]
  flag _ h := h

theorem setState {st : TaskState V} (hx : (rt.hist x).root = false) :
    Frame rt (rt.setState x st) where
  tasks := rfl
  spawned _ := rfl
  root _ := rfl
  polls _ := rfl
  results _ := rfl
  state y hy := state_setState_of_ne (by rintro rfl; rw [hx] at hy; cases hy) st
  yielded _ _ := rfl
  flag _ h := h

end Frame

theorem wakeTask_frame (rt : Runtime Q V) (x : TaskId) : Frame rt (rt.wakeTask x) :=
  have hpush : Frame rt { rt with ready := rt.ready.push x } :=
    ⟨rfl, fun _ => rfl, fun _ => rfl, fun _ => rfl, fun _ => rfl, fun _ _ => rfl, fun _ _ => rfl,
      fun _ h => h⟩
  hpush.trans (Frame.modifyHist x _ rfl rfl rfl rfl fun _ => rfl)

/-- A fold of an operation that keeps the invariant and the frame. -/
theorem foldl_keeps {α : Type} {f : Runtime Q V → α → Runtime Q V} {ok : α → Prop}
    (hf : ∀ rt' a, Frame rt rt' → rt'.Ok rest → ok a → Frame rt' (f rt' a) ∧ (f rt' a).Ok rest)
    (as : List α) (has : ∀ a ∈ as, ok a) (h : rt.Ok rest) :
    Frame rt (as.foldl f rt) ∧ (as.foldl f rt).Ok rest := by
  have hkeep : ∀ (as : List α) (rt' : Runtime Q V), (∀ a ∈ as, ok a) → Frame rt rt' → rt'.Ok rest →
      Frame rt (as.foldl f rt') ∧ (as.foldl f rt').Ok rest := by
    intro as
    induction as with
    | nil => exact fun rt' _ hfr hok => ⟨hfr, hok⟩
    | cons a as ih =>
      intro rt' has hfr hok
      obtain ⟨hfr', hok'⟩ := hf rt' a hfr hok (has a List.mem_cons_self)
      exact ih _ (fun b hb => has b (List.mem_cons_of_mem a hb)) (hfr.trans hfr') hok'
  exact hkeep as rt has (Frame.refl rt) h

theorem Frame.spawned_iff (h : Frame rt rt') : rt'.Spawned x ↔ rt.Spawned x := by
  rw [Spawned, Spawned, h.spawned]

theorem Frame.known (h : Frame rt rt') (hw : rt.Known w) : rt'.Known w :=
  hw.mono fun _ hx => h.spawned_iff.mpr hx

theorem Ok.wake (h : rt.Ok rest) (hw : rt.Known w) :
    Frame rt (rt.wake w) ∧ (rt.wake w).Ok rest := by
  cases w with
  | task x => exact ⟨wakeTask_frame rt x, h.wakeTask hw⟩
  | flag r =>
    refine ⟨⟨rfl, fun _ => rfl, fun _ => rfl, fun _ => rfl, fun _ => rfl, fun _ _ => rfl,
      fun _ _ => rfl, fun r' hr' => ?_⟩, h.flag _⟩
    show Function.update rt.flag r true r' = true
    rcases eq_or_ne r' r with rfl | hne
    · exact Function.update_self _ _ _
    · exact (Function.update_of_ne hne _ _).trans hr'
  | other xs =>
    exact foldl_keeps (fun rt' x hfr hok hx =>
      ⟨wakeTask_frame rt' x, hok.wakeTask (hfr.spawned_iff.mpr hx)⟩) xs hw h

theorem Ok.wakeAll (h : rt.Ok rest) {ws : List Waker} (hws : ∀ w ∈ ws, rt.Known w) :
    Frame rt (rt.wakeAll ws) ∧ (rt.wakeAll ws).Ok rest :=
  foldl_keeps (f := Runtime.wake) (fun _ _ hfr hok hw => hok.wake (hfr.known hw)) ws hws h

theorem setTimers_frame (rt : Runtime Q V) (timers : TimerWheel Q Waker) :
    Frame rt { rt with timers := timers } :=
  ⟨rfl, fun _ => rfl, fun _ => rfl, fun _ => rfl, fun _ => rfl, fun _ _ => rfl, fun _ _ => rfl,
    fun _ h => h⟩

theorem Ok.process (h : rt.Ok rest) : Frame rt rt.process.2 ∧ rt.process.2.Ok rest := by
  have hok : { rt with timers := (rt.timers.process rt.clock).2 }.Ok rest :=
    h.setTimers fun w hw => h.timers w hw.of_process
  have hws : ∀ w ∈ (rt.timers.process rt.clock).1.2.1,
      { rt with timers := (rt.timers.process rt.clock).2 }.Known w :=
    fun w hw => (h.timers w (TimerWheel.stores_of_mem_process hw)).mono fun _ hx => hx
  have hkeep := hok.wakeAll hws
  exact ⟨(setTimers_frame rt _).trans hkeep.1, hkeep.2⟩

theorem takeResult_frame (hx : (rt.hist x).root = false) (v : V) :
    Frame rt (rt.takeResult x v) := by
  refine (Frame.setState hx).trans (Frame.modifyHist x _ rfl rfl rfl rfl fun hr => ?_)
  exact absurd (hx.symm.trans hr) Bool.false_ne_true

theorem Ok.act (h : rt.Ok rest) {a : Act} (ha : rt.ActStep a rt') :
    Frame rt rt' ∧ rt'.Ok rest := by
  cases ha with
  | wake hw => exact h.wake hw.known
  | joinReady hx hroot hv => exact ⟨takeResult_frame hroot _, h.takeResult hx hv⟩
  | joinPending hx hroot hw => exact ⟨Frame.setState hroot, h.setWaker hx hw.known⟩
  | sleep => exact ⟨setTimers_frame rt _, h.setTimers fun w hw => h.timers w hw.of_register⟩
  | pollSleep hw =>
    refine ⟨setTimers_frame rt _, h.setTimers fun w' hw' => ?_⟩
    rcases hw'.of_poll with hw' | rfl
    · exact h.timers w' hw'
    · exact hw.known

/-- What every act keeps holds after them. -/
theorem acts_rule {P : Runtime Q V → Prop} {as : List Act} (h : P rt)
    (hact : ∀ rt a rt', a ∈ as → P rt → rt.ActStep a rt' → P rt') (ha : rt.acts as = some rt') :
    P rt' := by
  induction as generalizing rt with
  | nil =>
    cases ha
    exact h
  | cons a as ih =>
    rw [Runtime.acts] at ha
    split at ha
    · cases ha
    · rename_i rt₁ hact₁
      refine ih (hact _ a _ List.mem_cons_self h (.of_act hact₁)) (fun rt b rt' hb => ?_) ha
      exact hact rt b rt' (List.mem_cons_of_mem a hb)

theorem Ok.acts (h : rt.Ok rest) {as : List Act} (ha : rt.acts as = some rt') :
    Frame rt rt' ∧ rt'.Ok rest := by
  refine acts_rule (P := fun rt' => Frame rt rt' ∧ rt'.Ok rest) ⟨Frame.refl rt, h⟩ ?_ ha
  intro rt₁ a rt₂ _ h₁ hact
  obtain ⟨hfr, hok⟩ := h₁.2.act hact
  exact ⟨h₁.1.trans hfr, hok⟩

theorem Ok.complete (h : rt.Ok rest) (hx : x ∈ rt.tasks) (v : V) :
    Frame ((rt.endPoll x (.ready v)).store x v) ((rt.endPoll x (.ready v)).complete x v) ∧
      ((rt.endPoll x (.ready v)).complete x v).Ok rest := by
  have hok := h.store hx v
  unfold Runtime.complete
  split
  · rename_i w hw
    refine hok.wake ((h.stored x w hw).mono fun y hy => ?_)
    rcases eq_or_ne y x with rfl | hne
    · exact (congrArg TaskHist.spawned (hist_endPoll_self rt y (.ready v))).trans hy
    · exact (congrArg TaskHist.spawned (hist_endPoll_of_ne hne (.ready v))).trans hy
  · exact ⟨Frame.refl _, hok⟩

/-- **A poll**, by its result: the acts of the future come first; then the task is completed, with
what follows from it, or it stays. -/
theorem Ok.pollTask (h : rt.Ok (x :: rest)) (hx : x ∈ rt.tasks) {as drops : List Act}
    {res : PollResult V} (hp : rt.pollTask x as res drops = some rt') :
    rt'.Ok rest ∧ ∃ mid, Frame (rt.beginPoll x) mid ∧ mid.Ok rest ∧
      ((∃ v, res = .ready v ∧ Frame ((mid.endPoll x (.ready v)).complete x v) rt') ∨
        ((∀ v, res ≠ .ready v) ∧ rt' = mid.endPoll x res)) := by
  rw [Runtime.pollTask] at hp
  split at hp
  · cases hp
  · rename_i mid hacts
    obtain ⟨hfr, hok⟩ := (h.beginPoll hx).acts hacts
    have hx' : x ∈ mid.tasks := hfr.tasks ▸ hx
    cases res with
    | ready v =>
      obtain ⟨hfrd, hokd⟩ := (hok.complete hx' v).2.acts hp
      exact ⟨hokd, mid, hfr, hok, Or.inl ⟨v, rfl, hfrd⟩⟩
    | pending =>
      cases hp
      exact ⟨hok.endPoll hx' (by rintro _ ⟨⟩), mid, hfr, hok, Or.inr ⟨by rintro _ ⟨⟩, rfl⟩⟩
    | panicked =>
      cases hp
      exact ⟨hok.endPoll hx' (by rintro _ ⟨⟩), mid, hfr, hok, Or.inr ⟨by rintro _ ⟨⟩, rfl⟩⟩

end Runtime

end MiniAsync.SingleThread
