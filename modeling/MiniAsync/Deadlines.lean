/-
  A deadline on its way into `epoll_wait` and back.

  Both runtimes process their timers, wait in `epoll_wait` for the time to the least
  deadline that is left, and process the timers again. `timeout_eq` says, for each
  runtime, that the timeout is this time to the nanosecond; `Reactor.conversion` says
  what is left of it in milliseconds. The second `process` call then finds the timer
  where the first one left it: in `block_on` because nothing but wakers run in between,
  in `drive_io` because the heap has one user, who is still inside the same call
  (`Reachable.afterWait`).

  The unit of the clock is a nanosecond. That a deadline is an `Instant` is used only in
  that its distance from another one fits into a `Duration`.
-/
import MiniAsync.MultiThread.Inv.Oversleep
import MiniAsync.Reactor.Timeout
import MiniAsync.SingleThread.Progress

namespace MiniAsync

open Heap Timer Trace Interleave Reactor
open MultiThread (TimerEntry)

/-! ### `block_on` -/

namespace SingleThread

variable {V : Type} {Q : MaxHeap cmp} {rt rt' : Runtime Q V} {r r' : TaskId}
  {now t₁ t₂ t₃ t₄ timeout : ℕ} {e : TimerEntry}

theorem Runtime.timers_process (rt : Runtime Q V) :
    rt.process.2.timers = (rt.timers.process rt.clock).2 :=
  (Runtime.timers_wakeAll _ _).1

/-- The steps of `block_on` from the first `process` call to the call of the reactor. -/
abbrev toReactor (now t₁ t₂ : ℕ) : List (Op V × Unit) :=
  [(⟨now, .go⟩, ()), (⟨t₁, .go⟩, ()), (⟨t₂, .go⟩, ())]

/-- What is known when `block_on` calls the reactor. -/
theorem reactorPoll_cases
    (hr : Run (State.system Q V) ⟨rt, .process r⟩ (toReactor now t₁ t₂)
      ⟨rt', .reactorPoll r' timeout⟩) :
    now ≤ t₂ ∧ rt'.clock = t₂ ∧ rt'.timers = (rt.timers.process now).2 ∧
      (rt'.timers.hasPending = true → timeout = (rt.timers.process now).1.2.2.getD millis) := by
  obtain ⟨_, s₁, hnil, hs₁, hr₁⟩ := Run.exists_of_append_cons (h := []) hr
  cases hnil.eq_of_nil
  obtain ⟨_, s₂, hnil, hs₂, hr₂⟩ := Run.exists_of_append_cons (h := []) hr₁
  cases hnil.eq_of_nil
  have hs₃ : s₂.step ⟨t₂, .go⟩ = some ⟨rt', .reactorPoll r' timeout⟩ := hr₂.of_singleton
  -- step 4
  obtain ⟨-, hstep⟩ := State.of_step hs₁
  cases hstep
  have hprocess := Runtime.timers_wakeAll { rt with
    clock := now, timers := (rt.timers.process now).2 } (rt.timers.process now).1.2.1
  obtain ⟨hle₁, hstep⟩ := State.of_step hs₂
  cases hstep with
  | someReady =>
    -- `continue`
    obtain ⟨-, hstep⟩ := State.of_step hs₃
    cases hstep
  | noneReady hq =>
    obtain ⟨hle₂, -⟩ := State.of_step hs₃
    rw [State.step, if_pos hle₂] at hs₃
    obtain ⟨rfl, hpc⟩ := State.mk.inj (Option.some.inj hs₃)
    refine ⟨(hprocess.2.symm.trans_le hle₁).trans hle₂, rfl, hprocess.1, fun hp => ?_⟩
    rw [if_pos hp] at hpc
    exact (Pc.reactorPoll.inj hpc).2.symm

/-- **The timeout of `block_on`** is the time to the least deadline. -/
theorem timeout_eq
    (hr : Run (State.system Q V) ⟨rt, .process r⟩ (toReactor now t₁ t₂)
      ⟨rt', .reactorPoll r' timeout⟩)
    (he : e ∈ Q.elems rt'.timers.heap)
    (hmin : ∀ e' ∈ Q.elems rt'.timers.heap, e.deadline ≤ e'.deadline) :
    now < e.deadline ∧ timeout = e.deadline - now := by
  obtain ⟨-, -, htimers, hpending⟩ := reactorPoll_cases hr
  have hnonempty : rt'.timers.hasPending = true := by
    rw [TimerWheel.hasPending, Bool.not_eq_true', ← Bool.not_eq_true, Q.isEmpty_iff]
    exact fun h0 => Multiset.notMem_zero e (h0 ▸ he)
  rw [hpending hnonempty, TimerWheel.process_next]
  rw [htimers] at he hmin
  refine ⟨TimerWheel.lt_deadline_of_mem_process he, ?_⟩
  -- the top of the heap has the same deadline
  obtain ⟨top, htop⟩ : ∃ top, Q.peek (rt.timers.process now).2.heap = some top := by
    refine Option.ne_none_iff_exists'.mp fun hnone => ?_
    exact Multiset.notMem_zero e (Q.peek_none _ hnone ▸ he)
  have hle := cmp_isLE.mp (Q.peek_max _ top htop e he)
  have hge := hmin top (Q.mem_of_peek htop)
  rw [htop, Option.map_some, Option.getD_some, Nat.le_antisymm hle hge]

/-- **The second `process` call of `block_on`** fires every timer whose deadline has passed when the
reactor comes back. -/
theorem processAgain_fires {s₃ s₄ : State Q V} {ws : List Waker}
    (he : e ∈ Q.elems rt.timers.heap)
    (hs₃ : State.step ⟨rt, .reactorPoll r timeout⟩ ⟨t₃, .reactor ws⟩ = some s₃)
    (hs₄ : s₃.step ⟨t₄, .go⟩ = some s₄) (hdue : e.deadline ≤ t₃) :
    s₃.pc = .processAgain r ∧ e.id ∈ (s₃.rt.timers.process t₄).1.1 ∧
      (s₄.rt.timers.state e.id).completed = true := by
  obtain ⟨-, hstep⟩ := State.of_step hs₃
  cases hstep with
  | reactor hws =>
    obtain ⟨htimers, hclock⟩ := Runtime.timers_wakeAll { rt with clock := t₃ } ws
    obtain ⟨hle, hstep⟩ := State.of_step hs₄
    have hdue₄ : e.deadline ≤ t₄ := hdue.trans (hclock.symm.trans_le hle)
    have hmem : e ∈ Q.elems (Runtime.wakeAll { rt with clock := t₃ } ws).timers.heap :=
      htimers.symm ▸ he
    obtain ⟨hfired, hcompleted⟩ := TimerWheel.mem_process_of_due hmem hdue₄
    refine ⟨rfl, hfired, ?_⟩
    cases hstep
    rw [Runtime.timers_process]
    exact hcompleted

end SingleThread

/-! ### `drive_io` -/

namespace MultiThread

variable {V : Type}

/-- What a driver knows of the least deadline: the result of its first `process` call, and the
timeout that it made of it, reach to the deadline of an entry of the heap. -/
def Frame.DeadlineOk (sh : Shared V) : Frame V → Prop
  | .worker (.driveIo (.hasPending now (some d))) => 0 < d ∧ ∃ e ∈ sh.heap, e.deadline = now + d
  | .worker (.driveIo (.epollWait now timeout)) =>
    sh.heap = [] ∨ 0 < timeout ∧ ∃ e ∈ sh.heap, e.deadline = now + timeout
  | _ => True

/-- The driver is in `epoll_wait` or behind it, and its second `process` call has not returned. -/
def afterWait : Frame V → Bool
  | .worker (.driveIo (.epollWait _ _)) | .worker (.driveIo (.collect _ _))
  | .worker (.driveIo (.wakeAll _)) => true
  | .worker (.driveIo (.process again _)) => again
  | _ => false

section Step

variable {i : ℕ} {sh sh' : Shared V} {f : Frame V} {fs : List (Frame V)}

theorem Exec.deadlineOk (h : Exec i sh f sh' fs) (ht : f.TimerOk sh) (hf : f.DeadlineOk sh) :
    ∀ g ∈ fs, g.DeadlineOk sh' := by
  cases h
  case noneExpired known now e he hmin h =>
    refine List.forall_mem_singleton.mpr ⟨Nat.sub_pos_of_lt h, e, he, ?_⟩
    exact (Nat.add_sub_cancel' (Nat.le_of_lt h)).symm
  case hasPending now next =>
    refine List.forall_mem_singleton.mpr ?_
    cases next with
    | none => exact Or.inl ht
    | some d =>
      simp only [driveTimeout, Option.getD_some, ite_self]
      exact Or.inr hf
  case callBlockOn p => cases p <;> simp [Frame.DeadlineOk, baseFrame]
  case callSpawn p | callShutdown p | callSleep p _ | callWake p _ _ | callPollSleep p _ _ _ _ =>
    cases p <;> exact List.forall_mem_cons.mpr ⟨trivial, List.forall_mem_singleton.mpr trivial⟩
  case joinReady p _ _ _ _ _ _ _ | joinPending p _ _ _ _ _ _ _ =>
    cases p <;> exact List.forall_mem_singleton.mpr trivial
  -- the other frames know no deadline
  all_goals first
    | exact List.forall_mem_singleton.mpr trivial
    | exact List.forall_mem_nil _
    | exact List.forall_mem_cons.mpr ⟨trivial, List.forall_mem_singleton.mpr trivial⟩

theorem Exec.deadlineOk_stable (h : Exec i sh f sh' fs) {g : Frame V} (hg : g.DeadlineOk sh)
    (hd : drives f + drives g ≤ 1) : g.DeadlineOk sh' := by
  cases g with
  | worker pc =>
    cases pc with
    | driveIo pc =>
      obtain ⟨hheap, -⟩ := h.wheel_of_not_drives (Nat.le_zero.mp (Nat.le_of_succ_le_succ hd))
      cases pc with
      | hasPending now next =>
        cases next with
        | none => trivial
        | some d =>
          rw [Frame.DeadlineOk, hheap]
          exact hg
      | epollWait now timeout =>
        rw [Frame.DeadlineOk, hheap]
        exact hg
      | _ => trivial
    | _ => trivial
  | _ => trivial

/-- A driver behind its `epoll_wait` stays there until its second `process` call returns. -/
theorem Exec.afterWait (h : Exec i sh f sh' fs) (hf : afterWait f = true) :
    (∃ g ∈ fs, MultiThread.afterWait g = true) ∨
      sh.timerHist.processed.length < sh'.timerHist.processed.length := by
  cases h
  case heapEmptyAgain | noneExpiredAgain => exact Or.inr (Nat.lt_succ_self _)
  case epollReturn | collect | wakeAllEnd | drain | readClock | popped | fired =>
    exact Or.inl ⟨_, List.mem_singleton_self _, hf⟩
  case complete | wakeAllNext =>
    exact Or.inl ⟨_, List.mem_cons_of_mem _ (List.mem_singleton_self _), hf⟩
  case callSpawn p | callBlockOn p | callShutdown p => cases p <;> cases hf
  case callSleep p _ | callWake p _ _ | callPollSleep p _ _ _ _ => cases p <;> cases hf
  case joinReady p _ _ _ _ _ _ _ | joinPending p _ _ _ _ _ _ _ => cases p <;> cases hf
  all_goals cases hf

theorem Exec.processed_length_le (h : Exec i sh f sh' fs) :
    sh.timerHist.processed.length ≤ sh'.timerHist.processed.length := by
  obtain heq | ⟨p, again, -, -, heq⟩ := h.processed_eq
  · rw [heq]
  · rw [heq]
    exact Nat.le_succ _

/-- The entry has left the inbox. -/
def OutOfInbox (e : TimerEntry) (sh : Shared V) : Prop :=
  e ∈ sh.timerHist.registered ∧ ∀ e' ∈ sh.inbox, e'.id ≠ e.id

/-- A timer does not come back to the inbox: a new entry has a new id. -/
theorem Exec.outOfInbox (h : Exec i sh f sh' fs) {e : TimerEntry} (hW : WheelOk sh)
    (hout : OutOfInbox e sh) : OutOfInbox e sh' := by
  obtain ⟨hreg, hin⟩ := hout
  have hlt := hW.id_lt hreg
  cases h
  case drain again => exact ⟨hreg, fun e' he' => nomatch he'⟩
  case sleepRegister d =>
    refine ⟨List.mem_append_left _ hreg, fun e' he' => ?_⟩
    rcases List.mem_append.mp he' with he' | he'
    · exact hin e' he'
    · obtain rfl := List.mem_singleton.mp he'
      exact Nat.ne_of_gt hlt
  all_goals exact ⟨hreg, hin⟩

end Step

section Run

variable {n m : ℕ} {c c₁ c₂ : Config (Shared V) (Frame V)} {now timeout : ℕ} {e : TimerEntry}

theorem Reachable.deadlineOk (h : Reachable n m c) : ∀ f ∈ c.frames, f.DeadlineOk c.shared := by
  refine h.invariant (I := fun sh F => ∀ f ∈ F, f.DeadlineOk sh) (fun f hf => ?_) ?_
  · rw [start_frames, Multiset.mem_add] at hf
    rcases hf with hf | hf <;> obtain rfl := Multiset.eq_of_mem_replicate hf <;> trivial
  · intro c c' i f fs R hc _ hF _ hex hI g hg
    have hf := hc.timerOk.2 f (hF ▸ Multiset.mem_cons_self f R)
    rcases Multiset.mem_add.mp hg with hg | hg
    · exact hex.deadlineOk hf (hI f (Multiset.mem_cons_self f R)) g hg
    · exact hex.deadlineOk_stable (hI g (Multiset.mem_cons_of_mem hg)) (hc.drives_le_one hF hg)

/-- **The timeout of `drive_io`** is the time to the least deadline in the heap. -/
theorem timeout_eq (h : Reachable n m c) (hwait : atDrive (.epollWait now timeout) ∈ c.frames)
    (he : e ∈ c.shared.heap) (hmin : ∀ e' ∈ c.shared.heap, e.deadline ≤ e'.deadline) :
    now < e.deadline ∧ timeout = e.deadline - now := by
  have hle : now + timeout ≤ e.deadline := h.timerOk.2 _ hwait e he
  obtain hnil | ⟨hpos, e', he', hd⟩ := h.deadlineOk _ hwait
  · rw [hnil] at he
    cases he
  · have hge := hmin e' he'
    omega

/-- As long as no `process` call returns, the driver stays behind its `epoll_wait`. -/
theorem exists_afterWait (hwait : ∃ f ∈ c.frames, afterWait f = true)
    (h : (machine V).Reaches c c₁)
    (hproc : c₁.shared.timerHist.processed = c.shared.timerHist.processed) :
    ∃ f ∈ c₁.frames, afterWait f = true := by
  have hrun : c.shared.timerHist.processed.length ≤ c₁.shared.timerHist.processed.length ∧
      (c₁.shared.timerHist.processed.length = c.shared.timerHist.processed.length →
        ∃ f ∈ c₁.frames, afterWait f = true) := by
    refine Machine.ReachesVia.frame_invariant (I := fun sh F =>
      c.shared.timerHist.processed.length ≤ sh.timerHist.processed.length ∧
        (sh.timerHist.processed.length = c.shared.timerHist.processed.length →
          ∃ f ∈ F, afterWait f = true)) h ⟨Nat.le_refl _, fun _ => hwait⟩ ?_
    rintro d d' i x f fs R - - - - - - hexec ⟨hle, hafter⟩
    have hex := exec_cases hexec
    have hgrow := hex.processed_length_le
    refine ⟨hle.trans hgrow, fun heq => ?_⟩
    obtain ⟨g, hg, hwaits⟩ := hafter (by omega)
    rcases Multiset.mem_cons.mp hg with rfl | hg
    · -- the driver takes the step, and it is not the return of its call
      obtain ⟨g', hg', hwaits⟩ | hlt := hex.afterWait hwaits
      · exact ⟨g', Multiset.mem_add.mpr (Or.inl hg'), hwaits⟩
      · omega
    · exact ⟨g, Multiset.mem_add.mpr (Or.inr hg), hwaits⟩
  exact hrun.2 (congrArg List.length hproc)

theorem drives_of_afterWait {f : Frame V} (hf : afterWait f = true) : drives f = 1 := by
  unfold afterWait at hf
  split at hf <;> first | rfl | cases hf

/-- **The second `process` call of `drive_io`.** The first `process` call that returns after a
driver was in `epoll_wait` is the second one of the same driver, and if its clock reading is not
before the deadline of an entry that was in the heap, it has fired this entry. -/
theorem processAgain_fires (hc : Reachable n m c)
    (hwait : atDrive (.epollWait now timeout) ∈ c.frames) (he : e ∈ c.shared.heap)
    (h : (machine V).Reaches c c₁)
    (hproc : c₁.shared.timerHist.processed = c.shared.timerHist.processed) {i : ℕ} {x : Choice V}
    (hs : (machine V).step c₁ i x = some c₂) {known t : ℕ}
    (hret : c₂.shared.timerHist.processed = (known, t) :: c.shared.timerHist.processed) :
    c₁.top i = some (atDrive (.process true (.loop known t))) ∧
      (e.deadline ≤ t → e.id ∉ c.shared.timerHist.fired ∧ e.id ∈ c₂.shared.timerHist.fired) := by
  obtain ⟨hW, -⟩ := hc.timerOk
  have hplace := hc.timer_place e.id
  have hheap : 0 < occurs e.id c.shared.heap := List.countP_pos_iff.mpr ⟨e, he, by simp⟩
  have hle : (if e.id < c.shared.timerCount then 1 else 0) ≤ 1 := by split_ifs <;> omega
  have hout : OutOfInbox e c₁.shared := by
    refine hc.stable (P := OutOfInbox e) h ⟨hW.heap e he, ?_⟩
      fun d d' i f fs R hd _ hex => hex.outOfInbox hd.timerOk.1
    exact occurs_eq_zero_iff.mp (by omega)
  -- the step is the return of a call
  obtain ⟨f, k, fs, R, hi, hexec, -, hF, -⟩ := Machine.step_cases hs
  have hex := exec_cases hexec
  have hc₁ : Reachable n m c₁ := hc.trans h
  obtain heq | ⟨p, again, rfl, hexpired, heq⟩ := hex.processed_eq
  · rw [hret, hproc] at heq
    exact absurd heq (List.cons_ne_self _ _)
  · rw [hret, hproc] at heq
    obtain ⟨rfl, -⟩ := List.cons.inj heq
    have hf : atDrive (.process again (.loop known t)) ∈ c₁.frames :=
      hF ▸ Multiset.mem_cons_self _ R
    have hagain : again = true := by
      obtain ⟨g, hg, hwaits⟩ := exists_afterWait ⟨_, hwait, rfl⟩ h hproc
      rw [hF] at hg
      rcases Multiset.mem_cons.mp hg with rfl | hg
      · exact hwaits
      · have hone := hc₁.drives_le_one hF hg
        rw [drives_of_afterWait hwaits] at hone
        exact absurd hone (by simp [drives])
    refine ⟨by rw [Config.top, hi, hagain]; rfl, fun hdl => ⟨fun hfired => ?_, ?_⟩⟩
    · have hcount := List.count_pos_iff.mpr hfired
      omega
    · exact hex.fired_subset (hc₁.fired_of_loop hf hexpired hout.1 hout.2 hdl)

/-- As long as an entry that is due is in the heap, the loop of `process` can go on, and it pops an
entry that is due. -/
theorem loop_pops {i known t : ℕ} {again : Bool}
    (htop : c.top i = some (atDrive (.process again (.loop known t)))) (he : e ∈ c.shared.heap)
    (hdl : e.deadline ≤ t) :
    ∃ j e' c', (machine V).step c i (.pick j) = some c' ∧ e'.deadline ≤ t ∧
      c'.top i = some (atDrive (.process again (.complete known t e'))) := by
  obtain ⟨e', he', hmin⟩ := c.shared.heap.toFinset.exists_min_image TimerEntry.deadline
    ⟨e, List.mem_toFinset.mpr he⟩
  simp only [List.mem_toFinset] at he' hmin
  obtain ⟨j, hj⟩ := List.getElem?_of_mem he'
  have hdue : e'.deadline ≤ t := (hmin e he).trans hdl
  obtain ⟨st, hst, hhead⟩ := Option.bind_eq_some_iff.mp htop
  obtain ⟨k, rfl⟩ := List.head?_eq_some_iff.mp hhead
  have hexec : (machine V).exec i c.shared (atDrive (.process again (.loop known t))) (.pick j) =
      some ({ c.shared with heap := c.shared.heap.eraseIdx j },
        [atDrive (.process again (.complete known t e'))]) := by
    have hne : c.shared.heap ≠ [] := List.ne_nil_of_mem he
    show process c.shared again (.loop known t) (.pick j) = _
    simp only [process, if_neg hne, hj]
    rw [if_pos hmin, if_pos hdue]
  have hstep : (machine V).step c i (.pick j) =
      some ⟨{ c.shared with heap := c.shared.heap.eraseIdx j },
        c.threads.set i (atDrive (.process again (.complete known t e')) :: k)⟩ := by
    rw [Machine.step, hst]
    simp only [hexec, Option.map_some]
    rfl
  exact ⟨j, e', _, hstep, hdue, (Machine.top_eq_self rfl hst).trans List.head?_cons⟩

end Run

end MultiThread

/-! ### Both runtimes -/

/-- The timeout is not clamped, and all of it lies between the clock readings. -/
def Waited (timeout start back : ℕ) : Prop :=
  (timeout : ℤ) ≤ waitMs timeout * 1000000 ∧ (start : ℤ) + waitMs timeout * 1000000 ≤ back

instance (timeout start back : ℕ) : Decidable (Waited timeout start back) :=
  inferInstanceAs (Decidable (_ ∧ _))

/-- A full wait reaches the deadline that the timeout was made for. -/
theorem Waited.deadline_le {now deadline timeout start back : ℕ}
    (h : Waited timeout start back) (htimeout : timeout = deadline - now) (hstart : now ≤ start) :
    deadline ≤ back := by
  obtain ⟨hround, hwaited⟩ := h
  omega

/-- **Deadlines survive the conversion into the timeout of `epoll_wait`.** Let a runtime call the
reactor after a `process` call with the clock reading `now` that has left timers in the heap, `e`
being one with the least deadline. Then the timeout is the time from `now` to this deadline, no
value of its conversion to milliseconds overflows or is truncated, and the result is positive and
rounded up, or clamped to `i32::MAX`. If it is not clamped and `epoll_wait` has waited for all of
it, then the second `process` call of the same turn fires `e`.

In `block_on` the reactor is called at `t₂` and comes back at `t₃`. In `drive_io` the clock is read
by `process` alone: with a clock that does not go back, a full wait shows in the reading `t` of the
second call. This call is the next one to return, its loop can go on as long as `e` is in the heap,
and when it returns `e` is fired. -/
theorem deadlines_survive (Q : MaxHeap cmp) (V : Type) :
    (∀ (rt rt' : SingleThread.Runtime Q V) (r r' : SingleThread.TaskId) (now t₁ t₂ timeout : ℕ),
      Run (SingleThread.State.system Q V) ⟨rt, .process r⟩ (SingleThread.toReactor now t₁ t₂)
        ⟨rt', .reactorPoll r' timeout⟩ →
      ∀ e ∈ Q.elems rt'.timers.heap,
      (∀ e' ∈ Q.elems rt'.timers.heap, e.deadline ≤ e'.deadline) →
      e.deadline - now < Time.Duration.range →
      now < e.deadline ∧ timeout = e.deadline - now ∧ Conversion timeout ∧
      ∀ (ws : List SingleThread.Waker) (t₃ t₄ : ℕ) (s₃ s₄ : SingleThread.State Q V),
        SingleThread.State.step ⟨rt', .reactorPoll r' timeout⟩ ⟨t₃, .reactor ws⟩ = some s₃ →
        s₃.step ⟨t₄, .go⟩ = some s₄ → Waited timeout t₂ t₃ →
        s₃.pc = .processAgain r' ∧ e.id ∈ (s₃.rt.timers.process t₄).1.1 ∧
          (s₄.rt.timers.state e.id).completed = true) ∧
    ∀ (n m : ℕ) (c : Config (MultiThread.Shared V) (MultiThread.Frame V)),
      MultiThread.Reachable n m c →
      ∀ now timeout, MultiThread.atDrive (.epollWait now timeout) ∈ c.frames →
      ∀ e ∈ c.shared.heap, (∀ e' ∈ c.shared.heap, e.deadline ≤ e'.deadline) →
      e.deadline - now < Time.Duration.range →
      now < e.deadline ∧ timeout = e.deadline - now ∧ Conversion timeout ∧
      ∀ c₁, (MultiThread.machine V).Reaches c c₁ →
        c₁.shared.timerHist.processed = c.shared.timerHist.processed →
        ∀ i known t : ℕ, Waited timeout now t →
        (c₁.top i = some (MultiThread.atDrive (.process true (.loop known t))) →
          e ∈ c₁.shared.heap → ∃ j e' c', (MultiThread.machine V).step c₁ i (.pick j) = some c' ∧
            e'.deadline ≤ t ∧
            c'.top i = some (MultiThread.atDrive (.process true (.complete known t e')))) ∧
        ∀ x c₂, (MultiThread.machine V).step c₁ i x = some c₂ →
          c₂.shared.timerHist.processed = (known, t) :: c.shared.timerHist.processed →
          c₁.top i = some (MultiThread.atDrive (.process true (.loop known t))) ∧
            e.id ∉ c.shared.timerHist.fired ∧ e.id ∈ c₂.shared.timerHist.fired := by
  constructor
  · intro rt rt' r r' now t₁ t₂ timeout hr e he hmin hrange
    obtain ⟨hlt, htimeout⟩ := SingleThread.timeout_eq hr he hmin
    obtain ⟨hstart, -⟩ := SingleThread.reactorPoll_cases hr
    refine ⟨hlt, htimeout, htimeout ▸ conversion (Nat.sub_pos_of_lt hlt) hrange, ?_⟩
    intro ws t₃ t₄ s₃ s₄ hs₃ hs₄ hwaited
    exact SingleThread.processAgain_fires he hs₃ hs₄ (hwaited.deadline_le htimeout hstart)
  · intro n m c hc now timeout hwait e he hmin hrange
    obtain ⟨hlt, htimeout⟩ := MultiThread.timeout_eq hc hwait he hmin
    refine ⟨hlt, htimeout, htimeout ▸ conversion (Nat.sub_pos_of_lt hlt) hrange, ?_⟩
    intro c₁ h hproc i known t hwaited
    have hdl := hwaited.deadline_le htimeout (Nat.le_refl now)
    refine ⟨fun htop he₁ => MultiThread.loop_pops htop he₁ hdl, fun x c₂ hs hret => ?_⟩
    obtain ⟨htop, hfires⟩ := MultiThread.processAgain_fires hc hwait he h hproc hs hret
    exact ⟨htop, hfires hdl⟩

/-- A timer that is due after two and a half milliseconds. Each runtime waits for three, and fires
it. -/
theorem deadlines_survive_rounded :
    (∃ (rt rt' : SingleThread.Runtime (sortedList Timer.cmp) Unit)
        (s₃ s₄ : SingleThread.State (sortedList Timer.cmp) Unit),
      Run (SingleThread.State.system (sortedList Timer.cmp) Unit) ⟨rt, .process 0⟩
        (SingleThread.toReactor 0 0 0) ⟨rt', .reactorPoll 0 2500000⟩ ∧
      SingleThread.State.step ⟨rt', .reactorPoll 0 2500000⟩ ⟨3000000, .reactor []⟩ = some s₃ ∧
      s₃.step ⟨3000000, .go⟩ = some s₄ ∧ waitMs 2500000 = 3 ∧ Conversion 2500000 ∧
      0 ∈ (s₃.rt.timers.process 3000000).1.1) ∧
    ∃ c c₁ c₂ : Config (MultiThread.Shared Unit) (MultiThread.Frame Unit),
      c.top 0 = some (MultiThread.atDrive (.epollWait 0 2500000)) ∧
      (MultiThread.machine Unit).Reaches c c₁ ∧
      (MultiThread.machine Unit).step c₁ 0 .go = some c₂ ∧ Conversion 2500000 ∧
      0 ∉ c.shared.timerHist.fired ∧ 0 ∈ c₂.shared.timerHist.fired := by
  have hwaited : Waited 2500000 0 3000000 := by decide
  constructor
  · -- the wheel holds the timer
    let rt : SingleThread.Runtime (sortedList Timer.cmp) Unit :=
      { SingleThread.Runtime.new (sortedList Timer.cmp) Unit with
        timers := (SingleThread.TimerWheel.new.register 2500000).2 }
    obtain ⟨⟨rt', pc⟩, hsteps, hrest⟩ := (Option.any_eq_true _ _).mp (show
      (List.foldlM SingleThread.State.step (⟨rt, .process 0⟩ : SingleThread.State _ Unit)
        [⟨0, .go⟩, ⟨0, .go⟩, ⟨0, .go⟩]).any (fun s => decide (s.pc = .reactorPoll 0 2500000 ∧
          (sortedList Timer.cmp).elems s.rt.timers.heap = {⟨2500000, 0⟩}) &&
            (s.step ⟨3000000, .reactor []⟩).any fun s₃ => (s₃.step ⟨3000000, .go⟩).isSome) = true
      by decide)
    rw [Bool.and_eq_true, decide_eq_true_eq] at hrest
    obtain ⟨⟨rfl, helems⟩, hrest⟩ := hrest
    obtain ⟨s₃, hs₃, hrest⟩ := (Option.any_eq_true _ _).mp hrest
    obtain ⟨s₄, hs₄⟩ := Option.isSome_iff_exists.mp hrest
    have hr : Run (SingleThread.State.system (sortedList Timer.cmp) Unit) ⟨rt, .process 0⟩
        (SingleThread.toReactor 0 0 0) ⟨rt', .reactorPoll 0 2500000⟩ := run_of_foldlM hsteps
    obtain ⟨-, -, hconv, hfires⟩ := (deadlines_survive (sortedList Timer.cmp) Unit).1 rt rt' 0 0
      0 0 0 2500000 hr ⟨2500000, 0⟩ (by simp [helems]) (by simp [helems]) (by decide)
    exact ⟨rt, rt', s₃, s₄, hr, hs₃, hs₄, by decide, hconv,
      (hfires [] 3000000 3000000 s₃ s₄ hs₃ hs₄ hwaited).2.1⟩
  · obtain ⟨c, hc, htop, hheap, hrest⟩ := MultiThread.exists_reachable 1 1
      [(1, .call (.sleep 2500000)), (1, .now 0), (1, .go), (1, .go),
        (0, .go), (0, .go), (0, .go), (0, .go), (0, .go), (0, .now 0), (0, .pick 0), (0, .go)]
      (fun c : Config (MultiThread.Shared Unit) (MultiThread.Frame Unit) =>
        c.top 0 = some (MultiThread.atDrive (.epollWait 0 2500000)) ∧
        c.shared.heap = [⟨2500000, 0⟩] ∧
        (((MultiThread.machine Unit).run (fun _ _ _ => True) c
          [(0, .epoll true []), (0, .go), (0, .go), (0, .go), (0, .now 3000000), (0, .pick 0),
            (0, .go), (0, .go), (0, .go)]).any fun c₁ =>
          decide (c₁.shared.timerHist.processed = c.shared.timerHist.processed) &&
          ((MultiThread.machine Unit).step c₁ 0 .go).any fun c₂ =>
            decide (c₂.shared.timerHist.processed =
              (1, 3000000) :: c.shared.timerHist.processed)) = true)
      (by decide)
    obtain ⟨c₁, hrun, hrest⟩ := (Option.any_eq_true _ _).mp hrest
    rw [Bool.and_eq_true, decide_eq_true_eq] at hrest
    obtain ⟨hproc, hrest⟩ := hrest
    obtain ⟨c₂, hs, hret⟩ := (Option.any_eq_true _ _).mp hrest
    have hreach : (MultiThread.machine Unit).Reaches c c₁ := Machine.reachesVia_of_run hrun
    obtain ⟨-, -, hconv, hfires⟩ := (deadlines_survive (sortedList Timer.cmp) Unit).2 1 1 c hc
      0 2500000 (mem_frames_of_top htop) ⟨2500000, 0⟩ (by simp [hheap]) (by simp [hheap])
      (by decide)
    obtain ⟨-, hbefore, hafter⟩ := (hfires c₁ hreach hproc 0 1 3000000 hwaited).2 .go c₂ hs
      (of_decide_eq_true hret)
    exact ⟨c, c₁, c₂, htop, hreach, hs, hconv, hbefore, hafter⟩

end MiniAsync
