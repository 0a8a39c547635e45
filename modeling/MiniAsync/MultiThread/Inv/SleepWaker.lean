/-
  The runtime keeps the state of every timer whose `Sleep` is polled by one
  thread at a time: seen from one timer, each step of the machine is a step of
  `SleepCell`. The flag of a timer is set by one driver only (`Inv/Timers`), and
  a driver goes on only when its call of `AtomicWaker::wake` has returned, with the
  call of the waker that this has made.
-/
import MiniAsync.Interleave.Roles
import MiniAsync.Interleave.Stack
import MiniAsync.MultiThread.Inv.Timers
import MiniAsync.MultiThread.Inv.SleepCell

namespace MiniAsync.MultiThread

open Interleave

variable {V : Type}

/-! ### One timer in the runtime -/

/-- What the runtime knows of the timer `k`. -/
def cellView (k : ℕ) (sh : Shared V) : SleepCell.View where
  registered := decide (k < sh.timerCount)
  timer := sh.timer k
  hist := sh.sleepHist k

/-- What a thread does with a timer, and with which. -/
def Frame.cellRole : Frame V → Option (ℕ × SleepCell.Role)
  | .pollSleep k w pc => some (k, .polling w pc)
  | .fire k pc => some (k, .firing pc)
  | .wakerWake w fired => fired.map fun q => (q.1, .calling ⟨w, q.2⟩)
  | .wake x _ fired _ => fired.map fun q => (q.1, .calling ⟨.task x, q.2⟩)
  | _ => none

section Step

variable {i : ℕ} {sh sh' : Shared V} {f : Frame V} {fs : List (Frame V)}

theorem cellRole_baseFrame (k : ℕ) (p : Option TaskId) :
    rolesOf Frame.cellRole k [(baseFrame p : Frame V)] = [] := by
  cases p <;> rfl

theorem cell_stutter {k : ℕ} (hv : cellView k sh' = cellView k sh)
    (hr : rolesOf Frame.cellRole k fs = rolesOf Frame.cellRole k [f]) :
    SleepCell.Step (cellView k sh) (rolesOf Frame.cellRole k [f]) (cellView k sh')
      (rolesOf Frame.cellRole k fs) :=
  step_stutter .stutter hv hr

theorem Frame.eq_of_polling {k : ℕ} {w : PollWaker} {pc : TimerState.PollPc}
    (h : f.cellRole = some (k, .polling w pc)) : f = .pollSleep k w pc := by
  cases f with
  | pollSleep j w' pc' =>
    cases h
    rfl
  | wakerWake w' t | wake x b t pc' =>
    obtain ⟨q, -, hq⟩ := Option.map_eq_some_iff.mp h
    cases hq
  | _ => cases h

/-- A step that a thread makes on the timer `j`, seen from a timer `k`. -/
theorem cell_of_self {j k : ℕ} {r : SleepCell.Role} {v : SleepCell.View} {rs : List SleepCell.Role}
    (hf : f.cellRole = some (j, r)) (h : SleepCell.Step (cellView j sh) [r] v rs)
    (hv : cellView j sh' = v) (hr : rolesOf Frame.cellRole j fs = rs)
    (hv' : k ≠ j → cellView k sh' = cellView k sh)
    (hr' : k ≠ j → rolesOf Frame.cellRole k fs = []) :
    SleepCell.Step (cellView k sh) (rolesOf Frame.cellRole k [f]) (cellView k sh')
      (rolesOf Frame.cellRole k fs) := by
  refine step_of_self .stutter hf hv' hr' ?_
  rw [hv, hr]
  exact h

theorem cellView_of_eq {k : ℕ} (hc : sh'.timerCount = sh.timerCount)
    (ht : sh'.timer k = sh.timer k) (hh : sh'.sleepHist k = sh.sleepHist k) :
    cellView k sh' = cellView k sh := by
  rw [cellView, cellView, hc, ht, hh]

/-- The call of a waker returns. -/
theorem cell_called {k : ℕ} {w : Waker} {t : Option (ℕ × ℕ)}
    (hf : f.cellRole = t.map fun q => (q.1, .calling ⟨w, q.2⟩))
    (hv : ∀ k, cellView k sh' = cellView k (sh.sleepWoken w t)) :
    SleepCell.Step (cellView k sh) (rolesOf Frame.cellRole k [f]) (cellView k sh')
      (rolesOf Frame.cellRole k ([] : List (Frame V))) := by
  cases t with
  | none =>
    refine cell_stutter (hv k) ?_
    simp [rolesOf, roleOf, show f.cellRole = none from hf]
  | some q =>
    obtain ⟨j, p⟩ := q
    refine cell_of_self hf (.called (cellView j sh) ⟨w, p⟩) ?_ rfl (fun hne => ?_) fun _ => rfl
    · rw [hv j]
      exact SleepCell.View.ext rfl rfl (by simp [cellView, Shared.sleepWoken])
    · rw [hv k]
      exact cellView_of_eq rfl rfl (by simp [Shared.sleepWoken, hne])

/-- **Simulation**: for every timer, a step of the runtime is a step of `SleepCell`, given that
the flag of a timer is set once. -/
theorem Exec.sleepCell (h : Exec i sh f sh' fs) (k : ℕ)
    (hcomp : ∀ again known now e, f = atDrive (.process again (.complete known now e)) →
      e.id < sh.timerCount ∧ (sh.timer e.id).completed = false) :
    SleepCell.Step (cellView k sh) (rolesOf Frame.cellRole k [f]) (cellView k sh')
      (rolesOf Frame.cellRole k fs) := by
  cases h
  case callPollSleep p j w hj hw =>
    have hroles : ∀ k, rolesOf Frame.cellRole k
        [(.pollSleep j ⟨w, (sh.sleepHist j).polls⟩ .load : Frame V), baseFrame p]
          = rolesOf Frame.cellRole k
              [(.pollSleep j ⟨w, (sh.sleepHist j).polls⟩ .load : Frame V)] := by
      intro k
      rw [rolesOf_cons, cellRole_baseFrame, List.append_nil]
    rcases eq_or_ne k j with rfl | hne
    · have hv : cellView k (sh.modifySleep k fun h => { h with polls := h.polls + 1 })
          = { cellView k sh with
              hist := { (cellView k sh).hist with polls := (cellView k sh).hist.polls + 1 } } :=
        SleepCell.View.ext rfl rfl (by simp [cellView, Shared.modifySleep])
      rw [hroles, cellRole_baseFrame, rolesOf_self Frame.cellRole rfl, hv]
      exact .call (cellView k sh) w (decide_eq_true hj)
    · refine cell_stutter (cellView_of_eq rfl rfl (by simp [Shared.modifySleep, hne])) ?_
      rw [hroles, cellRole_baseFrame, rolesOf_of_ne Frame.cellRole hne rfl]
  case sleepRegister d =>
    rcases eq_or_ne k sh.timerCount with rfl | hne
    · have hnew : cellView sh.timerCount { sh with
            inbox := sh.inbox ++ [⟨d, sh.timerCount⟩]
            timer := Function.update sh.timer sh.timerCount TimerState.new
            sleepHist := Function.update sh.sleepHist sh.timerCount SleepHist.blank
            timerCount := sh.timerCount + 1
            timerHist := { sh.timerHist with
              registered := sh.timerHist.registered ++ [⟨d, sh.timerCount⟩] } }
          = ⟨true, TimerState.new, SleepHist.blank⟩ := by
        simp [cellView]
      rw [hnew]
      exact .create _ (decide_eq_false (Nat.lt_irrefl _))
    · refine cell_stutter ?_ rfl
      have hlt : decide (k < sh.timerCount + 1) = decide (k < sh.timerCount) :=
        decide_eq_decide.mpr ⟨fun h => Nat.lt_of_le_of_ne (Nat.le_of_lt_succ h) hne,
          Nat.lt_succ_of_lt⟩
      exact SleepCell.View.ext hlt (by simp [cellView, hne]) (by simp [cellView, hne])
  case complete again known now e =>
    obtain ⟨hlt, hflag⟩ := hcomp again known now e rfl
    rcases eq_or_ne k e.id with rfl | hne
    · change SleepCell.Step _ [] _ (rolesOf Frame.cellRole e.id [.fire e.id .cas])
      rw [rolesOf_self Frame.cellRole rfl]
      have hstep := SleepCell.Step.complete (cellView e.id sh) (decide_eq_true hlt) hflag
      simpa [cellView] using hstep
    · refine cell_stutter (cellView_of_eq rfl (by simp [hne]) rfl) ?_
      exact rolesOf_of_ne Frame.cellRole (f := .fire e.id .cas) hne rfl
  case pollSleep j w pc pc' spurious st h =>
    exact cell_of_self rfl (SleepCell.step_poll (cellView j sh) h)
      (SleepCell.View.ext rfl (by simp [cellView]) rfl) (rolesOf_self Frame.cellRole rfl)
      (fun hne => cellView_of_eq rfl (by simp [hne]) rfl)
      (fun hne => rolesOf_of_ne Frame.cellRole hne rfl)
  case pollSleepRet j w pc spurious st r h =>
    exact cell_of_self rfl (SleepCell.step_pollRet (cellView j sh) h)
      (SleepCell.View.ext rfl (by simp [cellView, Shared.modifySleep])
        (by simp [cellView, Shared.modifySleep])) rfl
      (fun hne => cellView_of_eq rfl (by simp [Shared.modifySleep, hne])
        (by simp [Shared.modifySleep, hne]))
      (fun _ => rfl)
  case fire j pc pc' spurious cell h =>
    exact cell_of_self rfl (SleepCell.step_fire (cellView j sh) h)
      (SleepCell.View.ext rfl (by simp [cellView, Shared.setTimerWaker]) rfl)
      (rolesOf_self Frame.cellRole rfl)
      (fun hne => cellView_of_eq rfl (by simp [Shared.setTimerWaker, hne]) rfl)
      (fun hne => rolesOf_of_ne Frame.cellRole hne rfl)
  case fireNone j pc spurious cell h =>
    exact cell_of_self rfl (SleepCell.step_fireNone (cellView j sh) h)
      (SleepCell.View.ext rfl (by simp [cellView, Shared.setTimerWaker, Shared.modifySleep])
        (by simp [cellView, Shared.setTimerWaker, Shared.modifySleep])) rfl
      (fun hne => cellView_of_eq rfl (by simp [Shared.setTimerWaker, Shared.modifySleep, hne])
        (by simp [Shared.setTimerWaker, Shared.modifySleep, hne]))
      (fun _ => rfl)
  case fireWake j pc spurious cell w h =>
    exact cell_of_self rfl (SleepCell.step_fireWake (cellView j sh) h)
      (SleepCell.View.ext rfl (by simp [cellView, Shared.setTimerWaker]) rfl)
      (rolesOf_self Frame.cellRole rfl)
      (fun hne => cellView_of_eq rfl (by simp [Shared.setTimerWaker, hne]) rfl)
      (fun hne => rolesOf_of_ne Frame.cellRole hne rfl)
  case wakeOther | loadWoken | wakeRunning | wakeRet => exact cell_called rfl fun _ => rfl
  all_goals exact .stutter _ _

/-! ### The end of a firing -/

/-- The thread fires the timer `k`: it is in the call of `AtomicWaker::wake`, or in that of the
waker. -/
def Frame.Fires (k : ℕ) (f : Frame V) : Prop :=
  ∃ r, f.cellRole = some (k, r) ∧ SleepCell.fires r = 1

/-- What is above the frame of a driver that fires a timer: the firing, or it has ended. -/
def FiringAbove (sh : Shared V) (o : Option (Frame V)) : Frame V → Prop
  | .worker (.driveIo (.process _ (.fired _ _ e))) =>
    (∃ g, o = some g ∧ g.Fires e.id) ∨ (sh.sleepHist e.id).ended = true
  | _ => True

theorem ended_sleepWoken {k : ℕ} (w : Waker) (t : Option (ℕ × ℕ))
    (he : (sh.sleepHist k).ended = true) : ((sh.sleepWoken w t).sleepHist k).ended = true := by
  cases t with
  | none => exact he
  | some q =>
    rcases eq_or_ne k q.1 with rfl | hne
    · simp [Shared.sleepWoken]
    · simpa [Shared.sleepWoken, hne] using he

/-- The call of the waker that a firing makes ends the firing. -/
theorem Frame.Fires.ended {k : ℕ} {w : Waker} {t : Option (ℕ × ℕ)} (h : f.Fires k)
    (hf : f.cellRole = t.map fun q => (q.1, .calling ⟨w, q.2⟩)) :
    ((sh.sleepWoken w t).sleepHist k).ended = true := by
  obtain ⟨r, hr, -⟩ := h
  obtain ⟨q, rfl, hq⟩ := Option.map_eq_some_iff.mp (hf.symm.trans hr)
  cases hq
  simp [Shared.sleepWoken]

theorem Exec.ended_mono (h : Exec i sh f sh' fs) {k : ℕ} (hk : k < sh.timerCount)
    (he : (sh.sleepHist k).ended = true) : (sh'.sleepHist k).ended = true := by
  cases h
  case sleepRegister d => simpa [Nat.ne_of_lt hk] using he
  case callPollSleep p j w _ _ | pollSleepRet j w pc spurious st r _ =>
    rcases eq_or_ne k j with rfl | hne
    · simpa [Shared.modifySleep] using he
    · simpa [Shared.modifySleep, hne] using he
  case fireNone j pc spurious cell _ =>
    rcases eq_or_ne k j with rfl | hne
    · simp [Shared.modifySleep]
    · simpa [Shared.modifySleep, Shared.setTimerWaker, hne] using he
  case wakeOther | loadWoken | wakeRunning | wakeRet => exact ended_sleepWoken _ _ he
  all_goals exact he

/-- A firing goes on until it has ended. -/
theorem Exec.fires_cont (h : Exec i sh f sh' fs) {k : ℕ} (hf : f.Fires k) :
    (∃ g, fs.getLast? = some g ∧ g.Fires k) ∨ (sh'.sleepHist k).ended = true := by
  cases h
  case fire | fireWake =>
    obtain ⟨r, hr, -⟩ := hf
    cases hr
    exact Or.inl ⟨_, rfl, _, rfl, rfl⟩
  case fireNone =>
    obtain ⟨r, hr, -⟩ := hf
    cases hr
    exact Or.inr (by simp [Shared.modifySleep])
  case wakeTask | loadIdle | loadRunning | retryIdle | retryRunning | wakeIdle =>
    exact Or.inl ⟨_, rfl, hf⟩
  case wakeOther | loadWoken | wakeRunning | wakeRet => exact Or.inr (hf.ended rfl)
  case pollSleep | pollSleepRet =>
    obtain ⟨r, hr, hone⟩ := hf
    cases hr
    cases hone
  case callSpawn p | callBlockOn p | callShutdown p | callSleep p _ | callWake p _ _ =>
    obtain ⟨r, hr, -⟩ := hf
    cases p <;> cases hr
  case callPollSleep p _ _ _ _ | joinReady p _ _ _ _ _ _ _ | joinPending p _ _ _ _ _ _ _ =>
    obtain ⟨r, hr, -⟩ := hf
    cases p <;> cases hr
  all_goals
    obtain ⟨r, hr, -⟩ := hf
    cases hr

theorem Exec.firing_linked (h : Exec i sh f sh' fs) : Linked (FiringAbove sh') none fs := by
  cases h
  case complete again known now e => exact ⟨trivial, Or.inl ⟨_, rfl, _, rfl, rfl⟩, trivial⟩
  case callSpawn p | callShutdown p | callSleep p _ | callWake p _ _ | callPollSleep p _ _ _ _ =>
    cases p <;> exact ⟨trivial, trivial, trivial⟩
  case callBlockOn p => cases p <;> exact ⟨trivial, trivial, trivial, trivial⟩
  case joinReady p _ _ _ _ _ _ _ | joinPending p _ _ _ _ _ _ _ =>
    cases p <;> exact ⟨trivial, trivial⟩
  all_goals first
    | exact ⟨trivial, trivial⟩
    | exact trivial
    | exact ⟨trivial, trivial, trivial⟩

theorem firingAbove_cases (sh : Shared V) (o : Option (Frame V)) (g : Frame V) :
    FiringAbove sh o g ∨
      ∃ again known now e, g = atDrive (.process again (.fired known now e)) := by
  cases g with
  | worker pc =>
    cases pc with
    | driveIo pc =>
      cases pc with
      | process again pc =>
        cases pc with
        | fired known now e => exact Or.inr ⟨again, known, now, e, rfl⟩
        | _ => exact Or.inl trivial
      | _ => exact Or.inl trivial
    | _ => exact Or.inl trivial
  | _ => exact Or.inl trivial

end Step

section Run

variable {n m : ℕ} {c : Config (Shared V) (Frame V)}

/-- A driver that is about to set the flag of a timer finds it clear. -/
theorem Reachable.complete_flag (h : Reachable n m c) {again : Bool} {known now : ℕ}
    {e : TimerEntry} (hf : atDrive (.process again (.complete known now e)) ∈ c.frames) :
    e.id < c.shared.timerCount ∧ (c.shared.timer e.id).completed = false := by
  obtain ⟨hW, hok⟩ := h.timerOk
  obtain ⟨-, hreg, -⟩ := hok _ hf
  have hlt := hW.id_lt hreg
  refine ⟨hlt, ?_⟩
  obtain ⟨R, hF⟩ := Multiset.exists_cons_of_mem hf
  -- the timer is in this driver's hands and nowhere else
  have hplace := h.timer_place e.id
  have hcompl := h.timer_completions e.id
  have hle := weigh_le_weigh (hasCompleted_le_fires e.id) R
  rw [hF, weigh_cons, if_pos hlt] at hplace
  rw [hF, weigh_cons] at hcompl
  simp only [fires, hasCompleted, if_true] at hplace hcompl
  have hzero : ¬ 0 < completions e.id c.shared := by omega
  by_contra hflag
  exact hzero ((h.timer_flag e.id).mp (by simpa using hflag))

theorem Reachable.firing_lt (h : Reachable n m c) {again : Bool} {known now : ℕ}
    {e : TimerEntry} (hf : atDrive (.process again (.fired known now e)) ∈ c.frames) :
    e.id < c.shared.timerCount := by
  obtain ⟨hW, hok⟩ := h.timerOk
  obtain ⟨-, hreg, -⟩ := hok _ hf
  exact hW.id_lt hreg

/-- A driver that fires a timer is beneath the firing until that has ended. -/
theorem Reachable.firingAbove (h : Reachable n m c) :
    ∀ st ∈ c.threads, Linked (FiringAbove c.shared) none st := by
  refine Machine.ReachesVia.stack_invariant h ?_ ?_
  · intro st hst
    rcases List.mem_append.mp hst with hst | hst <;> obtain rfl := List.eq_of_mem_replicate hst <;>
      exact ⟨trivial, trivial⟩
  · intro c c' i x f fs R hc _ _ hF _ hexec _
    have hex : Exec i c.shared f c'.shared fs := exec_cases hexec
    have hc : Reachable n m c := hc
    have hlt : ∀ {again known now e}, atDrive (.process again (.fired known now e)) ∈ R →
        e.id < c.shared.timerCount := fun hg =>
      hc.firing_lt (hF ▸ Multiset.mem_cons_of_mem hg)
    refine ⟨hex.firing_linked, fun g hg hb => ?_, fun o g hg hb => ?_⟩
    · rcases firingAbove_cases c'.shared fs.getLast? g with htriv | ⟨again, known, now, e, rfl⟩
      · exact htriv
      · rcases hb with ⟨g, heq, hg'⟩ | he
        · exact hex.fires_cont (Option.some.inj heq ▸ hg')
        · exact Or.inr (hex.ended_mono (hlt hg) he)
    · rcases firingAbove_cases c'.shared o g with htriv | ⟨again, known, now, e, rfl⟩
      · exact htriv
      · exact hb.imp_right (hex.ended_mono (hlt hg))

theorem Exec.fired_cases {i : ℕ} {sh sh' : Shared V} {f : Frame V} {fs : List (Frame V)}
    (h : Exec i sh f sh' fs) {k : ℕ} (hk : k ∈ sh'.timerHist.fired) :
    k ∈ sh.timerHist.fired ∨
      ∃ again known now e, f = atDrive (.process again (.fired known now e)) ∧ e.id = k := by
  cases h
  case fired again known now e =>
    rcases List.mem_cons.mp hk with rfl | hk
    · exact Or.inr ⟨again, known, now, e, rfl, rfl⟩
    · exact Or.inl hk
  all_goals exact Or.inl hk

theorem Reachable.fired_lt (h : Reachable n m c) {k : ℕ} (hk : k ∈ c.shared.timerHist.fired) :
    k < c.shared.timerCount := by
  have hplace := h.timer_place k
  have hpos := List.count_pos_iff.mpr hk
  by_contra hge
  rw [if_neg hge] at hplace
  omega

/-- A timer is fired when the call of `AtomicWaker::wake` and that of the waker have ended. -/
theorem Reachable.fired_ended (h : Reachable n m c) {k : ℕ}
    (hk : k ∈ c.shared.timerHist.fired) : (c.shared.sleepHist k).ended = true := by
  refine Machine.ReachesVia.frame_invariant h
    (I := fun sh _ => k ∈ sh.timerHist.fired → (sh.sleepHist k).ended = true)
    (fun hk => nomatch hk) ?_ hk
  intro c c' i x f fs R hc _ _ htop hF _ hexec hI hk
  have hc : Reachable n m c := hc
  have hex : Exec i c.shared f c'.shared fs := exec_cases hexec
  rcases hex.fired_cases hk with hk | ⟨again, known, now, e, rfl, rfl⟩
  · exact hex.ended_mono (hc.fired_lt hk) (hI hk)
  · have hlt := hc.firing_lt (hF ▸ Multiset.mem_cons_self _ R)
    rcases linked_of_top hc.firingAbove htop with ⟨g, heq, -⟩ | he
    · cases heq
    · exact hex.ended_mono hlt he

end Run

/-! ### Polls one after the other -/

section Serial

variable {i : ℕ} {sh sh' : Shared V} {f : Frame V} {fs : List (Frame V)} {ch : Choice V}

/-- The thread is in a poll of the `Sleep` of the timer `k`. -/
def Frame.pollsTimer (k : ℕ) : Frame V → Bool
  | .pollSleep j _ _ => decide (j = k)
  | _ => false

/-- The step begins a poll of the `Sleep` of the timer `k` while another one is under way, which
the exclusive borrow of the `Sleep` rules out. -/
def Overlaps (k : ℕ) (c : Config (Shared V) (Frame V)) : Choice V → Prop
  | .call (.pollSleep j _) => j = k ∧ ∃ f ∈ c.frames, f.pollsTimer k = true
  | _ => False

instance (k : ℕ) (c : Config (Shared V) (Frame V)) :
    (ch : Choice V) → Decidable (Overlaps k c ch)
  | .call (.pollSleep _ _) =>
    @instDecidableAnd _ _ inferInstance Multiset.decidableExistsMultiset
  | .call .spawn | .call .blockOn | .call (.sleep _) | .call .shutdown => isFalse id
  | .call (.wake _) | .call (.pollJoin _ _) => isFalse id
  | .go | .spurious | .pick _ | .now _ | .epoll _ _ | .ret _ => isFalse id

theorem Exec.load_cases (h : Exec i sh f sh' fs) {k : ℕ} {w : PollWaker}
    (hmem : .pollSleep k w .load ∈ fs) : ∃ p, f = baseFrame p := by
  cases h
  case callSpawn p | callBlockOn p | callShutdown p | callSleep p _ | callWake p _ _ =>
    exact ⟨p, rfl⟩
  case callPollSleep p _ _ _ _ | joinReady p _ _ _ _ _ _ _ | joinPending p _ _ _ _ _ _ _ =>
    exact ⟨p, rfl⟩
  case pollSleep j w' pc pc' spurious st h =>
    cases List.mem_singleton.mp hmem
    exact absurd (congrArg Prod.snd h) (TimerState.poll_ne_load _ _ _ _)
  all_goals simp at hmem

theorem userCall_load {p : Option TaskId} {op : Call} (h : userCall sh p op = some (sh', fs))
    {k : ℕ} {w : PollWaker} (hmem : .pollSleep k w .load ∈ fs) : ∃ w', op = .pollSleep k w' := by
  cases op with
  | spawn | blockOn | sleep | shutdown =>
    cases h
    simp at hmem
  | wake | pollJoin =>
    simp only [userCall] at h
    split_ifs at h
    cases h
    simp at hmem
  | pollSleep j w' =>
    simp only [userCall] at h
    split_ifs at h
    cases h
    cases List.mem_singleton.mp hmem
    exact ⟨w', rfl⟩

/-- A poll begins only where code outside of the runtime calls it. -/
theorem exec_load (h : exec i sh f ch = some (sh', fs)) {k : ℕ} {w : PollWaker}
    (hmem : .pollSleep k w .load ∈ fs) : ∃ w', ch = .call (.pollSleep k w') := by
  obtain ⟨p, rfl⟩ := (exec_cases h).load_cases hmem
  cases ch with
  | call op =>
    obtain ⟨gs, hr, rfl⟩ := exec_call h
    have hgs : .pollSleep k w .load ∈ gs := by
      rcases List.mem_append.mp hmem with hgs | hbase
      · exact hgs
      · cases p <;> cases List.mem_singleton.mp hbase
    obtain ⟨w', rfl⟩ := userCall_load hr hgs
    exact ⟨w', rfl⟩
  | ret r =>
    cases p with
    | none => cases h
    | some x => cases r <;> cases h <;> simp at hmem
  | _ => cases p <;> cases h

theorem weigh_polls_eq_zero {k : ℕ} {F : Multiset (Frame V)}
    (h : ¬ ∃ f ∈ F, f.pollsTimer k = true) :
    weigh SleepCell.polls (allRoles Frame.cellRole k F) = 0 := by
  refine (weigh_eq_zero_iff _ _).mpr fun r hr => ?_
  obtain ⟨f, hf, hrole⟩ := mem_allRoles.mp hr
  cases f with
  | pollSleep j w pc =>
    cases hrole
    exact absurd ⟨_, hf, by simp [Frame.pollsTimer]⟩ h
  | fire j pc =>
    cases hrole
    rfl
  | wakerWake w t | wake x b t pc =>
    obtain ⟨q, -, hq⟩ := Option.map_eq_some_iff.mp hrole
    cases hq
    rfl
  | _ => cases hrole

/-- **The runtime keeps the state of a timer**, over every run in which its `Sleep` is polled by
one thread at a time. -/
theorem serial_inv {n m k : ℕ} {c : Config (Shared V) (Frame V)}
    (h : (machine V).ReachesVia (fun d _ ch => ¬ Overlaps k d ch) (start V n m) c) :
    weigh SleepCell.polls (allRoles Frame.cellRole k c.frames) ≤ 1 ∧
      SleepCell.Inv (cellView k c.shared) (allRoles Frame.cellRole k c.frames) := by
  refine h.frame_invariant
    (I := fun sh F => weigh SleepCell.polls (allRoles Frame.cellRole k F) ≤ 1 ∧
      SleepCell.Inv (cellView k sh) (allRoles Frame.cellRole k F)) ?_ ?_
  · have hnone : allRoles Frame.cellRole k (start V n m).frames = 0 := by
      refine Multiset.eq_zero_of_forall_notMem fun r hr => ?_
      obtain ⟨f, hf, hrole⟩ := mem_allRoles.mp hr
      rw [start_frames, Multiset.mem_add] at hf
      rcases hf with hf | hf <;> cases Multiset.eq_of_mem_replicate hf <;> cases hrole
    rw [hnone]
    exact ⟨Nat.zero_le 1, SleepCell.inv_new _⟩
  · rintro c c' i ch f fs R hc - hserial - hF - hexec ⟨hpolls, hI⟩
    have hc : Reachable n m c := hc
    have hmem : f ∈ c.frames := hF ▸ Multiset.mem_cons_self f R
    have hstep := (exec_cases hexec).sleepCell k fun again known now e hf =>
      hc.complete_flag (hf ▸ hmem)
    rw [allRoles_cons] at hpolls hI
    rw [allRoles_add]
    -- a poll is added only where none is under way
    have hpolls' : weigh SleepCell.polls (↑(rolesOf Frame.cellRole k fs) +
        allRoles Frame.cellRole k R) ≤ 1 := by
      rcases hstep.polls_cases with hle | ⟨w, heq⟩
      · rw [weigh_coe_add] at hpolls ⊢
        omega
      · have hmem : SleepCell.Role.polling w .load ∈ rolesOf Frame.cellRole k fs := by
          rw [heq]
          exact List.mem_singleton_self _
        obtain ⟨g, hg, hrole⟩ := mem_rolesOf.mp hmem
        obtain rfl := Frame.eq_of_polling hrole
        obtain ⟨w', rfl⟩ := exec_load hexec hg
        have hzero := weigh_polls_eq_zero fun hex => hserial ⟨rfl, hex⟩
        rw [hF, allRoles_cons, weigh_coe_add] at hzero
        rw [heq, weigh_coe_add]
        simp only [List.map_cons, List.map_nil, List.sum_cons, List.sum_nil, SleepCell.polls]
        omega
    exact ⟨hpolls', hstep.inv _ hpolls hpolls' hI⟩

end Serial

/-! ### No wake-up is lost -/

section NoLostWakeUp

/-- The thread is in a section of `register` or of `wake` that it has claimed by WAKING. -/
def Frame.inClaim (k : ℕ) : Frame V → Bool
  | .pollSleep j _ (.register .write) | .pollSleep j _ (.register .store) => decide (j = k)
  | .fire j .take | .fire j (.store _) => decide (j = k)
  | _ => false

/-- The number of threads in a claimed section of the timer `k`. -/
def claimers (k : ℕ) (F : Multiset (Frame V)) : ℕ := F.countP fun f => f.inClaim k = true

theorem claims_rolesOf (k : ℕ) (f : Frame V) :
    ((rolesOf Frame.cellRole k [f]).map SleepCell.claims).sum
      = if f.inClaim k = true then 1 else 0 := by
  cases f with
  | pollSleep j w pc =>
    rcases eq_or_ne k j with rfl | hne
    · rw [rolesOf_self Frame.cellRole rfl]
      rcases pc with _ | pc | _
      · rfl
      · cases pc <;> simp [SleepCell.claims, Frame.inClaim]
      · rfl
    · rw [rolesOf_of_ne Frame.cellRole hne rfl]
      rcases pc with _ | pc | _
      · rfl
      · cases pc <;> simp [Frame.inClaim, hne.symm]
      · rfl
  | fire j pc =>
    rcases eq_or_ne k j with rfl | hne
    · rw [rolesOf_self Frame.cellRole rfl]
      cases pc <;> simp [SleepCell.claims, Frame.inClaim]
    · rw [rolesOf_of_ne Frame.cellRole hne rfl]
      cases pc <;> simp [Frame.inClaim, hne.symm]
  | wakerWake w t | wake x b t pc =>
    refine List.sum_eq_zero fun m hm => ?_
    obtain ⟨r, hr, rfl⟩ := List.mem_map.mp hm
    obtain ⟨g, hg, hrole⟩ := mem_rolesOf.mp hr
    obtain rfl := List.mem_singleton.mp hg
    obtain ⟨q, -, hq⟩ := Option.map_eq_some_iff.mp hrole
    cases hq
    rfl
  | _ => rfl

theorem weigh_claims (k : ℕ) (F : Multiset (Frame V)) :
    weigh SleepCell.claims (allRoles Frame.cellRole k F) = claimers k F := by
  induction F using Multiset.induction with
  | empty => rfl
  | cons f F ih =>
    rw [allRoles_cons, weigh_coe_add, ih, claims_rolesOf, claimers, claimers,
      Multiset.countP_cons, Nat.add_comm]

/-- A poll after the one with the waker `p` is under way, its waker has taken the place of `p`, and
it will return `Ready`. -/
def Replaced (k : ℕ) (p : PollWaker) (c : Config (Shared V) (Frame V)) : Prop :=
  ∃ w pc, .pollSleep k w pc ∈ c.frames ∧ p.poll < w.poll ∧ SleepCell.Written pc ∧
    ∀ c', (machine V).Reaches c c' →
      ∀ r, (c'.shared.sleepHist k).lastPoll = some (w, r) → r = .ready ()

/-- What holds of the timer `k` and its `Sleep`; `woken` has the wakers whose calls, made by the
firing, have returned. -/
structure SleepSafe (k : ℕ) (c : Config (Shared V) (Frame V)) : Prop where
  exclusive : claimers k c.frames ≤ 1
  cell : claimers k c.frames = 0 → ((c.shared.timer k).waker.waker.isSome = true ↔
    (c.shared.timer k).waker.state = .stored)
  woken : k ∈ c.shared.timerHist.fired →
    ∀ p, (c.shared.sleepHist k).lastPoll = some (p, .pending) →
      p ∈ (c.shared.sleepHist k).woken ∨ Replaced k p c
  once : ∀ p, (c.shared.sleepHist k).woken.count p ≤ 1

variable {n m k : ℕ} {c : Config (Shared V) (Frame V)}

/-- A poll that returns after the flag of its timer is set returns `Ready`. -/
theorem Reachable.ready_of_completed {c' : Config (Shared V) (Frame V)} (h : Reachable n m c)
    (hc : (machine V).Reaches c c') (hk : k < c.shared.timerCount)
    (hflag : (c.shared.timer k).completed = true) :
    (c'.shared.sleepHist k).lastPoll = (c.shared.sleepHist k).lastPoll ∨
      ∃ q, (c'.shared.sleepHist k).lastPoll = some (q, .ready ()) := by
  have hrun := h.stable (P := fun sh => (cellView k sh).registered = true ∧
    (cellView k sh).timer.completed = true ∧
      ((cellView k sh).hist.lastPoll = (c.shared.sleepHist k).lastPoll ∨
        ∃ q, (cellView k sh).hist.lastPoll = some (q, .ready ()))) hc
    ⟨by simpa [cellView] using hk, hflag, Or.inl rfl⟩ ?_
  · exact hrun.2.2
  · rintro d d' i f fs R hd hF hex ⟨hreg, hc, hlast⟩
    have hmem : f ∈ d.frames := hF ▸ Multiset.mem_cons_self f R
    have hstep := hex.sleepCell k fun again known now e hf => hd.complete_flag (hf ▸ hmem)
    obtain ⟨hreg', hc', hlast'⟩ := hstep.completed hreg hc
    refine ⟨hreg', hc', ?_⟩
    rcases hlast' with heq | hready
    · rw [heq]
      exact hlast
    · exact Or.inr hready

/-- **No wake-up of a `Sleep` is lost**, in every run in which it is polled by one thread at a
time. -/
theorem sleep_safe
    (h : (machine V).ReachesVia (fun d _ ch => ¬ Overlaps k d ch) (start V n m) c) :
    SleepSafe k c := by
  obtain ⟨-, hI⟩ := serial_inv h
  have hr : Reachable n m c := h.reaches
  have hclaimed := hI.claimed
  rw [weigh_claims] at hclaimed
  refine ⟨?_, fun hzero => hI.cell fun hs => ?_, fun hfired p hp => ?_, fun p => ?_⟩
  · rw [hclaimed]
    split_ifs <;> omega
  · rw [if_pos hs, hzero] at hclaimed
    cases hclaimed
  · have hended := hr.fired_ended hfired
    rcases hI.pending p hp with ⟨w, pc, hrole, hlt, hwritten⟩ | ⟨-, hwoken⟩ | ⟨hopen, -⟩
    · -- the later poll has not returned, and the flag is set
      obtain ⟨f, hf, hrole⟩ := mem_allRoles.mp hrole
      obtain rfl := Frame.eq_of_polling hrole
      have hflag : (c.shared.timer k).completed = true := by
        have hcount := hI.fired
        by_contra hclear
        rw [Bool.not_eq_true] at hclear
        simp [cellView, hended, hclear, ind] at hcount
      refine Or.inr ⟨w, pc, hf, hlt, hwritten, fun c' hc' r hlast => ?_⟩
      rcases hr.ready_of_completed hc' (hr.fired_lt hfired) hflag with heq | ⟨q, hq⟩
      · rw [heq, hp] at hlast
        cases hlast
        exact absurd hlt (Nat.lt_irrefl _)
      · rw [hq] at hlast
        cases hlast
        rfl
    · exact Or.inl hwoken
    · rw [show (cellView k c.shared).hist.ended = true from hended] at hopen
      cases hopen
  · have hlen : (c.shared.sleepHist k).woken.length ≤ 1 := Nat.le_trans hI.woken (ind_le_one _)
    exact Nat.le_trans List.count_le_length hlen

/-- A poll returns `Pending`, the timer fires and the poll's waker is woken. -/
theorem sleep_safe_woken : ∃ c : Config (Shared Unit) (Frame Unit), SleepSafe 0 c ∧
    0 ∈ c.shared.timerHist.fired ∧
      (c.shared.sleepHist 0).lastPoll = some (⟨.other 1, 0⟩, .pending) ∧
      (c.shared.sleepHist 0).woken = [⟨.other 1, 0⟩] := by
  obtain ⟨c, hc, hp⟩ := Machine.exists_reachesVia_of_run (M := machine Unit)
    [(1, .call (.sleep 0)), (1, .now 0), (1, .go), (1, .go),
      (1, .call (.pollSleep 0 (.other 1))), (1, .go), (1, .go), (1, .go), (1, .go), (1, .go),
      (0, .go), (0, .go), (0, .go), (0, .go), (0, .go), (0, .now 0), (0, .pick 0),
      (0, .go), (0, .go), (0, .go), (0, .go), (0, .go), (0, .go)]
    (fun c : Config (Shared Unit) (Frame Unit) => 0 ∈ c.shared.timerHist.fired ∧
      (c.shared.sleepHist 0).lastPoll = some (⟨.other 1, 0⟩, .pending) ∧
      (c.shared.sleepHist 0).woken = [⟨.other 1, 0⟩])
    (by decide : ((machine Unit).run (fun d _ ch => ¬ Overlaps 0 d ch) (start Unit 1 1) _).any _
      = true)
  exact ⟨c, sleep_safe hc, hp⟩

/-- The waker of a poll that returned `Pending` is not woken if the next poll has put its own in
the cell before the timer fires. -/
theorem replaced_waker_not_woken : ∃ c : Config (Shared Unit) (Frame Unit),
    (machine Unit).ReachesVia (fun d _ ch => ¬ Overlaps 0 d ch) (start Unit 1 1) c ∧
      0 ∈ c.shared.timerHist.fired ∧
      (c.shared.sleepHist 0).lastPoll = some (⟨.other 1, 0⟩, .pending) ∧
      ⟨.other 1, 0⟩ ∉ (c.shared.sleepHist 0).woken :=
  Machine.exists_reachesVia_of_run (M := machine Unit)
    [(1, .call (.sleep 0)), (1, .now 0), (1, .go), (1, .go),
      (1, .call (.pollSleep 0 (.other 1))), (1, .go), (1, .go), (1, .go), (1, .go), (1, .go),
      (1, .call (.pollSleep 0 (.other 2))), (1, .go), (1, .go), (1, .go), (1, .go), (1, .go),
      (0, .go), (0, .go), (0, .go), (0, .go), (0, .go), (0, .now 0), (0, .pick 0),
      (0, .go), (0, .go), (0, .go), (0, .go), (0, .go), (0, .go)]
    (fun c : Config (Shared Unit) (Frame Unit) => 0 ∈ c.shared.timerHist.fired ∧
      (c.shared.sleepHist 0).lastPoll = some (⟨.other 1, 0⟩, .pending) ∧
      ⟨.other 1, 0⟩ ∉ (c.shared.sleepHist 0).woken)
    (by decide)

end NoLostWakeUp

end MiniAsync.MultiThread
