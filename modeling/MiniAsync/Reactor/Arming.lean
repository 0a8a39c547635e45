/-
  The map of registrations and the kernel's interest list agree.

  The reactor keeps what is waited for twice: in its map and in the kernel. A
  one-shot event disables a descriptor in the kernel without the map knowing, and
  the driver learns of it only when it processes the batch. Everything the code
  does to one of the copies concerns a single descriptor, so the invariant is
  stated for what the two copies say about one descriptor (`View.Ok`), and an
  operation has to be looked at only at the descriptor it is about.

  `collect_ok` is the step of the loop over a batch; it is what the re-arming at
  the end of the loop's body is for. `run_ok` is the invariant over every run.
-/
import MiniAsync.Reactor.Basic

namespace MiniAsync.Reactor

open Kernel Trace

variable {W : Type}

/-- What the map, the kernel and the running `deregister` calls say about one descriptor. -/
structure View (W : Type) where
  reg : Option (Registration W)
  interest : Option Interest
  closing : Bool

/-- The two copies agree about a descriptor; `pending` says that an event for it waits to be
processed. -/
structure View.Ok (v : View W) (pending : Prop) : Prop where
  armed : ∀ reg, v.reg = some reg → ∀ d, (reg.waker d).isSome = true →
    (∃ i, v.interest = some i ∧ i.enabled = true ∧ i.mask.has d = true) ∨ pending
  listed : v.interest.isSome = true ↔ v.reg.isSome = true ∨ v.closing = true
  unregistered : v.closing = true → v.reg = none

namespace View.Ok

variable {v : View W} {pending pending' : Prop}

theorem mono (h : v.Ok pending) (hp : pending → pending') : v.Ok pending' :=
  ⟨fun reg hreg d hw => (h.armed reg hreg d hw).imp_right hp, h.listed, h.unregistered⟩

/-- A descriptor that nobody knows. -/
theorem unknown (pending : Prop) : (⟨none, none, false⟩ : View W).Ok pending :=
  ⟨by rintro _ ⟨⟩, by simp, fun _ => rfl⟩

/-- A registration whose mask has just been given to the kernel. -/
theorem enabled (reg : Registration W) (pending : Prop) :
    (⟨some reg, some ⟨reg.mask, true⟩, false⟩ : View W).Ok pending := by
  refine ⟨?_, by simp, by simp⟩
  rintro _ ⟨⟩ d hw
  exact Or.inl ⟨_, rfl, rfl, (reg.mask_has d).trans hw⟩

/-- A registration without wakers asks for nothing. -/
theorem idle {reg : Registration W} (hr : reg.readWaker = none) (hw : reg.writeWaker = none)
    (i : Interest) (pending : Prop) : (⟨some reg, some i, false⟩ : View W).Ok pending := by
  refine ⟨?_, by simp, by simp⟩
  rintro _ ⟨⟩ d hd
  cases d
  · simp [Registration.waker, hw] at hd
  · simp [Registration.waker, hr] at hd

/-- The first half of `deregister`. -/
theorem remove (h : v.Ok pending) :
    (⟨none, v.interest, v.reg.isSome || v.closing⟩ : View W).Ok pending :=
  ⟨by rintro _ ⟨⟩, by simpa using h.listed, fun _ => rfl⟩

end View.Ok

/-- What the reactor and the calls under way say about `fd`. -/
def view (r : Reactor W) (closing : Fd → Bool) (fd : Fd) : View W :=
  ⟨r.registrations fd, r.epoll.interest fd, closing fd⟩

/-- The two copies agree about every descriptor but the reactor's own, when the events `evs` wait to
be processed. -/
structure Ok (r : Reactor W) (closing : Fd → Bool) (evs : List Event) : Prop where
  agree : ∀ fd, fd ≠ r.wakeFd → (view r closing fd).Ok (∃ e ∈ evs, e.fd = fd)
  wakeFd : r.registrations r.wakeFd = none
  wakeFd_open : closing r.wakeFd = false

section Steps

variable {r r' : Reactor W} {closing closing' : Fd → Bool} {evs evs' : List Event} {fd : Fd}

/-- An operation that concerns the descriptor `fd` alone. -/
theorem Ok.of_view (h : Ok r closing evs) (hwake : r'.wakeFd = r.wakeFd) (hne : fd ≠ r.wakeFd)
    (hother : ∀ fd', fd' ≠ fd → view r' closing' fd' = view r closing fd')
    (hevs : ∀ fd', fd' ≠ fd → (∃ e ∈ evs, e.fd = fd') → ∃ e ∈ evs', e.fd = fd')
    (hfd : (view r' closing' fd).Ok (∃ e ∈ evs', e.fd = fd)) : Ok r' closing' evs' := by
  have hwakeFd := hother r.wakeFd hne.symm
  rw [← hwake] at hwakeFd
  refine ⟨fun fd' hne' => ?_, ?_, ?_⟩
  · rcases eq_or_ne fd' fd with rfl | hfd'
    · exact hfd
    · rw [hother fd' hfd']
      exact (h.agree fd' (hwake ▸ hne')).mono (hevs fd' hfd')
  · exact (congrArg View.reg hwakeFd).trans (hwake ▸ h.wakeFd)
  · exact (congrArg View.closing hwakeFd).trans (hwake ▸ h.wakeFd_open)

/-- The reactor after it has stored an entry and given its mask to the kernel. -/
def arm (r : Reactor W) (fd : Fd) (reg : Registration W) : Reactor W :=
  { r.setReg fd (some reg) with epoll := r.epoll.set fd (some ⟨reg.mask, true⟩) }

theorem view_arm_of_ne (r : Reactor W) (closing : Fd → Bool) {fd fd' : Fd} (hne : fd' ≠ fd)
    (reg : Registration W) : view (r.arm fd reg) closing fd' = view r closing fd' := by
  simp only [view, arm, setReg, Function.update_of_ne hne, Epoll.set_of_ne _ hne]

theorem view_arm_self (r : Reactor W) (closing : Fd → Bool) (fd : Fd) (reg : Registration W) :
    view (r.arm fd reg) closing fd = ⟨some reg, some ⟨reg.mask, true⟩, closing fd⟩ := by
  simp only [view, arm, setReg, Function.update_self, Epoll.set_self]

/-- `register` fails without a trace, or it stores the waker and gives the kernel the mask of the
entry. -/
theorem register_cases (r : Reactor W) (fd : Fd) (w : W) (isRead refused : Bool) :
    r.register fd w isRead refused = (false, r) ∨
      ∃ reg : Registration W, reg.waker isRead = some w ∧
        r.register fd w isRead refused = (true, r.arm fd reg) := by
  unfold register
  cases hreg : r.registrations fd with
  | none =>
    simp only [Option.isNone_none, Option.getD_none, if_true]
    split
    · rename_i ep hctl
      rw [(Epoll.ctl_add hctl).2]
      exact Or.inr ⟨_, by simp, rfl⟩
    · -- the rollback removes the entry that was new
      refine Or.inl ?_
      rw [setReg, ← hreg, Function.update_eq_self]
  | some reg =>
    simp only [Option.isNone_some, Option.getD_some, Bool.false_eq_true, if_false]
    split
    · rename_i ep hctl
      rw [(Epoll.ctl_mod hctl).2]
      exact Or.inr ⟨_, by simp, rfl⟩
    · -- the rollback puts the old waker back
      refine Or.inl ?_
      rw [Registration.setWaker_waker, setReg, ← hreg, Function.update_eq_self]

/-- A registration that the kernel refuses fails. -/
theorem register_refused (r : Reactor W) (fd : Fd) (w : W) (isRead : Bool) :
    (r.register fd w isRead true).1 = false := by
  simp only [register, Epoll.ctl_refused]

/-- `ADD` or `MOD` is chosen rightly: only a refusal of the kernel makes `register` fail. -/
theorem register_ok (hlisted : (r.epoll.interest fd).isSome = (r.registrations fd).isSome) (w : W)
    (isRead : Bool) : (r.register fd w isRead false).1 = true := by
  unfold register
  cases hreg : r.registrations fd with
  | none =>
    rw [hreg, Option.isSome_none] at hlisted
    simp [Epoll.ctl, hlisted]
  | some reg =>
    rw [hreg, Option.isSome_some] at hlisted
    simp only [Option.isNone_some, Option.getD_some, Bool.false_eq_true, if_false]
    rw [Epoll.ctl_mod_of_isSome hlisted]

theorem Ok.register (h : Ok r closing evs) (hne : fd ≠ r.wakeFd) (hcl : closing fd = false) (w : W)
    (isRead refused : Bool) : Ok (r.register fd w isRead refused).2 closing evs := by
  obtain hfail | ⟨reg, -, hok⟩ := register_cases r fd w isRead refused
  · rw [hfail]
    exact h
  · rw [hok]
    refine h.of_view rfl hne (fun fd' hne' => view_arm_of_ne r closing hne' reg) (fun _ _ => id) ?_
    rw [view_arm_self, hcl]
    exact View.Ok.enabled reg _

theorem Ok.deregisterRemove (h : Ok r closing evs) (fd : Fd) :
    Ok (r.deregisterRemove fd).2
      (if (r.deregisterRemove fd).1 then Function.update closing fd true else closing) evs := by
  cases hreg : r.registrations fd with
  | none =>
    -- a `deregister` that finds nothing makes no `EPOLL_CTL_DEL`
    have hsame : r.deregisterRemove fd = (false, r) := by
      rw [Reactor.deregisterRemove, setReg, ← hreg, Function.update_eq_self, hreg]
      rfl
    rw [hsame]
    exact h
  | some reg =>
    have hne : fd ≠ r.wakeFd := by
      rintro rfl
      rw [h.wakeFd] at hreg
      cases hreg
    have hfound : (r.deregisterRemove fd).1 = true := by rw [Reactor.deregisterRemove, hreg]; rfl
    rw [if_pos hfound]
    refine h.of_view rfl hne (fun fd' hne' => ?_) (fun _ _ => id) ?_
    · simp only [view, Reactor.deregisterRemove, setReg, Function.update_of_ne hne']
    · have hok := (h.agree fd hne).remove
      simp only [view, hreg, Option.isSome_some, Bool.true_or] at hok
      simp only [view, Reactor.deregisterRemove, setReg, Function.update_self]
      exact hok

theorem Ok.deregisterDel (h : Ok r closing evs) (hcl : closing fd = true) :
    Ok (r.deregisterDel fd) (Function.update closing fd false) evs := by
  have hne : fd ≠ r.wakeFd := by
    rintro rfl
    rw [h.wakeFd_open] at hcl
    cases hcl
  refine h.of_view rfl hne ?_ (fun _ _ => id) ?_
  · intro fd' hne'
    simp only [view, Reactor.deregisterDel, Epoll.ctl_del, Function.update_of_ne hne']
  · have hreg : r.registrations fd = none := (h.agree fd hne).unregistered hcl
    simp only [view, Reactor.deregisterDel, Epoll.ctl_del, Function.update_self, hreg]
    exact View.Ok.unknown _

theorem Ok.close (h : Ok r closing evs) (hne : fd ≠ r.wakeFd) (hcl : closing fd = false)
    (hreg : r.registrations fd = none) : Ok { r with epoll := r.epoll.close fd } closing evs := by
  refine h.of_view rfl hne ?_ (fun _ _ => id) ?_
  · intro fd' hne'
    simp only [view, Epoll.close, Epoll.set_of_ne _ hne']
  · simp only [view, Epoll.close, Epoll.set_self, hreg, hcl]
    exact View.Ok.unknown _

/-- A batch that the kernel returns disables only descriptors that have an event in it. -/
theorem Ok.epollWait (h : Ok r closing []) (evs : List Event) :
    Ok { r with epoll := r.epoll.wait evs } closing evs := by
  refine ⟨fun fd hne => ?_, h.wakeFd, h.wakeFd_open⟩
  have hfd : (view r closing fd).Ok _ := h.agree fd hne
  refine ⟨fun reg hreg d hw => ?_, ?_, hfd.unregistered⟩
  · -- `EPOLLONESHOT` disables what is reported, and this is in the batch now
    by_cases hmem : ∃ e ∈ evs, e.fd = fd
    · exact Or.inr hmem
    · simp only [not_exists, not_and] at hmem
      refine Or.inl ?_
      simp only [view]
      rw [Epoll.wait_of_notMem r.epoll hmem]
      exact (hfd.armed reg hreg d hw).resolve_right (by simp)
  · show ((r.epoll.wait evs).interest fd).isSome = true ↔ _
    rw [Epoll.wait_isSome]
    exact hfd.listed

/-! ### The loop over a batch -/

/-- What one event does: nothing, or it leaves an entry that has been armed again if a waker is
left in it. -/
theorem collect_cases (r : Reactor W) (ev : Event) :
    ((r.collect ev).1.registrations = r.registrations ∧ (r.collect ev).1.epoll = r.epoll ∧
      (ev.fd = r.wakeFd ∨ r.registrations ev.fd = none)) ∨
    (ev.fd ≠ r.wakeFd ∧ (r.registrations ev.fd).isSome = true ∧ ∃ reg : Registration W,
      (r.collect ev).1.registrations = Function.update r.registrations ev.fd (some reg) ∧
      ((reg.readWaker = none ∧ reg.writeWaker = none ∧ (r.collect ev).1.epoll = r.epoll) ∨
        (r.collect ev).1.epoll = (r.epoll.ctl .mod ev.fd reg.mask false).getD r.epoll)) := by
  unfold Reactor.collect
  split_ifs with hwake
  · exact Or.inl ⟨rfl, rfl, Or.inl hwake⟩
  · split
    · rename_i hreg
      exact Or.inl ⟨rfl, rfl, Or.inr hreg⟩
    · rename_i reg hreg
      refine Or.inr ⟨hwake, by rw [hreg]; rfl, _, rfl, ?_⟩
      dsimp only
      split_ifs with hleft
      · exact Or.inr rfl
      · rw [Bool.or_eq_true, not_or, Bool.not_eq_true, Bool.not_eq_true,
          Option.isSome_eq_false_iff, Option.isSome_eq_false_iff, Option.isNone_iff_eq_none,
          Option.isNone_iff_eq_none] at hleft
        exact Or.inl ⟨hleft.1, hleft.2, rfl⟩

theorem collect_wakeFd (r : Reactor W) (ev : Event) : (r.collect ev).1.wakeFd = r.wakeFd := by
  unfold Reactor.collect
  split_ifs
  · rfl
  · split <;> rfl

/-- **One event of a batch.** After it the descriptor's copies agree without the event. -/
theorem Ok.collect {ev : Event} (h : Ok r closing (ev :: evs)) :
    Ok (r.collect ev).1 closing evs := by
  have hwakeFd := collect_wakeFd r ev
  have hevs : ∀ fd, fd ≠ ev.fd → (∃ e ∈ ev :: evs, e.fd = fd) → ∃ e ∈ evs, e.fd = fd := by
    rintro fd hne ⟨e, he, rfl⟩
    rcases List.mem_cons.mp he with rfl | he
    · exact absurd rfl hne
    · exact ⟨e, he, rfl⟩
  obtain ⟨hreg, hep, hskip⟩ | ⟨hne, hsome, reg, hreg, hep⟩ := collect_cases r ev
  · refine ⟨fun fd hfd => ?_, by rw [hwakeFd, hreg]; exact h.wakeFd, hwakeFd ▸ h.wakeFd_open⟩
    rw [hwakeFd] at hfd
    have hview : view (r.collect ev).1 closing fd = view r closing fd := by
      rw [view, hreg, hep, view]
    rw [hview]
    rcases eq_or_ne fd ev.fd with rfl | hne
    · -- a skipped event is of a descriptor without an entry, so it was waited for by nobody
      have hnone : (view r closing ev.fd).reg = none := hskip.resolve_left hfd
      have hok := h.agree ev.fd hfd
      refine ⟨fun reg hr => ?_, hok.listed, hok.unregistered⟩
      rw [hnone] at hr
      cases hr
    · exact (h.agree fd hfd).mono (hevs fd hne)
  · have hok := h.agree ev.fd hne
    have hlisted : (r.epoll.interest ev.fd).isSome = true := hok.listed.mpr (Or.inl hsome)
    have hcl : closing ev.fd = false := by
      by_contra hcl
      have hnone : r.registrations ev.fd = none := hok.unregistered (Bool.not_eq_false _ ▸ hcl)
      rw [hnone] at hsome
      cases hsome
    refine h.of_view hwakeFd hne (fun fd hfd => ?_) hevs ?_
    · rw [view, hreg, Function.update_of_ne hfd, view]
      obtain ⟨-, -, hep⟩ | hep := hep
      · rw [hep]
      · rw [hep, Epoll.ctl_mod_of_isSome hlisted, Option.getD_some, Epoll.set_of_ne _ hfd]
    · rw [view, hreg, Function.update_self, hcl]
      obtain ⟨hread, hwrite, hep⟩ | hep := hep
      · -- nobody waits any more, so the descriptor may stay disabled
        obtain ⟨i, hi⟩ := Option.isSome_iff_exists.mp hlisted
        rw [hep, hi]
        exact View.Ok.idle hread hwrite i _
      · -- the direction that did not fire is armed again
        rw [hep, Epoll.ctl_mod_of_isSome hlisted, Option.getD_some, Epoll.set_self]
        exact View.Ok.enabled reg _

theorem Ok.collectAll (h : Ok r closing evs) : Ok (r.collectAll evs).1 closing [] := by
  induction evs generalizing r with
  | nil => exact h
  | cons ev evs ih => exact ih h.collect

end Steps

/-! ### Whole runs -/

section Runs

variable {wakeFd : Fd} {h : List (Op W × Result W)} {s : World W}

/-- The two copies agree, up to the batch that the driver has not processed. -/
def World.Ok (s : World W) : Prop := Reactor.Ok s.reactor s.closing (s.batch.getD [])

theorem World.Ok.start (wakeFd : Fd) : (World.start wakeFd : World W).Ok := by
  refine ⟨fun fd hne => ?_, rfl, rfl⟩
  have hunlisted : (Reactor.new wakeFd : Reactor W).epoll.interest fd = none :=
    Epoll.set_of_ne Epoll.new hne _
  show View.Ok ⟨none, (Reactor.new wakeFd : Reactor W).epoll.interest fd, false⟩ _
  rw [hunlisted]
  exact View.Ok.unknown _

/-- **Every operation keeps the copies in agreement.** -/
theorem World.Ok.step {s' : World W} {op : Op W} {res : Result W} (hok : s.Ok)
    (hs : World.Step s op res s') : s'.Ok := by
  cases hs with
  | opened hopen => exact hok
  | closed hcan hreg => exact Reactor.Ok.close hok hcan.1 hcan.2.2 hreg
  | registerReadable hcan => exact Reactor.Ok.register hok hcan.1 hcan.2.2 _ true _
  | registerWritable hcan => exact Reactor.Ok.register hok hcan.1 hcan.2.2 _ false _
  | deregister => exact Reactor.Ok.deregisterRemove hok _
  | deregisterDel hclosing => exact Reactor.Ok.deregisterDel hok hclosing
  | wake => exact ⟨hok.agree, hok.wakeFd, hok.wakeFd_open⟩
  | epollWait hbatch hevs =>
    rw [World.Ok, hbatch] at hok
    exact Reactor.Ok.epollWait hok _
  | process hbatch =>
    rw [World.Ok, hbatch] at hok
    exact Reactor.Ok.collectAll hok

theorem World.run_ok (hr : Run (World.system W) (World.start wakeFd) h s) : s.Ok :=
  hr.invariant (I := fun _ s => s.Ok) (World.Ok.start wakeFd)
    fun _ _ _ _ _ _ hok hs => hok.step (World.step_cases hs)

/-- **The reactor never strands a waker.** In every state that the reactor can reach: a direction
with a stored waker is enabled in the kernel or an event for its descriptor waits to be processed;
the kernel watches exactly the descriptors that are in the map or about to be deleted; and
`register` fails only when the kernel refuses the call. -/
theorem reactor_arming (hr : Run (World.system W) (World.start wakeFd) h s) :
    (∀ fd reg d, s.reactor.registrations fd = some reg → (reg.waker d).isSome = true →
      (∃ i, s.reactor.epoll.interest fd = some i ∧ i.enabled = true ∧ i.mask.has d = true) ∨
        ∃ evs, s.batch = some evs ∧ ∃ e ∈ evs, e.fd = fd) ∧
    (∀ fd, fd ≠ s.reactor.wakeFd → ((s.reactor.epoll.interest fd).isSome = true ↔
      (s.reactor.registrations fd).isSome = true ∨ s.closing fd = true)) ∧
    ∀ fd w isRead, s.CanRegister fd → (s.reactor.register fd w isRead false).1 = true := by
  have hok := World.run_ok hr
  refine ⟨fun fd reg d hreg hw => ?_, fun fd hne => (hok.agree fd hne).listed,
    fun fd w isRead hcan => ?_⟩
  · have hne : fd ≠ s.reactor.wakeFd := by
      rintro rfl
      rw [hok.wakeFd] at hreg
      cases hreg
    refine ((hok.agree fd hne).armed reg hreg d hw).imp_right ?_
    rintro ⟨e, he, hfd⟩
    cases hbatch : s.batch with
    | none =>
      rw [hbatch] at he
      cases he
    | some evs =>
      rw [hbatch] at he
      exact ⟨evs, rfl, e, he, hfd⟩
  · have hlisted := (hok.agree fd hcan.1).listed
    simp only [view, hcan.2.2, Bool.false_eq_true, or_false] at hlisted
    exact register_ok (Bool.eq_iff_iff.mpr hlisted) w isRead

/-- Both directions of a descriptor are waited for, the kernel reports that it is readable, and the
writer registers again before the batch is processed. -/
theorem reactor_arming_both_directions :
    ∃ (h : List (Op ℕ × Result ℕ)) (s : World ℕ),
      Run (World.system ℕ) (World.start 3) h s ∧
      (s.reactor.registrations 7).map (·.writeWaker) = some (some 21) ∧
      ((∃ i, s.reactor.epoll.interest 7 = some i ∧ i.enabled = true ∧ i.mask.has false = true) ∨
        ∃ evs, s.batch = some evs ∧ ∃ e ∈ evs, e.fd = 7) := by
  obtain ⟨h, s, hr, hw⟩ := exists_run_of_exec (f := World.step) (s := World.start 3)
    [.open 7, .registerReadable 7 10 false, .registerWritable 7 20 false,
      .epollWait [⟨7, true, false, false, false⟩], .registerWritable 7 21 false, .process]
    (fun p => (p.2.reactor.registrations 7).map (·.writeWaker) = some (some 21)) (by decide)
  refine ⟨h, s, hr, hw, ?_⟩
  obtain ⟨reg, hreg, hwriter⟩ := Option.map_eq_some_iff.mp hw
  refine (reactor_arming hr).1 7 reg false hreg ?_
  rw [Registration.waker, if_neg Bool.false_ne_true, hwriter]
  rfl

end Runs

end MiniAsync.Reactor
