/-
  The sockets keep to the discipline of the reactor.

  `Can` says which operations the borrow rules of the language and the kernel allow: a
  future is polled only if nobody else polls it, an object is dropped only if nothing
  borrows it, and the kernel gives out descriptors that are not in use. It says
  nothing about the reactor. `net_discipline` says that this is enough: whatever is
  allowed can be carried out, so no descriptor is registered after it was closed,
  closed twice or left open.
-/
import MiniAsync.Kernel.Buffered
import MiniAsync.Net.Ownership

namespace MiniAsync.Net

open Kernel Reactor Trace Resource

variable {W σ ε χ : Type} {K : Tcp σ ε χ} {wakeFd : Fd} {s s' : State W σ}

/-- What the borrow rules and the kernel allow. -/
def State.Can (K : Tcp σ ε χ) (s : State W σ) : Op W σ ε χ → Prop
  | .bind k fd _ _ | .connect k fd _ _ => s.owners k = none ∧ ¬ s.world.isOpen fd = true
  | .setNonblocking k _ _ => ∃ o poll, s.owners k = some o ∧ o.phase = .raw poll
  | .future f k kind => s.futures f = none ∧ ∃ o, s.owners k = some o ∧ borrowable o kind = true
  | .dropFuture f => ∃ t, s.futures f = some t ∧ t.pos = .idle
  | .pollAccept f _ _ k fd _ => (∃ t, s.futures f = some t ∧ t.pos = .idle ∧ t.kind = .accept) ∧
      s.owners k = none ∧ ¬ s.world.isOpen fd = true
  | .pollRead f _ _ => ∃ t buf, s.futures f = some t ∧ t.pos = .idle ∧ t.kind = .read buf
  | .pollWrite f _ _ => ∃ t buf, s.futures f = some t ∧ t.pos = .idle ∧ t.kind = .write buf
  | .register f _ => ∃ t w, s.futures f = some t ∧ t.pos = .registering w
  | .drop k => ∃ o, s.owners k = some o ∧ o.phase = .live ∧ o.borrowers = []
  | .dropDel k => ∃ o, s.owners k = some o ∧ o.phase = .dropping true
  | .close k => ∃ o, s.owners k = some o ∧ o.phase = .dropping false
  | .wake => True
  | .epollWait evs => s.world.batch = none ∧ s.world.MayReport evs ∧
      ∀ e ∈ evs, e.fd ≠ s.world.reactor.wakeFd → s.Noticed K e
  | .process => s.world.batch ≠ none
  | .happens fd e => ∃ sock st, s.sockets fd = some sock ∧ K.happens sock.state e = some st

/-! ### The reactor's part -/

/-- What an operation of the reactor can do it does. -/
theorem world_step_eq {w w' : World W} {op : Reactor.Op W} {res : Reactor.Result W}
    (h : World.Step w op res w') : w.step op = some (res, w') := by
  cases h with
  | opened hopen => rw [World.step, if_neg hopen]
  | closed hcan hreg => rw [World.step, if_pos ⟨hcan, hreg⟩]
  | registerReadable hcan => rw [World.step, World.register, if_pos hcan]
  | registerWritable hcan => rw [World.step, World.register, if_pos hcan]
  | deregister => rfl
  | deregisterDel hclosing => rw [World.step, if_pos hclosing]
  | wake => rfl
  | epollWait hbatch hevs => rw [World.step, if_pos ⟨hbatch, hevs⟩]
  | process hbatch =>
    simp only [World.step]
    rw [hbatch]

/-- A step is at most one operation of the reactor. -/
theorem State.Step.world {op : Op W σ ε χ} {res : Result W} (hs : State.Step K s op res s') :
    s'.world = s.world ∨ ∃ op' res', World.Step s.world op' res' s'.world := by
  cases hs with
  | bind _ hfd => exact .inr ⟨_, _, .opened hfd⟩
  | connect _ hfd => exact .inr ⟨_, _, .opened hfd⟩
  | accepted _ hfd _ _ _ => exact .inr ⟨_, _, .opened hfd⟩
  | made _ _ _ _ =>
    rw [State.returned_world]
    exact .inl rfl
  | unmade _ _ _ _ hworld =>
    rw [State.returned_world]
    exact .inr ⟨_, _, hworld⟩
  | future _ _ _ | dropFuture _ _ _ | failed _ _ _ | wouldBlock _ _ _ _ | read _ _ _
  | written _ _ _ | happens _ _ => exact .inl rfl
  | register _ _ _ hworld => exact .inr ⟨_, _, hworld⟩
  | drop _ _ _ hworld => exact .inr ⟨_, _, hworld⟩
  | dropDel _ _ hworld => exact .inr ⟨_, _, hworld⟩
  | close _ _ hworld => exact .inr ⟨_, _, hworld⟩
  | wake => exact .inr ⟨_, _, .wake⟩
  | epollWait _ hworld => exact .inr ⟨_, _, hworld⟩
  | process _ hworld => exact .inr ⟨_, _, hworld⟩

/-! ### Whole runs -/

/-- What holds in every state. -/
structure Inv (wakeFd : Fd) (s : State W σ) : Prop where
  owned : Owned wakeFd s
  borrowed : Borrowed s.owners s.futures
  /-- The reactor has been used as it wants to be. -/
  world : ∃ h, Run (World.system W) (World.start wakeFd) h s.world

theorem inv_start (wakeFd : Fd) : Inv wakeFd (State.start wakeFd : State W σ) := by
  refine ⟨⟨rfl, ⟨?_, ?_, ?_⟩⟩, ⟨?_, ?_, ?_⟩, [], .nil⟩
  · intro k o ho
    cases ho
  · intro k k' o o' ho
    cases ho
  · intro fd _
    rfl
  · intro f t ht
    cases ht
  · intro k o f ho
    cases ho
  · intro k o ho
    cases ho

theorem Inv.step (h : Inv wakeFd s) {op : Op W σ ε χ} {res : Result W}
    (hs : State.Step K s op res s') : Inv wakeFd s' := by
  refine ⟨h.owned.step h.borrowed hs, h.borrowed.step hs, ?_⟩
  obtain ⟨g, hg⟩ := h.world
  rcases hs.world with hsame | ⟨op', res', hworld⟩
  · rw [hsame]
    exact ⟨g, hg⟩
  · exact ⟨_, hg.snoc (world_step_eq hworld)⟩

theorem run_inv {h : List (Op W σ ε χ × Result W)}
    (hr : Run (State.system W K) (.start wakeFd) h s) : Inv wakeFd s :=
  hr.invariant (I := fun _ s => Inv wakeFd s) (inv_start wakeFd)
    fun _ _ _ _ _ _ hinv hs => hinv.step (State.step_cases hs)

/-! ### What is allowed can be done -/

section Can

variable {k f : ℕ} {o : Owner}

/-- The socket of an owner. -/
theorem Owned.exists_socket (h : Owned wakeFd s) (ho : s.owners k = some o) :
    ∃ sock, s.sockets o.fd = some sock ∧ (o.phase = .live → sock.nonblocking = true) := by
  obtain ⟨mode, hmode, hlive⟩ := (h.held.fits k o ho).mode
  obtain ⟨sock, hsock, rfl⟩ := Option.map_eq_some_iff.mp hmode
  exact ⟨sock, hsock, hlive⟩

/-- The descriptor of an owner may be registered, unless its `deregister` is under way. -/
theorem Owned.canRegister (h : Owned wakeFd s) (ho : s.owners k = some o)
    (hclosing : s.world.closing o.fd = false) : s.world.CanRegister o.fd := by
  have hfits := h.held.fits k o ho
  refine ⟨?_, hfits.isOpen, hclosing⟩
  rw [h.eventfd]
  exact hfits.ne_wakeFd

/-- A descriptor that the reactor does not know may be closed. -/
theorem Owned.close (h : Owned wakeFd s) (ho : s.owners k = some o)
    (hclosing : s.world.closing o.fd = false)
    (hreg : (s.world.reactor.registrations o.fd).isSome = false) :
    ∃ world, s.world.step (.close o.fd) = some (.done, world) := by
  rw [Option.isSome_eq_false_iff, Option.isNone_iff_eq_none] at hreg
  exact ⟨_, world_step_eq (.closed (h.canRegister ho hclosing) hreg)⟩

/-- An idle future can make its call. -/
theorem Inv.exists_idle (h : Inv wakeFd s) {t : Future W} (ht : s.futures f = some t)
    (hpos : t.pos = .idle) :
    ∃ fd sock, s.idle f = some (t, fd, sock) ∧ sock.nonblocking = true := by
  obtain ⟨o, ho, hlive, -⟩ := h.borrowed.lender f t ht
  obtain ⟨sock, hsock, hmode⟩ := h.owned.exists_socket ho
  refine ⟨o.fd, sock, ?_, hmode hlive⟩
  simp only [State.idle, ht, ho, hsock, Option.bind_eq_bind, Option.bind_some, hpos]

theorem adopt_eq {fd : Fd} {sock : Socket σ} {l : Bool} {poll : Option ℕ}
    (hk : s.owners k = none) (hfd : ¬ s.world.isOpen fd = true) :
    s.adopt k fd sock l poll = some (s.adopted k fd sock l poll) := by
  have hstep := world_step_eq (World.Step.opened hfd)
  unfold State.adopt
  rw [hk, hstep]
  rfl

theorem wouldBlock_isSome {t : Future W} {sock : Socket σ} (w : W)
    (hmode : sock.nonblocking = true) : (s.wouldBlock f t sock w).isSome = true := by
  unfold State.wouldBlock
  rw [if_pos hmode]
  rfl

theorem Inv.setNonblocking_isSome (h : Inv wakeFd s) {poll : Option ℕ} (ho : s.owners k = some o)
    (hphase : o.phase = .raw poll) (getErr setErr : Option Errno) :
    (s.setNonblocking k getErr setErr).isSome = true := by
  obtain ⟨sock, hsock, -⟩ := h.owned.exists_socket ho
  have hfits := (h.owned.held.fits k o ho).phase
  rw [hphase] at hfits
  obtain ⟨world, hworld⟩ := h.owned.close ho hfits.2 hfits.1
  simp only [State.setNonblocking, ho, hsock, hphase, Option.bind_eq_bind, Option.bind_some,
    hworld]
  cases Net.setNonblocking sock getErr setErr <;> rfl

theorem Inv.pollAccept_isSome (h : Inv wakeFd s) {t : Future W} (ht : s.futures f = some t)
    (hpos : t.pos = .idle) (hkind : t.kind = .accept) {fd : Fd} (hk : s.owners k = none)
    (hfd : ¬ s.world.isOpen fd = true) (w : W) (c : χ) (flags : BitVec 32) :
    (s.pollAccept K f w c k fd flags).isSome = true := by
  obtain ⟨lfd, sock, hidle, hmode⟩ := h.exists_idle ht hpos
  simp only [State.pollAccept, hidle, hkind, Option.bind_eq_bind, Option.bind_some]
  split
  · rename_i conn st _
    have hadopt : (s.setState lfd sock st).adopt k fd ⟨flags, conn⟩ false (some f) = some _ :=
      adopt_eq hk hfd
    simp only [hadopt]
    rfl
  · exact wouldBlock_isSome w hmode
  · rfl

theorem Inv.pollRead_isSome (h : Inv wakeFd s) {t : Future W} (ht : s.futures f = some t)
    (hpos : t.pos = .idle) {buf : List UInt8} (hkind : t.kind = .read buf) (w : W) (c : χ) :
    (s.pollRead K f w c).isSome = true := by
  obtain ⟨fd, sock, hidle, hmode⟩ := h.exists_idle ht hpos
  simp only [State.pollRead, hidle, hkind, Option.bind_eq_bind, Option.bind_some]
  split
  · rfl
  · exact wouldBlock_isSome w hmode
  · rfl

theorem Inv.pollWrite_isSome (h : Inv wakeFd s) {t : Future W} (ht : s.futures f = some t)
    (hpos : t.pos = .idle) {buf : List UInt8} (hkind : t.kind = .write buf) (w : W) (c : χ) :
    (s.pollWrite K f w c).isSome = true := by
  obtain ⟨fd, sock, hidle, hmode⟩ := h.exists_idle ht hpos
  simp only [State.pollWrite, hidle, hkind, Option.bind_eq_bind, Option.bind_some]
  split
  · rfl
  · exact wouldBlock_isSome w hmode
  · rfl

theorem Inv.register_isSome (h : Inv wakeFd s) {t : Future W} (ht : s.futures f = some t) {w : W}
    (hpos : t.pos = .registering w) (refused : Option Errno) :
    (s.register K f refused).isSome = true := by
  obtain ⟨o, ho, hlive, -⟩ := h.borrowed.lender f t ht
  have hfits := (h.owned.held.fits _ o ho).phase
  rw [hlive] at hfits
  obtain ⟨res, world, hworld⟩ : ∃ res world,
      s.world.step (t.kind.register o.fd w refused) = some (res, world) := by
    have hcan := h.owned.canRegister ho hfits
    unfold FutureKind.register
    split_ifs
    · exact ⟨_, _, world_step_eq (.registerReadable hcan)⟩
    · exact ⟨_, _, world_step_eq (.registerWritable hcan)⟩
  simp only [State.register, ht, ho, hpos, Option.bind_eq_bind, Option.bind_some, hworld]
  split <;> rfl

theorem Inv.dropDel_isSome (h : Inv wakeFd s) (ho : s.owners k = some o)
    (hphase : o.phase = .dropping true) : (s.dropDel k).isSome = true := by
  have hfits := (h.owned.held.fits k o ho).phase
  rw [hphase] at hfits
  have hworld := world_step_eq (World.Step.deregisterDel hfits.2)
  simp only [State.dropDel, ho, hphase, Option.bind_eq_bind, Option.bind_some, hworld]
  rfl

theorem Inv.close_isSome (h : Inv wakeFd s) (ho : s.owners k = some o)
    (hphase : o.phase = .dropping false) : (s.close k).isSome = true := by
  have hfits := (h.owned.held.fits k o ho).phase
  rw [hphase] at hfits
  obtain ⟨world, hworld⟩ := h.owned.close ho hfits.2 hfits.1
  simp only [State.close, ho, hphase, Option.bind_eq_bind, Option.bind_some, hworld]
  rfl

theorem Inv.step_isSome (h : Inv wakeFd s) {op : Op W σ ε χ} (hcan : s.Can K op) :
    (s.step K op).isSome = true := by
  cases op with
  | bind k fd flags st | connect k fd flags st =>
    simp only [State.step, adopt_eq hcan.1 hcan.2]
    rfl
  | setNonblocking k getErr setErr =>
    obtain ⟨o, poll, ho, hphase⟩ := hcan
    exact h.setNonblocking_isSome ho hphase getErr setErr
  | future f k kind =>
    obtain ⟨hf, o, ho, hborrow⟩ := hcan
    simp only [State.step, State.future, ho, hf, hborrow, Option.bind_eq_bind, Option.bind_some]
    rfl
  | dropFuture f =>
    obtain ⟨t, ht, hpos⟩ := hcan
    obtain ⟨o, ho, -⟩ := h.borrowed.lender f t ht
    simp only [State.step, State.dropFuture, ht, ho, hpos, Option.bind_eq_bind, Option.bind_some]
    rfl
  | pollAccept f w c k fd flags =>
    obtain ⟨⟨t, ht, hpos, hkind⟩, hk, hfd⟩ := hcan
    exact h.pollAccept_isSome ht hpos hkind hk hfd w c flags
  | pollRead f w c =>
    obtain ⟨t, buf, ht, hpos, hkind⟩ := hcan
    exact h.pollRead_isSome ht hpos hkind w c
  | pollWrite f w c =>
    obtain ⟨t, buf, ht, hpos, hkind⟩ := hcan
    exact h.pollWrite_isSome ht hpos hkind w c
  | register f refused =>
    obtain ⟨t, w, ht, hpos⟩ := hcan
    exact h.register_isSome ht hpos refused
  | drop k =>
    obtain ⟨o, ho, hphase, hborrow⟩ := hcan
    simp only [State.step, State.drop, ho, hphase, hborrow, Option.bind_eq_bind, Option.bind_some]
    rfl
  | dropDel k =>
    obtain ⟨o, ho, hphase⟩ := hcan
    exact h.dropDel_isSome ho hphase
  | close k =>
    obtain ⟨o, ho, hphase⟩ := hcan
    exact h.close_isSome ho hphase
  | wake => rfl
  | epollWait evs =>
    obtain ⟨hbatch, hevs, hnoticed⟩ := hcan
    have hworld := world_step_eq (World.Step.epollWait hbatch hevs)
    simp only [State.step, State.epollWait]
    rw [if_pos hnoticed, hworld]
    rfl
  | process =>
    obtain ⟨evs, hbatch⟩ := Option.ne_none_iff_exists'.mp hcan
    have hworld := world_step_eq (World.Step.process hbatch)
    simp only [State.step, State.process, hbatch, Option.bind_eq_bind, Option.bind_some, hworld]
    rfl
  | happens fd e =>
    obtain ⟨sock, st, hsock, hhappens⟩ := hcan
    simp only [State.step, State.happens, hsock, hhappens, Option.bind_eq_bind, Option.bind_some]
    rfl

end Can

/-- What is left of a descriptor when its object has gone: nothing. -/
theorem Inv.unowned (h : Inv wakeFd s) {fd : Fd} (hne : fd ≠ wakeFd)
    (hfree : ∀ k o, s.owners k = some o → o.fd ≠ fd) :
    s.world.isOpen fd = false ∧ s.world.reactor.registrations fd = none ∧
      s.world.reactor.epoll.interest fd = none := by
  obtain ⟨g, hg⟩ := h.world
  have hidle := h.owned.held.idle fd hfree
  have hopen : s.world.isOpen fd = false :=
    (congrArg View.isOpen hidle).trans (decide_eq_false hne)
  have hreg : (s.world.reactor.registrations fd).isSome = false := congrArg View.registered hidle
  have hclosing : s.world.closing fd = false := congrArg View.closing hidle
  have hlisted := (World.run_ok hg).agree fd (h.owned.eventfd ▸ hne)
  have hinterest := hlisted.listed.not
  simp only [Reactor.view, hreg, hclosing, Bool.false_eq_true, or_self, not_false_eq_true, iff_true,
    Bool.not_eq_true, Option.isSome_eq_false_iff, Option.isNone_iff_eq_none] at hinterest
  rw [Option.isSome_eq_false_iff, Option.isNone_iff_eq_none] at hreg
  exact ⟨hopen, hreg, hinterest⟩

/-- **The sockets keep to the discipline of the reactor**, whatever the TCP of the kernel does. In
every state that any number of objects and futures can reach: the reactor is in a state that it can
be in when its callers keep to its rules; whatever the borrow rules and the kernel allow can be
carried out; and the descriptors that are open are the eventfd and those of the objects, one for
each. Of the others nothing is left in the reactor or in the kernel. -/
theorem net_discipline {h : List (Op W σ ε χ × Result W)}
    (hr : Run (State.system W K) (.start wakeFd) h s) :
    (∃ g, Run (World.system W) (World.start wakeFd) g s.world) ∧
    (∀ op, s.Can K op → ∃ res s', s.step K op = some (res, s')) ∧
    (∀ k k' o o', s.owners k = some o → s.owners k' = some o' → o.fd = o'.fd → k = k') ∧
    s.world.isOpen wakeFd = true ∧
    (∀ k o, s.owners k = some o → o.fd ≠ wakeFd ∧ s.world.isOpen o.fd = true) ∧
    ∀ fd, fd ≠ wakeFd → (∀ k o, s.owners k = some o → o.fd ≠ fd) →
      s.world.isOpen fd = false ∧ s.world.reactor.registrations fd = none ∧
        s.world.reactor.epoll.interest fd = none := by
  have hinv := run_inv hr
  refine ⟨hinv.world, fun op hcan => ?_, hinv.owned.held.inj,
    (hinv.owned.isOpen_iff wakeFd).mpr (.inl rfl), fun k o ho => ?_,
    fun fd hne hfree => hinv.unowned hne hfree⟩
  · obtain ⟨⟨res, s'⟩, hs⟩ := Option.isSome_iff_exists.mp (hinv.step_isSome hcan)
    exact ⟨res, s', hs⟩
  · exact ⟨(hinv.owned.held.fits k o ho).ne_wakeFd, (hinv.owned.held.fits k o ho).isOpen⟩

/-- A connection is accepted while the listener waits in the reactor, and the poll goes on with its
descriptor. -/
theorem net_discipline_accepted :
    ∃ h s, Run (State.system ℕ Buffered.tcp) (.start 3) h s ∧
      s.futures 0 = some ⟨0, .accept, .accepted 1⟩ ∧
      s.owners 1 = some ⟨6, false, .raw (some 0), []⟩ ∧
      ∃ res s', s.step Buffered.tcp (.setNonblocking 1 none none) = some (res, s') := by
  obtain ⟨h, s, hr, hfuture, howner⟩ := exists_run_of_exec
    (f := State.step (W := ℕ) Buffered.tcp) (s := State.start 3)
    [.bind 0 5 2 (.listener []), .setNonblocking 0 none none, .future 0 0 .accept,
      .pollAccept 0 9 ⟨none, 0⟩ 1 6 2, .register 0 none,
      .happens 5 (.connection ⟨[], false, 0, 8, [], false, false⟩),
      .epollWait [⟨5, true, false, false, false⟩], .process, .pollAccept 0 9 ⟨none, 0⟩ 1 6 2]
    (fun p => p.2.futures 0 = some ⟨0, .accept, .accepted 1⟩ ∧
      p.2.owners 1 = some ⟨6, false, .raw (some 0), []⟩) (by decide)
  exact ⟨h, s, hr, hfuture, howner,
    (net_discipline hr).2.1 (.setNonblocking 1 none none) ⟨_, _, howner, rfl⟩⟩

end MiniAsync.Net
