/-
  No waiting read or write is forgotten.

  A poll that returns `Pending` leaves its waker in the reactor. Three things must not
  happen: that another future takes its place (as two `Accept` futures of one listener
  can), that the kernel has something to report and does not, and that an event is
  reported which does not wake the waker.

  `Oneshot` and `run_complete` are about the kernel: the descriptors are watched
  edge-triggered, so that the kernel looks at a socket only at certain times, but with
  `EPOLLONESHOT` and with the order in which a poll makes its calls nothing is
  overlooked, as long as calls of the program make no socket ready (`Tcp.Quiet`).
  `Waits.step` is about the reactor's slot. `pending_io_not_stranded` puts them together.
-/
import MiniAsync.Net.Discipline
import MiniAsync.Reactor.Batch

namespace MiniAsync.Net

open Kernel Reactor Trace Resource

variable {W σ ε χ : Type} {K : Tcp σ ε χ} {wakeFd : Fd} {s s' : State W σ}

/-! ### One event of a batch -/

section Collect

variable {r : Reactor W} {fd : Fd} {d : Bool} {w : W}

/-- An event of another descriptor leaves the waker and the interest alone. -/
theorem collect_of_ne (r : Reactor W) {ev : Event} (hne : fd ≠ ev.fd) :
    (r.collect ev).1.registrations fd = r.registrations fd ∧
      (r.collect ev).1.epoll.interest fd = r.epoll.interest fd := by
  obtain ⟨hreg, hep, -⟩ | ⟨-, -, reg, hreg, ⟨-, -, hep⟩ | hep⟩ := collect_cases r ev
  · rw [hreg, hep]
    exact ⟨rfl, rfl⟩
  · rw [hreg, hep]
    exact ⟨Function.update_of_ne hne _ _, rfl⟩
  · rw [hreg, hep]
    refine ⟨Function.update_of_ne hne _ _, ?_⟩
    cases hctl : r.epoll.ctl .mod ev.fd reg.mask false with
    | none => rfl
    | some ep =>
      obtain ⟨-, rfl⟩ := Epoll.ctl_mod hctl
      exact Epoll.set_of_ne _ hne _

theorem collectAll_of_notMem (r : Reactor W) {evs : List Event} (hfd : fd ∉ evs.map Event.fd) :
    (r.collectAll evs).1.registrations fd = r.registrations fd ∧
      (r.collectAll evs).1.epoll.interest fd = r.epoll.interest fd := by
  induction evs generalizing r with
  | nil => exact ⟨rfl, rfl⟩
  | cons ev evs ih =>
    rw [List.map_cons, List.mem_cons, not_or] at hfd
    obtain ⟨hreg, hep⟩ := ih (r.collect ev).1 hfd.2
    obtain ⟨hreg', hep'⟩ := collect_of_ne r hfd.1
    exact ⟨hreg.trans hreg', hep.trans hep'⟩

/-- An event wakes a stored waker or leaves it, and it wakes the one that it is about. -/
theorem stored_collect (hne : fd ≠ r.wakeFd) (hst : r.stored (fd, d) = some w) (ev : Event) :
    w ∈ (r.collect ev).2 ∨ (r.collect ev).1.stored (fd, d) = some w ∧
      ¬ (ev.fd = fd ∧ ev.fires d = true) := by
  by_cases hev : fd = ev.fd
  · subst hev
    obtain ⟨reg, hreg, hw⟩ := Option.bind_eq_some_iff.mp hst
    have hw : reg.waker d = some w := hw
    unfold Reactor.collect
    rw [if_neg hne, hreg]
    dsimp only
    by_cases hfires : ev.fires d = true
    · refine .inl (List.mem_append.mpr ?_)
      unfold Event.fires at hfires
      cases d with
      | true =>
        refine .inl ?_
        rw [if_pos rfl] at hfires
        rw [hfires, takeWaker, if_pos rfl, hw]
        exact List.mem_singleton_self w
      | false =>
        refine .inr ?_
        rw [if_neg Bool.false_ne_true] at hfires
        rw [hfires]
        rw [takeWaker, if_pos rfl, takeWaker_waker, if_neg (by simp), hw]
        exact List.mem_singleton_self w
    · refine .inr ⟨?_, fun h => hfires h.2⟩
      have hkept : (takeWaker (takeWaker reg true (ev.read || (ev.err || ev.hup))).1 false
          (ev.write || (ev.err || ev.hup))).1.waker d = some w := by
        rw [takeWaker_waker, takeWaker_waker]
        unfold Event.fires at hfires
        cases d with
        | true => rw [if_neg (by simp), if_neg (fun h => hfires h.2), hw]
        | false => rw [if_neg (fun h => hfires h.2), if_neg (by simp), hw]
      have hstored := stored_setReg r ev.fd (takeWaker (takeWaker reg true
        (ev.read || (ev.err || ev.hup))).1 false (ev.write || (ev.err || ev.hup))).1 (ev.fd, d)
      rw [if_pos rfl, hkept] at hstored
      exact hstored
  · refine .inr ⟨?_, fun h => hev h.1.symm⟩
    rw [Reactor.stored, (collect_of_ne r hev).1]
    exact hst

/-- A batch wakes a stored waker or leaves it, and it wakes the one that an event of it is about. -/
theorem stored_collectAll (hne : fd ≠ r.wakeFd) (hst : r.stored (fd, d) = some w)
    (evs : List Event) :
    w ∈ (r.collectAll evs).2 ∨ (r.collectAll evs).1.stored (fd, d) = some w ∧
      ∀ ev ∈ evs, ¬ (ev.fd = fd ∧ ev.fires d = true) := by
  induction evs generalizing r with
  | nil => exact .inr ⟨hst, fun ev hev => by cases hev⟩
  | cons ev evs ih =>
    rcases stored_collect hne hst ev with hmem | ⟨hst', hev⟩
    · exact .inl (List.mem_append_left _ hmem)
    · have hne' : fd ≠ (r.collect ev).1.wakeFd := by
        rw [collect_wakeFd]
        exact hne
      rcases ih hne' hst' with hmem | ⟨hst'', hevs⟩
      · exact .inl (List.mem_append_right _ hmem)
      · exact .inr ⟨hst'', List.forall_mem_cons.mpr ⟨hev, hevs⟩⟩

end Collect

/-! ### The kernel overlooks nothing -/

/-- Every descriptor but the eventfd is watched for one event only. -/
def Oneshot (r : Reactor W) : Prop :=
  ∀ fd i, fd ≠ r.wakeFd → r.epoll.interest fd = some i → i.mask.oneshot = true

section Oneshot

variable {r : Reactor W} {fd : Fd}

theorem Oneshot.arm (h : Oneshot r) (reg : Registration W) : Oneshot (r.arm fd reg) := by
  intro fd' i hne hi
  by_cases hfd : fd' = fd
  · subst hfd
    rw [Reactor.arm, Epoll.set_self] at hi
    rw [← Option.some.inj hi]
    rfl
  · have hi : (r.epoll.set fd (some ⟨reg.mask, true⟩)).interest fd' = some i := hi
    rw [Epoll.set_of_ne _ hfd] at hi
    exact h fd' i hne hi

theorem Oneshot.collect (h : Oneshot r) (ev : Event) : Oneshot (r.collect ev).1 := by
  intro fd i hne hi
  rw [collect_wakeFd] at hne
  by_cases hfd : fd = ev.fd
  · obtain ⟨-, hep, -⟩ | ⟨-, -, reg, -, ⟨-, -, hep⟩ | hep⟩ := collect_cases r ev
    · rw [hep] at hi
      exact h fd i hne hi
    · rw [hep] at hi
      exact h fd i hne hi
    · rw [hep] at hi
      cases hctl : r.epoll.ctl .mod ev.fd reg.mask false with
      | none =>
        rw [hctl] at hi
        exact h fd i hne hi
      | some ep =>
        obtain ⟨-, rfl⟩ := Epoll.ctl_mod hctl
        rw [hctl, Option.getD_some, hfd, Epoll.set_self] at hi
        rw [← Option.some.inj hi]
        rfl
  · rw [(collect_of_ne r hfd).2] at hi
    exact h fd i hne hi

theorem Oneshot.collectAll (h : Oneshot r) (evs : List Event) : Oneshot (r.collectAll evs).1 := by
  induction evs generalizing r with
  | nil => exact h
  | cons ev evs ih => exact ih (h.collect ev)

theorem Oneshot.register (h : Oneshot r) (w : W) (isRead refused : Bool) :
    Oneshot (r.register fd w isRead refused).2 := by
  obtain hfail | ⟨reg, -, hok⟩ := register_cases r fd w isRead refused
  · rw [hfail]
    exact h
  · rw [hok]
    exact h.arm reg

/-- No operation of the reactor watches a descriptor for more than one event. -/
theorem Oneshot.world {w w' : World W} {op : Reactor.Op W} {res : Reactor.Result W}
    (h : Oneshot w.reactor) (hs : World.Step w op res w') : Oneshot w'.reactor := by
  -- a descriptor that is taken off the list
  have hremove : ∀ fd, ∀ fd' i, fd' ≠ w.reactor.wakeFd →
      Function.update w.reactor.epoll.interest fd none fd' = some i → i.mask.oneshot = true := by
    intro fd fd' i hne hi
    rcases update_eq_some hi with ⟨-, hnone⟩ | ⟨-, hi⟩
    · cases hnone
    · exact h fd' i hne hi
  cases hs with
  | opened _ | deregister | wake => exact h
  | closed _ _ => exact hremove _
  | registerReadable _ => exact h.register _ _ _
  | registerWritable _ => exact h.register _ _ _
  | @deregisterDel fd _ =>
    intro fd' i hne hi
    have hi : ((w.reactor.epoll.ctl .del fd ⟨false, false, false⟩ false).getD
      w.reactor.epoll).interest fd' = some i := hi
    rw [Epoll.ctl_del] at hi
    exact hremove fd fd' i hne hi
  | @epollWait evs _ _ =>
    intro fd i hne hi
    have hi : (w.reactor.epoll.wait evs).interest fd = some i := hi
    rw [Epoll.wait_interest] at hi
    split_ifs at hi
    · obtain ⟨j, hj, rfl⟩ := Option.map_eq_some_iff.mp hi
      have hj := h fd j hne hj
      rw [Interest.spent, if_pos hj]
      exact hj
    · exact h fd i hne hi
  | process _ => exact h.collectAll _

theorem run_oneshot {w : World W} {g : List (Reactor.Op W × Reactor.Result W)}
    (hr : Run (World.system W) (World.start wakeFd) g w) : Oneshot w.reactor := by
  refine hr.invariant (I := fun _ w => Oneshot w.reactor) ?_
    fun _ _ _ _ _ _ h hs => h.world (World.step_cases hs)
  intro fd i hne hi
  have hne : fd ≠ wakeFd := hne
  have hi : (Epoll.new.set wakeFd (some ⟨⟨true, false, false⟩, true⟩)).interest fd = some i := hi
  rw [Epoll.set_of_ne _ hne] at hi
  cases hi

end Oneshot

/-- The ready list of the kernel contains all that could be reported. -/
abbrev State.Complete (K : Tcp σ ε χ) (s : State W σ) : Prop :=
  Kernel.Complete K s.world.reactor.epoll s.sockets s.ready

section Complete

variable {k : ℕ} {o : Owner} {op : Op W σ ε χ} {res : Result W}

theorem Inv.interest_of_closed (h : Inv wakeFd s) {fd : Fd} (hfd : ¬ s.world.isOpen fd = true) :
    s.world.reactor.epoll.interest fd = none := by
  rw [h.owned.isOpen_iff, not_or] at hfd
  exact (h.unowned hfd.1 fun k o ho heq => hfd.2 ⟨k, o, ho, heq⟩).2.2

/-- The eventfd is not a socket. -/
theorem Inv.socket_wakeFd (h : Inv wakeFd s) : s.sockets wakeFd = none := by
  have hidle := h.owned.held.idle wakeFd fun k o ho => (h.owned.held.fits k o ho).ne_wakeFd
  exact Option.map_eq_none_iff.mp (congrArg View.mode hidle)

/-- A new socket is not watched yet. -/
theorem complete_adopted {fd : Fd} (h : s.Complete K)
    (hfd : s.world.reactor.epoll.interest fd = none) (k : ℕ) (sock : Socket σ) (l : Bool)
    (poll : Option ℕ) : (s.adopted k fd sock l poll).Complete K := by
  intro fd' hreport
  by_cases hne : fd' = fd
  · subst hne
    obtain ⟨i, -, hi, -⟩ := hreport
    rw [show s.world.reactor.epoll.interest fd' = some i from hi] at hfd
    cases hfd
  · exact h fd' (hreport.congr rfl (Function.update_of_ne hne ..))

theorem complete_returned (h : s.Complete K) (poll : Option ℕ) :
    (s.returned poll).Complete K := by
  cases poll <;> exact h

theorem setNonblocking_state {sock sock' : Socket σ} {getErr setErr : Option Errno}
    (h : setNonblocking sock getErr setErr = .ok sock') : sock'.state = sock.state := by
  cases getErr with
  | some e => cases h
  | none =>
    cases setErr with
    | some e => cases h
    | none =>
      cases h
      rfl

/-- The closed socket is forgotten. -/
theorem complete_closed (h : s.Complete K) {world : World W}
    (hworld : World.Step s.world (.close o.fd) .done world) :
    (s.closed k o.fd world).Complete K := by
  cases hworld with
  | closed _ _ =>
    apply Complete.unready
    · apply Complete.change h
      · intro fd' hne
        exact Epoll.set_of_ne _ hne _
      · intro fd' hne
        exact Function.update_of_ne hne _ _
    · rintro ⟨i, sock, -, -, hs, -⟩
      have hnone : Function.update s.sockets o.fd none o.fd = none := Function.update_self ..
      cases hnone.symm.trans hs

/-- The call of the kernel that a poll begins with makes no socket ready. -/
theorem quiet_call (hK : K.Quiet) (kind : FutureKind) (st : σ) (c : χ) :
    (K.readiness (kind.call K st c).2).Le (K.readiness st) := by
  cases kind with
  | accept => exact hK.accept st c
  | read buf => exact hK.read st buf.length c
  | write buf => exact hK.write st buf c

/-- A call that makes no socket ready keeps the ready list complete. -/
theorem complete_setState (h : s.Complete K) {f : ℕ} {t : Future W} {fd : Fd} {sock : Socket σ}
    {st : σ} (hidle : s.idle f = some (t, fd, sock))
    (hle : (K.readiness st).Le (K.readiness sock.state)) : (s.setState fd sock st).Complete K :=
  Complete.le h (idle_eq_some hidle).2.2.1 hle

/-- A descriptor that has been deleted is not watched. -/
theorem complete_dropDel (h : s.Complete K) {world : World W}
    (hworld : World.Step s.world (.deregisterDel o.fd) .done world) (q : Option Owner) :
    ((({ s with world := world }).unready o.fd).setOwner k q).Complete K := by
  cases hworld with
  | deregisterDel _ =>
    have hinterest : (s.world.reactor.deregisterDel o.fd).epoll.interest =
        Function.update s.world.reactor.epoll.interest o.fd none := Epoll.ctl_del _ _ _
    apply Complete.unready
    · apply Complete.change h
      · intro fd' hne
        exact (congrFun hinterest fd').trans (Function.update_of_ne hne _ _)
      · exact fun _ _ => rfl
    · rintro ⟨i, -, hi, -⟩
      have hnone := (congrFun hinterest o.fd).trans (Function.update_self ..)
      cases hnone.symm.trans hi

/-- What `epoll_wait` has reported is disabled. -/
theorem complete_epollWait (hinv : Inv wakeFd s) (h : s.Complete K) {evs : List Event}
    {world : World W} (hworld : World.Step s.world (.epollWait evs) .done world) :
    State.Complete K { s with
      world := world, ready := fun fd => s.ready fd && !(evs.map Event.fd).contains fd } := by
  cases hworld with
  | epollWait _ _ =>
    intro fd ⟨i, sock, hi, henabled, hsock, hreport⟩
    have hi : (s.world.reactor.epoll.wait evs).interest fd = some i := hi
    have hsock : s.sockets fd = some sock := hsock
    rw [Epoll.wait_interest] at hi
    split_ifs at hi with hmem
    · obtain ⟨j, hj, rfl⟩ := Option.map_eq_some_iff.mp hi
      have hne : fd ≠ s.world.reactor.wakeFd := by
        intro heq
        rw [heq, hinv.owned.eventfd, hinv.socket_wakeFd] at hsock
        cases hsock
      obtain ⟨g, hg⟩ := hinv.world
      rw [Interest.spent, if_pos (run_oneshot hg fd j hne hj)] at henabled
      cases henabled
    · have hready : s.ready fd = true := h fd ⟨i, sock, hi, henabled, hsock, hreport⟩
      show (s.ready fd && !(evs.map Event.fd).contains fd) = true
      rw [hready, Bool.true_and, Bool.not_eq_true', ← Bool.not_eq_true, List.contains_iff_mem]
      exact hmem

/-- The kernel looks at what `Reactor::poll` arms again. -/
theorem complete_process (h : s.Complete K) {evs : List Event} {res : Reactor.Result W}
    {world : World W} (hbatch : s.world.batch = some evs)
    (hworld : World.Step s.world .process res world) :
    State.Complete K { s with
      world := world
      ready := fun fd => s.ready fd || ((evs.map Event.fd).contains fd &&
        decide (Reportable K world.reactor.epoll s.sockets fd)) } := by
  intro fd hreport
  show (s.ready fd || ((evs.map Event.fd).contains fd &&
    decide (Reportable K world.reactor.epoll s.sockets fd))) = true
  rw [decide_eq_true hreport, Bool.and_true, Bool.or_eq_true, List.contains_iff_mem]
  by_cases hmem : fd ∈ evs.map Event.fd
  · exact .inr hmem
  · cases hworld with
    | @process evs' hbatch' =>
      obtain rfl : evs' = evs := Option.some.inj (hbatch'.symm.trans hbatch)
      exact .inl (h fd (hreport.congr (collectAll_of_notMem _ hmem).2 rfl))

/-- **Every step keeps the ready list complete.** -/
theorem State.Complete.step (hK : K.Quiet) (hinv : Inv wakeFd s) (h : s.Complete K)
    (hs : State.Step K s op res s') : s'.Complete K := by
  cases hs with
  | bind _ hfd => exact complete_adopted h (hinv.interest_of_closed hfd) _ _ _ _
  | connect _ hfd => exact complete_adopted h (hinv.interest_of_closed hfd) _ _ _ _
  | made _ _ hsock hset =>
    apply complete_returned
    refine Complete.le h hsock ?_
    rw [setNonblocking_state hset]
    exact .refl _
  | unmade _ _ _ _ hworld => exact complete_returned (complete_closed h hworld) _
  | future _ _ _ | dropFuture _ _ _ | wake => exact h
  | @failed _ _ _ c _ t _ sock st _ hidle hcall =>
    have hle := quiet_call hK t.kind sock.state c
    rw [hcall] at hle
    exact complete_setState h hidle hle
  | @wouldBlock _ _ _ c t _ sock st _ hidle hcall _ =>
    have hle := quiet_call hK t.kind sock.state c
    rw [hcall] at hle
    exact complete_setState h hidle hle
  | @accepted f w c k fd flags t lfd sock conn st hk hfd hidle _ hcall =>
    have hle := hK.accept sock.state c
    rw [hcall] at hle
    have hlistener := complete_setState h hidle hle
    exact complete_adopted hlistener (hinv.interest_of_closed hfd) k ⟨flags, conn⟩ false (some f)
  | @read f w c t fd sock buf bytes st hidle _ hcall =>
    have hle := hK.read sock.state buf.length c
    rw [hcall] at hle
    exact complete_setState h hidle hle
  | @written f w c t fd sock buf n st hidle _ hcall =>
    have hle := hK.write sock.state buf c
    rw [hcall] at hle
    exact complete_setState h hidle hle
  | @register f refused t o w ok world ht ho hpos hworld =>
    obtain ⟨-, rfl⟩ := State.register_step_cases hworld
    apply complete_notify
    apply Complete.change h
    · intro fd' hne
      exact (register_of_ne _ hne ..).2
    · exact fun _ _ => rfl
  | drop _ _ _ hworld =>
    cases hworld with
    | deregister => exact h
  | dropDel _ _ hworld => exact complete_dropDel h hworld _
  | close _ _ hworld => exact complete_closed h hworld
  | epollWait _ hworld => exact complete_epollWait hinv h hworld
  | process hbatch hworld => exact complete_process h hbatch hworld
  | @happens fd e sock st hsock _ =>
    apply complete_notify
    apply Complete.change h
    · exact fun _ _ => rfl
    · intro fd' hne
      exact Function.update_of_ne hne _ _

theorem run_complete (hK : K.Quiet) {h : List (Op W σ ε χ × Result W)}
    (hr : Run (State.system W K) (.start wakeFd) h s) : s.Complete K := by
  refine hr.invariant (I := fun _ s => s.Complete K) ?_
    fun _ _ _ _ _ hr h hs => h.step hK (run_inv hr) (State.step_cases hs)
  rintro fd ⟨i, sock, -, -, hsock, -⟩
  cases hsock

end Complete

/-! ### The waker stays -/

/-- The future `f` waits for the object `k` with the descriptor `fd`, with its waker in the
reactor. -/
structure Waits (s : State W σ) (f k : ℕ) (kind : FutureKind) (fd : Fd) (w : W) : Prop where
  future : s.futures f = some ⟨k, kind, .idle⟩
  owner : (s.owners k).map Owner.fd = some fd
  stored : s.world.reactor.stored (fd, kind.isRead) = some w

/-- The future stops waiting rightly: it is polled again, it is dropped, or it is woken. -/
def Releases (f : ℕ) (w : W) : Op W σ ε χ × Result W → Prop
  | (.pollAccept f' _ _ _ _ _, _) | (.pollRead f' _ _, _) | (.pollWrite f' _ _, _)
  | (.dropFuture f', _) => f' = f
  | (.process, .woken ws) => w ∈ ws
  | _ => False

section Waits

variable {f k : ℕ} {kind : FutureKind} {fd : Fd} {w : W} {op : Op W σ ε χ} {res : Result W}

theorem releases_of_polls {f' : ℕ} {x : W × χ} (hop : op.polls = some (f', x)) (hf : f' = f) :
    Releases f w (op, res) := by
  cases op with
  | pollAccept _ _ _ _ _ _ | pollRead _ _ _ | pollWrite _ _ _ =>
    cases hop
    exact hf
  | _ => cases hop

/-- A step that leaves the future and its registration alone, and keeps the object. -/
theorem Waits.keep (h : Waits s f k kind fd w) (hf : s'.futures f = s.futures f)
    (ho : (s'.owners k).map Owner.fd = (s.owners k).map Owner.fd)
    (hreg : s'.world.reactor.registrations fd = s.world.reactor.registrations fd) :
    Waits s' f k kind fd w := by
  refine ⟨hf.trans h.future, ho.trans h.owner, ?_⟩
  rw [Reactor.stored, hreg]
  exact h.stored

/-- The step changes nothing of an object but its phase and its borrowers. -/
theorem map_fd_setOwner {owners : ℕ → Option Owner} {k' : ℕ} {q : Owner}
    (hq : owners k' = some q) (phase : Phase) (borrowers : List ℕ) (k : ℕ) :
    (Function.update owners k' (some ⟨q.fd, q.isListener, phase, borrowers⟩) k).map Owner.fd =
      (owners k).map Owner.fd := by
  by_cases hk : k = k'
  · subst hk
    rw [Function.update_self, hq]
    rfl
  · rw [Function.update_of_ne hk]

theorem map_fd_of_ne {owners : ℕ → Option Owner} {k' : ℕ} (hne : k ≠ k') (q : Option Owner) :
    (Function.update owners k' q k).map Owner.fd = (owners k).map Owner.fd := by
  rw [Function.update_of_ne hne]

theorem eq_of_mem_of_length_le_one {l : List ℕ} (hl : l.length ≤ 1) {a b : ℕ} (ha : a ∈ l)
    (hb : b ∈ l) : a = b := by
  cases l with
  | nil => cases ha
  | cons x l =>
    have hnil : l = [] := List.eq_nil_of_length_eq_zero (by rw [List.length_cons] at hl; omega)
    rw [hnil, List.mem_singleton] at ha hb
    rw [ha, hb]

theorem futures_returned {poll : Option ℕ} (hf : s.futures f = some ⟨k, kind, .idle⟩) :
    (s.returned poll).futures f = s.futures f := by
  cases poll with
  | none => rfl
  | some f' =>
    show Function.update s.futures f' ((s.futures f').map _) f = s.futures f
    by_cases hff : f = f'
    · subst hff
      rw [Function.update_self, hf]
      rfl
    · rw [Function.update_of_ne hff]

/-- The descriptor of a waiting future is a socket, and not the eventfd. -/
theorem Waits.socket (hinv : Inv wakeFd s) (hw : Waits s f k kind fd w) :
    fd ≠ s.world.reactor.wakeFd ∧ ∃ sock, s.sockets fd = some sock := by
  obtain ⟨o, ho, rfl⟩ := Option.map_eq_some_iff.mp hw.owner
  obtain ⟨sock, hsock, -⟩ := hinv.owned.exists_socket ho
  refine ⟨?_, sock, hsock⟩
  rw [hinv.owned.eventfd]
  exact (hinv.owned.held.fits k o ho).ne_wakeFd

/-- Only one future borrows a stream, so the others do not register its descriptor. -/
theorem Waits.fd_ne (hinv : Inv wakeFd s) (h : Waits s f k kind fd w) (hkind : kind ≠ .accept)
    {f' : ℕ} {t : Future W} {q : Owner} (ht : s.futures f' = some t)
    (hq : s.owners t.owner = some q) (hff : f ≠ f') : fd ≠ q.fd := by
  obtain ⟨o, ho, -, hmem, hl⟩ := hinv.borrowed.lender f _ h.future
  have hl : o.isListener = false := by
    rw [← Bool.not_eq_true]
    exact fun hlistener => hkind (hl.mpr hlistener)
  obtain rfl : o.fd = fd := by
    have howner := h.owner
    rw [ho] at howner
    exact Option.some.inj howner
  intro heq
  have hk := hinv.owned.held.inj _ _ _ _ ho hq heq
  obtain ⟨q', hq', -, hmem', -⟩ := hinv.borrowed.lender f' t ht
  rw [← hk] at hq'
  rw [Option.some.inj (hq'.symm.trans ho)] at hmem'
  exact hff (eq_of_mem_of_length_le_one ((hinv.borrowed.exclusive k o ho).2 hl) hmem hmem')

/-- **One step.** A waker of a read or a write stays until it is released rightly. -/
theorem Waits.step (hinv : Inv wakeFd s) (h : Waits s f k kind fd w) (hkind : kind ≠ .accept)
    (hs : State.Step K s op res s') : Waits s' f k kind fd w ∨ Releases f w (op, res) := by
  obtain ⟨o, ho, hlive, hmem, -⟩ := hinv.borrowed.lender f _ h.future
  obtain rfl : o.fd = fd := by
    have howner := h.owner
    rw [ho] at howner
    exact Option.some.inj howner
  -- an object that is made or dropped is not this one
  have hnew : ∀ k', s.owners k' = none → k ≠ k' := by
    rintro k' hk' rfl
    cases hk'.symm.trans ho
  have hne : ∀ k' q, s.owners k' = some q → q.phase ≠ .live → k ≠ k' := by
    rintro k' q hq hphase rfl
    rw [Option.some.inj (hq.symm.trans ho)] at hphase
    exact hphase hlive
  cases hs with
  | bind hk _ => exact .inl (h.keep rfl (map_fd_of_ne (hnew _ hk) _) rfl)
  | connect hk _ => exact .inl (h.keep rfl (map_fd_of_ne (hnew _ hk) _) rfl)
  | @made k' _ _ q poll _ _ hq hphase _ _ =>
    refine .inl (h.keep (futures_returned h.future) ?_ ?_)
    · rw [State.returned_owners]
      exact map_fd_setOwner hq _ _ k
    · rw [State.returned_world]
      rfl
  | @unmade k' _ _ q poll _ _ _ hq hphase _ _ hworld =>
    refine .inl (h.keep (futures_returned h.future) ?_ ?_)
    · rw [State.returned_owners]
      exact map_fd_of_ne (hne k' q hq (by rw [hphase]; exact Phase.noConfusion)) _
    · rw [State.returned_world]
      cases hworld with
      | closed _ _ => rfl
  | @future f' k' kind' q hq hf' _ =>
    refine .inl (h.keep (Function.update_of_ne ?_ ..) (map_fd_setOwner hq _ _ k) rfl)
    rintro rfl
    cases hf'.symm.trans h.future
  | @dropFuture f' t q ht hq _ =>
    by_cases hff : f' = f
    · exact .inr hff
    · exact .inl (h.keep (Function.update_of_ne (Ne.symm hff) ..) (map_fd_setOwner hq _ _ k) rfl)
  | failed _ _ _ => exact .inl (h.keep rfl rfl rfl)
  | @wouldBlock _ f' _ _ _ _ _ _ hop _ _ _ =>
    by_cases hff : f' = f
    · exact .inr (releases_of_polls hop hff)
    · exact .inl (h.keep (Function.update_of_ne (Ne.symm hff) ..) rfl rfl)
  | @accepted f' _ _ k' _ _ _ _ _ _ _ hk _ _ _ _ =>
    by_cases hff : f' = f
    · exact .inr hff
    · exact .inl
        (h.keep (Function.update_of_ne (Ne.symm hff) ..) (map_fd_of_ne (hnew _ hk) _) rfl)
  | @read f' _ _ _ _ _ _ _ _ _ _ _ =>
    by_cases hff : f' = f
    · exact .inr hff
    · exact .inl (h.keep (Function.update_of_ne (Ne.symm hff) ..) rfl rfl)
  | written _ _ _ => exact .inl (h.keep rfl rfl rfl)
  | @register f' refused t q x ok world ht hq hpos hworld =>
    obtain ⟨-, rfl⟩ := State.register_step_cases hworld
    have hff : f ≠ f' := by
      rintro rfl
      rw [Option.some.inj (ht.symm.trans h.future)] at hpos
      cases hpos
    have hfd := h.fd_ne hinv hkind ht hq hff
    exact .inl (h.keep (Function.update_of_ne hff ..) rfl (register_of_ne _ hfd ..).1)
  | @drop k' q world hq hphase hborrow hworld =>
    have hk : k ≠ k' := by
      rintro rfl
      rw [Option.some.inj (hq.symm.trans ho)] at hborrow
      rw [hborrow] at hmem
      cases hmem
    have hfd : o.fd ≠ q.fd := hinv.owned.held.ne_of_ne hq hk ho
    refine .inl (h.keep rfl (map_fd_of_ne hk _) ?_)
    cases hworld with
    | deregister => exact Function.update_of_ne hfd _ _
  | @dropDel k' q world hq hphase hworld =>
    refine .inl (h.keep rfl (map_fd_of_ne (hne k' q hq ?_) _) ?_)
    · rw [hphase]
      exact Phase.noConfusion
    · cases hworld with
      | deregisterDel _ => rfl
  | @close k' q world hq hphase hworld =>
    refine .inl (h.keep rfl (map_fd_of_ne (hne k' q hq ?_) _) ?_)
    · rw [hphase]
      exact Phase.noConfusion
    · cases hworld with
      | closed _ _ => rfl
  | wake => exact .inl (h.keep rfl rfl rfl)
  | epollWait _ hworld =>
    refine .inl (h.keep rfl rfl ?_)
    cases hworld with
    | epollWait _ _ => rfl
  | @process evs ws world hbatch hworld =>
    cases hworld with
    | @process evs' hbatch' =>
      rcases stored_collectAll (h.socket hinv).1 h.stored evs' with hwoken | ⟨hstored, -⟩
      · exact .inr hwoken
      · exact .inl ⟨h.future, h.owner, hstored⟩
  | happens _ _ => exact .inl (h.keep rfl rfl rfl)

/-- A poll that returns `Pending` leaves its waker in the reactor. -/
theorem waits_of_pending {refused : Option Errno}
    (ht : s.futures f = some ⟨k, kind, .registering w⟩)
    (hpend : s.step K (.register f refused) = some (.pending, s')) :
    ∃ fd, Waits s' f k kind fd w := by
  generalize hres : Result.pending = res at hpend
  cases State.step_cases hpend with
  | failed hop _ _ => cases hop
  | wouldBlock hop _ _ _ => cases hop
  | @register _ _ t o x ok world ht' ho hpos hworld =>
    obtain rfl : t = ⟨k, kind, .registering w⟩ := Option.some.inj (ht'.symm.trans ht)
    cases hpos
    refine ⟨o.fd, Function.update_self .., ?_, ?_⟩
    · exact congrArg (Option.map Owner.fd) ho
    obtain ⟨hok, rfl⟩ := State.register_step_cases hworld
    obtain hfail | ⟨reg, hw, harm⟩ :=
      register_cases s.world.reactor o.fd w kind.isRead refused.isSome
    · -- the call would have returned the error
      rw [hfail] at hok
      cases hok
      cases hres
    · show (s.world.reactor.register o.fd w kind.isRead refused.isSome).2.stored
        (o.fd, kind.isRead) = some w
      rw [harm]
      exact (stored_setReg s.world.reactor o.fd reg (o.fd, kind.isRead)).trans
        ((if_pos rfl).trans hw)

/-- **Whole runs.** -/
theorem Waits.run {g h : List (Op W σ ε χ × Result W)} (hkind : kind ≠ .accept)
    (hr : Run (State.system W K) (.start wakeFd) g s) (hw : Waits s f k kind fd w)
    (hr' : Run (State.system W K) s h s') :
    Waits s' f k kind fd w ∨ ∃ e ∈ h, Releases f w e := by
  refine hr'.invariant (I := fun h s' => Waits s' f k kind fd w ∨ ∃ e ∈ h, Releases f w e)
    (.inl hw) ?_
  intro h₁ s₁ op res s₂ hrun hI hs
  rcases hI with hwaits | ⟨e, he, hrel⟩
  · rcases hwaits.step (run_inv (hr.append hrun)) hkind (State.step_cases hs) with hkept | hrel
    · exact .inl hkept
    · exact .inr ⟨_, List.mem_append_right _ (List.mem_singleton_self _), hrel⟩
  · exact .inr ⟨e, List.mem_append_left _ he, hrel⟩

end Waits

/-! ### The event comes -/

/-- The kernel has the descriptor on its ready list and can report it as soon as the driver asks;
and when the driver has processed the batch that reports it, the future has been released. -/
structure Due (K : Tcp σ ε χ) (s : State W σ) (f : ℕ) (fd : Fd) (w : W) : Prop where
  listed : s.ready fd = true
  reports : s.world.batch = none →
    ∃ e s', e.fd = fd ∧ s.step K (.epollWait [e]) = some (.done, s')
  wakes : ∀ evs h s', (∃ e ∈ evs, e.fd = fd) →
    Run (State.system W K) s ((.epollWait evs, .done) :: h) s' → (∃ res, (.process, res) ∈ h) →
    ∃ e ∈ h, Releases f w e

section Due

variable {f k : ℕ} {kind : FutureKind} {fd : Fd} {w : W} {op : Op W σ ε χ} {res : Result W}
  {evs : List Event} {g h : List (Op W σ ε χ × Result W)}

/-- A batch stays until it is processed. -/
theorem State.Step.batch (hs : State.Step K s op res s') (hop : op ≠ .process)
    (hbatch : s.world.batch = some evs) : s'.world.batch = some evs := by
  cases hs with
  | process _ _ => exact absurd rfl hop
  | epollWait _ hworld =>
    cases hworld with
    | epollWait hnone _ => cases hnone.symm.trans hbatch
  | made _ _ _ _ =>
    rw [State.returned_world]
    exact hbatch
  | unmade _ _ _ _ hworld =>
    rw [State.returned_world]
    cases hworld with
    | closed _ _ => exact hbatch
  | register _ _ _ hworld =>
    obtain ⟨-, rfl⟩ := State.register_step_cases hworld
    exact hbatch
  | drop _ _ _ hworld =>
    cases hworld with
    | deregister => exact hbatch
  | dropDel _ _ hworld =>
    cases hworld with
    | deregisterDel _ => exact hbatch
  | close _ _ hworld =>
    cases hworld with
    | closed _ _ => exact hbatch
  | _ => exact hbatch

/-- A batch that has an event for the future releases it when it is processed. -/
theorem Waits.process (hinv : Inv wakeFd s) (hw : Waits s f k kind fd w)
    (hbatch : s.world.batch = some evs)
    (hev : ∃ e ∈ evs, e.fd = fd ∧ e.fires kind.isRead = true)
    (hs : State.Step K s .process res s') :
    Releases f w ((.process, res) : Op W σ ε χ × Result W) := by
  cases hs with
  | failed hop _ _ => cases hop
  | wouldBlock hop _ _ _ => cases hop
  | process _ hworld =>
    cases hworld with
    | @process evs' hbatch' =>
      obtain rfl : evs' = evs := Option.some.inj (hbatch'.symm.trans hbatch)
      rcases stored_collectAll (hw.socket hinv).1 hw.stored evs' with hmem | ⟨-, hnone⟩
      · exact hmem
      · obtain ⟨e, he, hfires⟩ := hev
        exact absurd hfires (hnone e he)

/-- Whatever comes between `epoll_wait` and the second half of `poll`, the future is released by
the end of it. -/
theorem Waits.released (hkind : kind ≠ .accept) (hr : Run (State.system W K) (.start wakeFd) g s)
    (hw : Waits s f k kind fd w) (hbatch : s.world.batch = some evs)
    (hev : ∃ e ∈ evs, e.fd = fd ∧ e.fires kind.isRead = true)
    (hr' : Run (State.system W K) s h s') (hprocess : ∃ res, (.process, res) ∈ h) :
    ∃ e ∈ h, Releases f w e := by
  have hrun : (∃ e ∈ h, Releases f w e) ∨ (∀ res, (.process, res) ∉ h) ∧ Waits s' f k kind fd w ∧
      s'.world.batch = some evs := by
    refine hr'.invariant (I := fun h s' => (∃ e ∈ h, Releases f w e) ∨
      (∀ res, (.process, res) ∉ h) ∧ Waits s' f k kind fd w ∧ s'.world.batch = some evs) ?_ ?_
    · exact .inr ⟨fun _ => List.not_mem_nil, hw, hbatch⟩
    · intro h₁ s₁ op res s₂ hrun hI hs
      have hinv := run_inv (hr.append hrun)
      rcases hI with ⟨e, he, hrel⟩ | ⟨hnone, hwaits, hbatch₁⟩
      · exact .inl ⟨e, List.mem_append_left _ he, hrel⟩
      · have hlast : (op, res) ∈ h₁ ++ [(op, res)] :=
          List.mem_append_right _ (List.mem_singleton_self _)
        have hstep := State.step_cases hs
        by_cases hop : op = .process
        · subst hop
          exact .inl ⟨_, hlast, hwaits.process hinv hbatch₁ hev hstep⟩
        · rcases hwaits.step hinv hkind hstep with hkept | hrel
          · refine .inr ⟨fun res' hmem => ?_, hkept, hstep.batch hop hbatch₁⟩
            rcases List.mem_append.mp hmem with hmem | hmem
            · exact hnone res' hmem
            · exact hop (congrArg Prod.fst (List.mem_singleton.mp hmem)).symm
          · exact .inl ⟨_, hlast, hrel⟩
  rcases hrun with hrel | ⟨hnone, -⟩
  · exact hrel
  · obtain ⟨res, hmem⟩ := hprocess
    exact absurd hmem (hnone res)

/-- The kernel can report a descriptor that it has noticed. -/
theorem step_epollWait {i : Interest} {sock : Socket σ} (hne : fd ≠ s.world.reactor.wakeFd)
    (hi : s.world.reactor.epoll.interest fd = some i) (henabled : i.enabled = true)
    (hsock : s.sockets fd = some sock)
    (hreport : (K.readiness sock.state).reportable i.mask = true)
    (hlisted : s.ready fd = true) (hbatch : s.world.batch = none) :
    ∃ s', s.step K (.epollWait [(K.readiness sock.state).event fd i.mask]) = some (.done, s') := by
  have hmay : s.world.MayReport [(K.readiness sock.state).event fd i.mask] := by
    refine ⟨⟨?_, List.nodup_singleton _, fun e he => ?_⟩, fun e he hwake => ?_⟩
    · rw [List.length_singleton]
      decide
    · rw [List.mem_singleton.mp he]
      refine ⟨i, hi, henabled, fun h => (Bool.and_eq_true_iff.mp h).1,
        fun h => (Bool.and_eq_true_iff.mp h).1, ?_⟩
      simpa only [Readiness.reportable, Readiness.event, Bool.or_eq_true, or_assoc] using hreport
    · rw [List.mem_singleton.mp he] at hwake
      exact absurd hwake hne
  have hnoticed : ∀ e ∈ [(K.readiness sock.state).event fd i.mask],
      e.fd ≠ s.world.reactor.wakeFd → s.Noticed K e := by
    intro e he _
    rw [List.mem_singleton.mp he]
    exact ⟨hlisted, i, sock, hi, hsock, rfl⟩
  simp only [State.step, State.epollWait]
  rw [if_pos hnoticed, world_step_eq (World.Step.epollWait hbatch hmay)]
  exact ⟨_, rfl⟩

/-- An event of a ready descriptor is one that the future waits for. -/
theorem Waits.epollWait (hinv : Inv wakeFd s) (hkind : kind ≠ .accept)
    (hw : Waits s f k kind fd w) {i : Interest} {sock : Socket σ}
    (hi : s.world.reactor.epoll.interest fd = some i) (hmask : i.mask.has kind.isRead = true)
    (hsock : s.sockets fd = some sock)
    (hready : (K.readiness sock.state).has kind.isRead = true)
    (hev : ∃ e ∈ evs, e.fd = fd) (hs : s.step K (.epollWait evs) = some (res, s')) :
    Waits s' f k kind fd w ∧ s'.world.batch = some evs ∧
      ∃ e ∈ evs, e.fd = fd ∧ e.fires kind.isRead = true := by
  have hstep := State.step_cases hs
  refine ⟨(hw.step hinv hkind hstep).resolve_right id, ?_, ?_⟩
  · cases hstep with
    | failed hop _ _ => cases hop
    | wouldBlock hop _ _ _ => cases hop
    | epollWait _ hworld =>
      cases hworld with
      | epollWait _ _ => rfl
  · obtain ⟨e, he, rfl⟩ := hev
    cases hstep with
    | failed hop _ _ => cases hop
    | wouldBlock hop _ _ _ => cases hop
    | epollWait hnoticed _ =>
      obtain ⟨-, i', sock', hi', hsock', heq⟩ := hnoticed e he (hw.socket hinv).1
      obtain rfl : i' = i := Option.some.inj (hi'.symm.trans hi)
      obtain rfl : sock' = sock := Option.some.inj (hsock'.symm.trans hsock)
      refine ⟨e, he, rfl, ?_⟩
      rw [heq]
      exact Readiness.event_fires e.fd hready hmask

/-- What the future waits for has been noticed, or an event of its descriptor is about to be
processed. -/
theorem Waits.due (hK : K.Quiet) (hkind : kind ≠ .accept)
    (hr : Run (State.system W K) (.start wakeFd) g s) (hw : Waits s f k kind fd w)
    {sock : Socket σ} (hsock : s.sockets fd = some sock)
    (hready : (K.readiness sock.state).has kind.isRead = true) :
    (∃ evs, s.world.batch = some evs ∧ ∃ e ∈ evs, e.fd = fd) ∨ Due K s f fd w := by
  have hinv := run_inv hr
  have hne := (hw.socket hinv).1
  obtain ⟨g', hg⟩ := hinv.world
  obtain ⟨reg, hreg, hwaker⟩ := Option.bind_eq_some_iff.mp hw.stored
  have hwaker : reg.waker kind.isRead = some w := hwaker
  have harmed := ((World.run_ok hg).agree fd hne).armed reg hreg kind.isRead (by rw [hwaker]; rfl)
  rcases harmed with ⟨i, hi, henabled, hmask⟩ | ⟨e, he, hfd⟩
  · have hi : s.world.reactor.epoll.interest fd = some i := hi
    have hreport : (K.readiness sock.state).reportable i.mask = true := by
      have hfires := Readiness.event_fires fd hready hmask
      rw [Readiness.reportable_eq _ fd, Bool.or_eq_true]
      cases hd : kind.isRead with
      | true => exact .inl (hd ▸ hfires)
      | false => exact .inr (hd ▸ hfires)
    have hlisted : s.ready fd = true :=
      run_complete hK hr fd ⟨i, sock, hi, henabled, hsock, hreport⟩
    refine .inr ⟨hlisted, fun hbatch => ?_, fun evs h s' hev hr' hprocess => ?_⟩
    · obtain ⟨s', hs⟩ := step_epollWait hne hi henabled hsock hreport hlisted hbatch
      exact ⟨_, s', rfl, hs⟩
    · obtain ⟨s₀, s₁, hnil, hwait, hr₁⟩ := Run.exists_of_append_cons (h := []) hr'
      obtain rfl := hnil.eq_of_nil
      obtain ⟨hw₁, hbatch, hfires⟩ := hw.epollWait hinv hkind hi hmask hsock hready hev hwait
      exact hw₁.released hkind (hr.snoc hwait) hbatch hfires hr₁ hprocess
  · refine .inl ?_
    cases hbatch : s.world.batch with
    | none =>
      rw [hbatch] at he
      cases he
    | some evs =>
      rw [hbatch] at he
      exact ⟨evs, rfl, e, he, hfd⟩

end Due

/-- **No waiting read or write is forgotten**, if calls of the program make no socket ready. After
the poll of a read or a write has returned `Pending`, at any later time: the future has been polled
again, dropped or woken; or its waker is still in the reactor, and as soon as the kernel calls the
socket ready, or it has an error or a hang-up, an event of its descriptor is about to be processed,
or the kernel has noticed it: it can report it when the driver asks, and with the batch that reports
it the future is woken, if it is not polled or dropped before. (What other objects and futures do in
between does not matter.) -/
theorem pending_io_not_stranded (hK : K.Quiet) {g h : List (Op W σ ε χ × Result W)}
    {s₁ : State W σ} {f k : ℕ} {kind : FutureKind} {w : W} {refused : Option Errno}
    (hr : Run (State.system W K) (.start wakeFd) g s)
    (ht : s.futures f = some ⟨k, kind, .registering w⟩) (hkind : kind ≠ .accept)
    (hpend : s.step K (.register f refused) = some (.pending, s₁))
    (hr' : Run (State.system W K) s₁ h s') :
    (∃ e ∈ h, Releases f w e) ∨
      ∃ o sock, s'.owners k = some o ∧ s'.sockets o.fd = some sock ∧
        s'.world.reactor.stored (o.fd, kind.isRead) = some w ∧
        ((K.readiness sock.state).has kind.isRead = true →
          (∃ evs, s'.world.batch = some evs ∧ ∃ e ∈ evs, e.fd = o.fd) ∨ Due K s' f o.fd w) := by
  obtain ⟨fd, hwaits⟩ := waits_of_pending ht hpend
  have hr₁ := hr.snoc hpend
  rcases hwaits.run hkind hr₁ hr' with hw | hrel
  · refine .inr ?_
    obtain ⟨o, ho, rfl⟩ := Option.map_eq_some_iff.mp hw.owner
    obtain ⟨-, sock, hsock⟩ := hw.socket (run_inv (hr₁.append hr'))
    exact ⟨o, sock, ho, hsock, hw.stored, hw.due hK hkind (hr₁.append hr') hsock⟩
  · exact .inl hrel

/-- The bytes arrive after `read` has said that it would block, and before the reactor is told to
watch the socket. -/
theorem pending_io_not_stranded_race :
    ∃ h s s', Run (State.system ℕ Buffered.tcp) (.start 3) h s ∧
      s.futures 0 = some ⟨0, .read [0, 0], .registering 9⟩ ∧
      s.sockets 5 = some ⟨0x802, .stream ⟨[1, 2], false, 0, 8, [], false, false⟩⟩ ∧
      s.step Buffered.tcp (.register 0 none) = some (.pending, s') ∧
      Due Buffered.tcp s' 0 5 9 := by
  obtain ⟨h, s, hr, hfuture, hsock, hnext⟩ := exists_run_of_exec
    (f := State.step (W := ℕ) Buffered.tcp) (s := State.start 3)
    [.connect 0 5 2 (.stream ⟨[], false, 0, 8, [], false, false⟩), .setNonblocking 0 none none,
      .future 0 0 (.read [0, 0]), .pollRead 0 9 ⟨none, 7⟩, .happens 5 (.bytes [1, 2])]
    (fun p => p.2.futures 0 = some ⟨0, .read [0, 0], .registering 9⟩ ∧
      p.2.sockets 5 = some ⟨0x802, .stream ⟨[1, 2], false, 0, 8, [], false, false⟩⟩ ∧
      (p.2.step Buffered.tcp (.register 0 none)).any (fun q => q.1 = .pending ∧
        q.2.world.batch = none ∧ q.2.owners 0 = some ⟨5, false, .live, [0]⟩ ∧
        q.2.sockets 5 = p.2.sockets 5) = true)
    (by decide)
  obtain ⟨⟨res, s'⟩, hs, hq⟩ := (Option.any_eq_true _ _).mp hnext
  obtain ⟨rfl, hbatch, howner, hsock'⟩ := of_decide_eq_true hq
  refine ⟨h, s, s', hr, hfuture, hsock, hs, ?_⟩
  have hwaits := pending_io_not_stranded Buffered.quiet hr hfuture FutureKind.noConfusion hs .nil
  rcases hwaits with ⟨e, he, -⟩ | ⟨o, sock, ho, hsock₁, -, hdue⟩
  · cases he
  · obtain rfl : (⟨5, false, .live, [0]⟩ : Owner) = o := Option.some.inj (howner.symm.trans ho)
    have heq := Option.some.inj (hsock₁.symm.trans (hsock'.trans hsock))
    rcases hdue (by rw [heq]; rfl) with ⟨evs, hevs, -⟩ | hdue
    · cases hbatch.symm.trans hevs
    · exact hdue

end MiniAsync.Net
