/-
  Sockets, and what an epoll instance notices of them.

  A socket is what the TCP of the kernel (`Tcp`) keeps of it, with the word of its status
  flags. A call that has nothing to give says so if the socket is in non-blocking mode,
  and waits if not.

  An edge-triggered epoll instance looks at the readiness of a socket only at certain
  times: when the descriptor is added or modified, and when something happens to the
  socket (`notify`). What it has noticed is on its ready list, and `epoll_wait` reports
  from this list only. `Complete` says that nothing is overlooked: with `EPOLLONESHOT`
  the list contains whatever could be reported.
-/
import MiniAsync.Kernel.Epoll
import MiniAsync.Kernel.Tcp

namespace MiniAsync.Kernel

/-- A socket, with the word of its status flags. -/
structure Socket (σ : Type) where
  flags : BitVec 32
  state : σ
deriving DecidableEq

def oNonblock : BitVec 32 := 0x800

namespace Socket

variable {σ : Type}

def nonblocking (s : Socket σ) : Bool := hasAny s.flags oNonblock

/-- `fcntl(F_GETFL)`. -/
def getfl (s : Socket σ) : Option Errno → Except Errno (BitVec 32)
  | some e => .error e
  | none => .ok s.flags

/-- `fcntl(F_SETFL)`. -/
def setfl (s : Socket σ) (flags : BitVec 32) : Option Errno → Except Errno (Socket σ)
  | some e => .error e
  | none => .ok { s with flags := flags }

end Socket

/-- The event ends the waiting in the direction `isRead`. -/
def Event.fires (e : Event) (isRead : Bool) : Bool :=
  (if isRead then e.read else e.write) || (e.err || e.hup)

/-! ### Readiness -/

namespace Readiness

/-- The direction `isRead` need not wait: an error or a hang-up ends the waiting as well. -/
def has (r : Readiness) (isRead : Bool) : Bool :=
  (if isRead then r.read else r.write) || (r.err || r.hup)

/-- There is something to report of a descriptor that is watched for `m`. -/
def reportable (r : Readiness) (m : Mask) : Bool :=
  m.read && r.read || m.write && r.write || r.err || r.hup

/-- The event that is reported. -/
def event (r : Readiness) (fd : Fd) (m : Mask) : Event :=
  ⟨fd, m.read && r.read, m.write && r.write, r.err, r.hup⟩

/-- The event of a descriptor tells of every direction that it is watched for and that need not
wait. -/
theorem event_fires {r : Readiness} {m : Mask} {d : Bool} (fd : Fd) (hr : r.has d = true)
    (hm : m.has d = true) : (r.event fd m).fires d = true := by
  unfold has at hr
  unfold Mask.has at hm
  unfold Event.fires event
  cases d <;> simp_all

theorem reportable_eq (r : Readiness) (fd : Fd) (m : Mask) :
    r.reportable m = ((r.event fd m).fires true || (r.event fd m).fires false) := by
  unfold reportable Event.fires event
  grind

theorem Le.reportable {r r' : Readiness} (h : r.Le r') {m : Mask} (hr : r.reportable m = true) :
    r'.reportable m = true := by
  obtain ⟨h₁, h₂, h₃, h₄⟩ := h
  unfold Readiness.reportable at *
  grind

end Readiness

/-! ### What a batch leaves of the interest list -/

/-- The entry of a descriptor after an event of it has been reported. -/
def Interest.spent (i : Interest) : Interest :=
  if i.mask.oneshot then { i with enabled := false } else i

theorem Epoll.report_interest (ep : Epoll) (fd fd' : Fd) :
    (ep.report fd).interest fd' =
      if fd' = fd then (ep.interest fd').map Interest.spent else ep.interest fd' := by
  by_cases hfd : fd' = fd
  · subst hfd
    rw [if_pos rfl]
    unfold Epoll.report
    cases hi : ep.interest fd' with
    | none => exact hi
    | some i =>
      rw [Option.map_some, Interest.spent]
      dsimp only
      split_ifs
      · exact ep.set_self fd' _
      · exact hi
  · rw [if_neg hfd, Epoll.report_of_ne ep hfd]

theorem Interest.spent_spent (i : Interest) : i.spent.spent = i.spent := by
  unfold Interest.spent
  split_ifs <;> rfl

/-- `epoll_wait` spends the entries of the descriptors that it reports, and no others. -/
theorem Epoll.wait_interest (ep : Epoll) (evs : List Event) (fd : Fd) :
    (ep.wait evs).interest fd =
      if fd ∈ evs.map Event.fd then (ep.interest fd).map Interest.spent else ep.interest fd := by
  unfold Epoll.wait
  induction evs generalizing ep with
  | nil => rfl
  | cons e evs ih =>
    rw [List.foldl_cons, ih, Epoll.report_interest, List.map_cons]
    by_cases he : fd = e.fd
    · subst he
      rw [if_pos rfl, if_pos List.mem_cons_self, Option.map_map]
      split_ifs
      · exact congrArg (fun g => Option.map g _) (funext Interest.spent_spent)
      · rfl
    · rw [if_neg he]
      simp only [List.mem_cons, he, false_or]

/-! ### The ready list -/

section ReadyList

variable {σ ε χ : Type} (K : Tcp σ ε χ)

/-- `epoll_wait` would report the descriptor if it looked. -/
def Reportable (ep : Epoll) (sockets : Fd → Option (Socket σ)) (fd : Fd) : Prop :=
  ∃ i sock, ep.interest fd = some i ∧ i.enabled = true ∧ sockets fd = some sock ∧
    (K.readiness sock.state).reportable i.mask = true

instance (ep : Epoll) (sockets : Fd → Option (Socket σ)) (fd : Fd) :
    Decidable (Reportable K ep sockets fd) :=
  match hi : ep.interest fd, hs : sockets fd with
  | some i, some sock =>
    decidable_of_iff (i.enabled = true ∧ (K.readiness sock.state).reportable i.mask = true)
      (by simp [Reportable, hi, hs])
  | none, _ => isFalse (by simp [Reportable, hi])
  | some _, none => isFalse (by simp [Reportable, hs])

/-- The kernel looks at the descriptor. -/
def notify (ep : Epoll) (sockets : Fd → Option (Socket σ)) (ready : Fd → Bool) (fd : Fd) :
    Fd → Bool :=
  Function.update ready fd (ready fd || decide (Reportable K ep sockets fd))

/-- Nothing is overlooked. -/
def Complete (ep : Epoll) (sockets : Fd → Option (Socket σ)) (ready : Fd → Bool) : Prop :=
  ∀ fd, Reportable K ep sockets fd → ready fd = true

variable {K} {ep ep' : Epoll} {sockets sockets' : Fd → Option (Socket σ)} {ready : Fd → Bool}
  {fd : Fd}

theorem Reportable.congr (h : Reportable K ep' sockets' fd)
    (hep : ep'.interest fd = ep.interest fd) (hsock : sockets' fd = sockets fd) :
    Reportable K ep sockets fd := by
  obtain ⟨i, sock, hi, henabled, hs, hreport⟩ := h
  exact ⟨i, sock, hep ▸ hi, henabled, hsock ▸ hs, hreport⟩

/-- A descriptor that the kernel looks at is not overlooked. -/
theorem complete_notify
    (hother : ∀ fd', fd' ≠ fd → Reportable K ep sockets fd' → ready fd' = true) :
    Complete K ep sockets (notify K ep sockets ready fd) := by
  intro fd' hreport
  unfold notify
  by_cases hfd : fd' = fd
  · subst hfd
    rw [Function.update_self, decide_eq_true hreport, Bool.or_true]
  · rw [Function.update_of_ne hfd]
    exact hother fd' hfd hreport

/-- A socket may come to have less to report. -/
theorem Complete.le (h : Complete K ep sockets ready) {sock sock' : Socket σ}
    (hsock : sockets fd = some sock)
    (hle : (K.readiness sock'.state).Le (K.readiness sock.state)) :
    Complete K ep (Function.update sockets fd (some sock')) ready := by
  intro fd' ⟨i, sock₁, hi, henabled, hs, hreport⟩
  apply h fd'
  by_cases hfd : fd' = fd
  · subst hfd
    rw [Function.update_self] at hs
    obtain rfl := Option.some.inj hs
    exact ⟨i, sock, hi, henabled, hsock, hle.reportable hreport⟩
  · rw [Function.update_of_ne hfd] at hs
    exact ⟨i, sock₁, hi, henabled, hs, hreport⟩

/-- A descriptor without a socket is not reported. -/
theorem Complete.unready
    (hother : ∀ fd', fd' ≠ fd → Reportable K ep sockets fd' → ready fd' = true)
    (hfd : ¬ Reportable K ep sockets fd) :
    Complete K ep sockets (Function.update ready fd false) := by
  intro fd' hreport
  by_cases hne : fd' = fd
  · subst hne
    exact absurd hreport hfd
  · rw [Function.update_of_ne hne]
    exact hother fd' hne hreport

/-- A change at one descriptor. -/
theorem Complete.change (h : Complete K ep sockets ready)
    (hep : ∀ fd', fd' ≠ fd → ep'.interest fd' = ep.interest fd')
    (hsock : ∀ fd', fd' ≠ fd → sockets' fd' = sockets fd') :
    ∀ fd', fd' ≠ fd → Reportable K ep' sockets' fd' → ready fd' = true :=
  fun fd' hne hreport => h fd' (hreport.congr (hep fd' hne) (hsock fd' hne))

end ReadyList

end MiniAsync.Kernel
