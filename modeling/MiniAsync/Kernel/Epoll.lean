/-
  The contract of an epoll instance, as far as a program can rely on it.

  The interest list maps a file descriptor to the events it is watched for.
  `EPOLL_CTL_ADD` and `EPOLL_CTL_MOD` enable a descriptor; an `epoll_wait` that
  reports an event of a descriptor added with `EPOLLONESHOT` disables it. A failed
  `epoll_ctl` changes nothing. `EPOLLERR` and `EPOLLHUP` are reported whether or
  not they are asked for. Closing a descriptor takes it off the list.

  Which events occur is not part of the contract: `wait` is given the batch that
  the kernel returns and says whether it may.

  `Mask` and `Event` are what the calls' 32-bit words mean. The words themselves are
  at the end, with what a program's tests of their bits come to.
-/
import Mathlib.Data.BitVec
import Mathlib.Logic.Function.Basic
import Mathlib.Tactic.Common

namespace MiniAsync.Kernel

/-- A file descriptor. -/
abbrev Fd := ℕ

/-- The events a descriptor is watched for. -/
structure Mask where
  read : Bool
  write : Bool
  oneshot : Bool
deriving DecidableEq

/-- The direction `isRead` is in the mask. -/
def Mask.has (m : Mask) (isRead : Bool) : Bool := if isRead then m.read else m.write

/-- An entry of the interest list. -/
structure Interest where
  mask : Mask
  enabled : Bool
deriving DecidableEq

/-- An event as `epoll_wait` returns it. -/
structure Event where
  fd : Fd
  read : Bool
  write : Bool
  err : Bool
  hup : Bool
deriving DecidableEq

/-- An epoll instance: its interest list. -/
structure Epoll where
  interest : Fd → Option Interest

namespace Epoll

def new : Epoll := ⟨fun _ => none⟩

def set (ep : Epoll) (fd : Fd) (i : Option Interest) : Epoll :=
  ⟨Function.update ep.interest fd i⟩

@[simp] theorem set_self (ep : Epoll) (fd : Fd) (i : Option Interest) :
    (ep.set fd i).interest fd = i := by
  simp [set]

@[simp] theorem set_of_ne (ep : Epoll) {fd fd' : Fd} (h : fd' ≠ fd) (i : Option Interest) :
    (ep.set fd i).interest fd' = ep.interest fd' := by
  simp [set, h]

/-- The operations of `epoll_ctl`. -/
inductive CtlOp where
  | add
  | mod
  | del
deriving DecidableEq

/-- `epoll_ctl`. `none` is an error: the descriptor is listed and must not be, or is not listed and
must be, or the kernel refuses the call for reasons of its own. -/
def ctl (ep : Epoll) (op : CtlOp) (fd : Fd) (mask : Mask) (refused : Bool) : Option Epoll :=
  match op with
  | .add =>
    if (ep.interest fd).isSome || refused then none else some (ep.set fd (some ⟨mask, true⟩))
  | .mod =>
    if (ep.interest fd).isNone || refused then none else some (ep.set fd (some ⟨mask, true⟩))
  | .del => if (ep.interest fd).isNone || refused then none else some (ep.set fd none)

theorem ctl_refused (ep : Epoll) (op : CtlOp) (fd : Fd) (mask : Mask) :
    ep.ctl op fd mask true = none := by
  cases op <;> simp [ctl]

/-- The kernel may report `e` of a descriptor with the entry `i`. -/
def Reports (i : Interest) (e : Event) : Prop :=
  i.enabled = true ∧ (e.read = true → i.mask.read = true) ∧ (e.write = true → i.mask.write = true) ∧
    (e.read = true ∨ e.write = true ∨ e.err = true ∨ e.hup = true)

instance (i : Interest) (e : Event) : Decidable (Reports i e) :=
  inferInstanceAs (Decidable (_ ∧ _ ∧ _ ∧ _))

/-- An event of the descriptor is reported. -/
def report (ep : Epoll) (fd : Fd) : Epoll :=
  match ep.interest fd with
  | some i => if i.mask.oneshot then ep.set fd (some { i with enabled := false }) else ep
  | none => ep

/-- `epoll_wait` may return the batch `evs`, of at most `n` events and at most one for each
descriptor. -/
def MayReturn (ep : Epoll) (n : ℕ) (evs : List Event) : Prop :=
  evs.length ≤ n ∧ (evs.map Event.fd).Nodup ∧
    ∀ e ∈ evs, ∃ i ∈ ep.interest e.fd, Reports i e

instance (ep : Epoll) (e : Event) : Decidable (∃ i ∈ ep.interest e.fd, Reports i e) :=
  match h : ep.interest e.fd with
  | none => isFalse (by simp)
  | some i => decidable_of_iff (Reports i e) (by simp)

instance (ep : Epoll) (n : ℕ) (evs : List Event) : Decidable (ep.MayReturn n evs) :=
  inferInstanceAs (Decidable (_ ∧ _ ∧ _))

/-- The interest list after `epoll_wait` has returned the batch `evs`. -/
def wait (ep : Epoll) (evs : List Event) : Epoll := evs.foldl (fun ep e => ep.report e.fd) ep

/-- `close`. -/
def close (ep : Epoll) (fd : Fd) : Epoll := ep.set fd none

/-! ### What the calls change -/

variable {ep ep' : Epoll} {fd fd' : Fd} {mask : Mask} {refused : Bool}

theorem ctl_add (h : ep.ctl .add fd mask refused = some ep') :
    ep.interest fd = none ∧ ep' = ep.set fd (some ⟨mask, true⟩) := by
  simp only [ctl] at h
  split_ifs at h with hc
  rw [Bool.or_eq_true, not_or, Bool.not_eq_true, Option.isSome_eq_false_iff,
    Option.isNone_iff_eq_none] at hc
  exact ⟨hc.1, (Option.some.inj h).symm⟩

theorem ctl_mod (h : ep.ctl .mod fd mask refused = some ep') :
    (ep.interest fd).isSome = true ∧ ep' = ep.set fd (some ⟨mask, true⟩) := by
  simp only [ctl] at h
  split_ifs at h with hc
  rw [Bool.or_eq_true, not_or, Bool.not_eq_true, Option.isNone_eq_false_iff] at hc
  exact ⟨hc.1, (Option.some.inj h).symm⟩

/-- `EPOLL_CTL_MOD` of a listed descriptor succeeds if the kernel has no reason to refuse it. -/
theorem ctl_mod_of_isSome (h : (ep.interest fd).isSome = true) :
    ep.ctl .mod fd mask false = some (ep.set fd (some ⟨mask, true⟩)) := by
  rw [ctl, Option.isNone_eq_false_iff.mpr h]
  rfl

/-- `EPOLL_CTL_DEL` leaves the descriptor unlisted, also when it fails because it was. -/
theorem ctl_del (ep : Epoll) (fd : Fd) (mask : Mask) :
    ((ep.ctl .del fd mask false).getD ep).interest = Function.update ep.interest fd none := by
  simp only [ctl]
  split_ifs with hc
  · rw [Bool.or_false, Option.isNone_iff_eq_none] at hc
    rw [Option.getD_none, Function.update_eq_self_iff.mpr hc.symm]
  · rfl

theorem report_of_ne (ep : Epoll) (h : fd' ≠ fd) :
    (ep.report fd).interest fd' = ep.interest fd' := by
  unfold report
  split
  · split_ifs
    · exact set_of_ne ep h _
    · rfl
  · rfl

theorem report_isSome (ep : Epoll) (fd fd' : Fd) :
    ((ep.report fd).interest fd').isSome = (ep.interest fd').isSome := by
  rcases eq_or_ne fd' fd with rfl | hne
  · unfold report
    split
    · rename_i i hi
      split_ifs
      · rw [set_self, hi]
        rfl
      · rfl
    · rfl
  · rw [report_of_ne ep hne]

/-- Only descriptors with an event in the batch are touched. -/
theorem wait_of_notMem (ep : Epoll) {evs : List Event} (h : ∀ e ∈ evs, e.fd ≠ fd) :
    (ep.wait evs).interest fd = ep.interest fd := by
  unfold wait
  induction evs generalizing ep with
  | nil => rfl
  | cons e evs ih =>
    rw [List.forall_mem_cons] at h
    rw [List.foldl_cons, ih _ h.2, report_of_ne ep h.1.symm]

theorem wait_isSome (ep : Epoll) (evs : List Event) (fd : Fd) :
    ((ep.wait evs).interest fd).isSome = (ep.interest fd).isSome := by
  unfold wait
  induction evs generalizing ep with
  | nil => rfl
  | cons e evs ih => rw [List.foldl_cons, ih, report_isSome]

end Epoll

/-! ### The words of the calls -/

def epollIn : BitVec 32 := 0x001

def epollOut : BitVec 32 := 0x004

def epollErr : BitVec 32 := 0x008

def epollHup : BitVec 32 := 0x010

def epollOneshot : BitVec 32 := 1 <<< 30

def epollEt : BitVec 32 := 1 <<< 31

/-- The word has one of the bits. -/
def hasAny (events bits : BitVec 32) : Bool := events &&& bits != 0

theorem hasAny_or (events a b : BitVec 32) :
    hasAny events (a ||| b) = (hasAny events a || hasAny events b) := by
  have hzero : events &&& (a ||| b) = 0 ↔ events &&& a = 0 ∧ events &&& b = 0 := by
    rw [BitVec.and_or_distrib_left]
    exact BitVec.or_eq_zero_iff
  rw [Bool.eq_iff_iff]
  simp only [hasAny, Bool.or_eq_true, bne_iff_ne, ne_eq, hzero, not_and_or]

/-- `struct epoll_event`, with the descriptor as its data. -/
structure EpollEvent where
  events : BitVec 32
  fd : Fd
deriving DecidableEq

/-- The event of a word. -/
def EpollEvent.decode (ev : EpollEvent) : Event :=
  ⟨ev.fd, hasAny ev.events epollIn, hasAny ev.events epollOut, hasAny ev.events epollErr,
    hasAny ev.events epollHup⟩

/-- The mask of a word. Whether it is edge-triggered makes no difference to the contract. -/
def Mask.decode (events : BitVec 32) : Mask :=
  ⟨hasAny events epollIn, hasAny events epollOut, hasAny events epollOneshot⟩

/-- A call of `epoll_ctl`. -/
structure CtlCall where
  op : Epoll.CtlOp
  fd : Fd
  events : BitVec 32
deriving DecidableEq

/-- The interest list after a call whose result is ignored. -/
def Epoll.issue (ep : Epoll) (call : CtlCall) (refused : Bool) : Epoll :=
  (ep.ctl call.op call.fd (.decode call.events) refused).getD ep

end MiniAsync.Kernel
