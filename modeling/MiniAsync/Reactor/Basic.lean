/-
  The I/O reactor (`reactor.rs`): the map from file descriptors to the wakers of
  the tasks that wait for them, over an epoll instance that holds a second copy of
  what is waited for.

  `register`, the two halves of `deregister` and the two halves of `poll` are the
  steps that can interleave: the map's mutex is held over all of `register` and
  over the second half of `poll`, but not over `epoll_wait` and not over the
  `EPOLL_CTL_DEL` of `deregister`.

  `World` adds what the reactor does not see: which descriptors are open, which
  `deregister` calls are under way and which batch of events the driver has taken
  from the kernel and not yet processed. The guards of `step` are the discipline
  of the owners of the descriptors (`TcpStream` and `TcpListener`): a descriptor
  is open when it is registered, is not closed before its `deregister` is done, and
  is not registered during its `deregister`.
-/
import MiniAsync.Kernel.Epoll
import MiniAsync.Trace.System

namespace MiniAsync

open Kernel

variable {W : Type}

/-- `Registration`. -/
structure Registration (W : Type) where
  readWaker : Option W
  writeWaker : Option W
deriving DecidableEq

namespace Registration

def empty : Registration W := ⟨none, none⟩

def waker (reg : Registration W) (isRead : Bool) : Option W :=
  if isRead then reg.readWaker else reg.writeWaker

def setWaker (reg : Registration W) (isRead : Bool) (w : Option W) : Registration W :=
  if isRead then { reg with readWaker := w } else { reg with writeWaker := w }

/-- The directions that have a waker, with `EPOLLONESHOT`. -/
def mask (reg : Registration W) : Mask := ⟨reg.readWaker.isSome, reg.writeWaker.isSome, true⟩

@[simp] theorem waker_setWaker (reg : Registration W) (isRead d : Bool) (w : Option W) :
    (reg.setWaker isRead w).waker d = if d = isRead then w else reg.waker d := by
  cases isRead <;> cases d <;> rfl

theorem mask_has (reg : Registration W) (d : Bool) : reg.mask.has d = (reg.waker d).isSome := by
  cases d <;> rfl

theorem setWaker_waker (reg : Registration W) (isRead : Bool) (w : Option W) :
    (reg.setWaker isRead w).setWaker isRead (reg.waker isRead) = reg := by
  cases isRead <;> rfl

end Registration

/-- `Reactor`, with the counter of its eventfd. -/
structure Reactor (W : Type) where
  registrations : Fd → Option (Registration W)
  epoll : Epoll
  wakeFd : Fd
  counter : ℕ

namespace Reactor

/-- `Reactor::new`: the eventfd is added without `EPOLLONESHOT`. -/
def new (wakeFd : Fd) : Reactor W where
  registrations := fun _ => none
  epoll := Epoll.new.set wakeFd (some ⟨⟨true, false, false⟩, true⟩)
  wakeFd := wakeFd
  counter := 0

/-- `Reactor::wake`: a write of `1` to the non-blocking eventfd. -/
def wake (r : Reactor W) : Reactor W :=
  { r with counter := if r.counter < 2 ^ 64 - 2 then r.counter + 1 else r.counter }

def setReg (r : Reactor W) (fd : Fd) (reg : Option (Registration W)) : Reactor W :=
  { r with registrations := Function.update r.registrations fd reg }

/-- `Reactor::register`, with whether it succeeded. If `epoll_ctl` fails the old waker is put back,
and an entry that was new is removed. -/
def register (r : Reactor W) (fd : Fd) (waker : W) (isRead refused : Bool) : Bool × Reactor W :=
  let isNew := (r.registrations fd).isNone
  let reg := (r.registrations fd).getD .empty
  let oldWaker := reg.waker isRead
  let reg' := reg.setWaker isRead (some waker)
  match r.epoll.ctl (if isNew then .add else .mod) fd reg'.mask refused with
  | some ep => (true, { r.setReg fd (some reg') with epoll := ep })
  | none =>
    let rolledBack := reg'.setWaker isRead oldWaker
    (false, r.setReg fd (if isNew then none else some rolledBack))

/-- `Reactor::register_readable`. -/
def registerReadable (r : Reactor W) (fd : Fd) (waker : W) (refused : Bool) : Bool × Reactor W :=
  r.register fd waker true refused

/-- `Reactor::register_writable`. -/
def registerWritable (r : Reactor W) (fd : Fd) (waker : W) (refused : Bool) : Bool × Reactor W :=
  r.register fd waker false refused

/-- The first half of `Reactor::deregister`: the entry leaves the map; whether there was one. -/
def deregisterRemove (r : Reactor W) (fd : Fd) : Bool × Reactor W :=
  ((r.registrations fd).isSome, r.setReg fd none)

/-- The second half of `Reactor::deregister`, whose result is ignored. -/
def deregisterDel (r : Reactor W) (fd : Fd) : Reactor W :=
  { r with epoll := (r.epoll.ctl .del fd ⟨false, false, false⟩ false).getD r.epoll }

/-- Takes the waker of one direction if its event (or an error) is reported. -/
def takeWaker (reg : Registration W) (isRead fires : Bool) : Registration W × List W :=
  if fires then (reg.setWaker isRead none, (reg.waker isRead).toList) else (reg, [])

theorem takeWaker_waker (reg : Registration W) (isRead fires d : Bool) :
    (takeWaker reg isRead fires).1.waker d =
      if d = isRead ∧ fires = true then none else reg.waker d := by
  cases fires <;> simp [takeWaker]

/-- One event in the second half of `Reactor::poll`: the wakers of the reported directions are
taken, and a direction that keeps its waker is armed again. -/
def collect (r : Reactor W) (ev : Event) : Reactor W × List W :=
  if ev.fd = r.wakeFd then ({ r with counter := 0 }, [])
  else
    match r.registrations ev.fd with
    | none => (r, [])
    | some reg =>
      let errOrHup := ev.err || ev.hup
      let (reg, readers) := takeWaker reg true (ev.read || errOrHup)
      let (reg, writers) := takeWaker reg false (ev.write || errOrHup)
      let ep :=
        if reg.readWaker.isSome || reg.writeWaker.isSome then
          (r.epoll.ctl .mod ev.fd reg.mask false).getD r.epoll
        else r.epoll
      ({ r.setReg ev.fd (some reg) with epoll := ep }, readers ++ writers)

/-- The second half of `Reactor::poll`, with the wakers that it calls after it has released the
lock. -/
def collectAll (r : Reactor W) : List Event → Reactor W × List W
  | [] => (r, [])
  | ev :: evs =>
    let (r₁, ws) := r.collect ev
    let (r₂, ws') := r₁.collectAll evs
    (r₂, ws ++ ws')

/-! ### The reactor and its surroundings -/

structure World (W : Type) where
  reactor : Reactor W
  isOpen : Fd → Bool
  /-- A `deregister` has removed the entry and has not made its `EPOLL_CTL_DEL` yet. -/
  closing : Fd → Bool
  /-- The batch that the driver has taken from `epoll_wait` and has not processed. -/
  batch : Option (List Event)

def World.start (wakeFd : Fd) : World W where
  reactor := Reactor.new wakeFd
  isOpen := fun fd => decide (fd = wakeFd)
  closing := fun _ => false
  batch := none

/-- What the owners of descriptors and the driver do. -/
inductive Op (W : Type) where
  | open (fd : Fd)
  | close (fd : Fd)
  | registerReadable (fd : Fd) (w : W) (refused : Bool)
  | registerWritable (fd : Fd) (w : W) (refused : Bool)
  | deregister (fd : Fd)
  | deregisterDel (fd : Fd)
  | wake
  /-- The first half of `poll`. -/
  | epollWait (evs : List Event)
  /-- The second half of `poll`. -/
  | process
deriving DecidableEq

inductive Result (W : Type) where
  | done
  /-- Whether `register` returned `Ok`. -/
  | registered (ok : Bool)
  /-- The wakers that `poll` has called. -/
  | woken (ws : List W)
deriving DecidableEq

namespace World

/-- The owner of `fd` may register it. -/
def CanRegister (s : World W) (fd : Fd) : Prop :=
  fd ≠ s.reactor.wakeFd ∧ s.isOpen fd = true ∧ s.closing fd = false

instance (s : World W) (fd : Fd) : Decidable (s.CanRegister fd) :=
  inferInstanceAs (Decidable (_ ∧ _ ∧ _))

/-- An event of the eventfd is reported while its counter is not zero. -/
def MayReport (s : World W) (evs : List Event) : Prop :=
  s.reactor.epoll.MayReturn 64 evs ∧ ∀ e ∈ evs, e.fd = s.reactor.wakeFd → 0 < s.reactor.counter

instance (s : World W) (evs : List Event) : Decidable (s.MayReport evs) :=
  inferInstanceAs (Decidable (_ ∧ _))

def register (s : World W) (fd : Fd) (w : W) (isRead refused : Bool) :
    Option (Result W × World W) :=
  if s.CanRegister fd then
    let (ok, r) := s.reactor.register fd w isRead refused
    some (.registered ok, { s with reactor := r })
  else none

def step (s : World W) : Op W → Option (Result W × World W)
  | .open fd =>
    if s.isOpen fd then none
    else some (.done, { s with isOpen := Function.update s.isOpen fd true })
  | .close fd =>
    if s.CanRegister fd ∧ s.reactor.registrations fd = none then
      some (.done, { s with
        isOpen := Function.update s.isOpen fd false
        reactor := { s.reactor with epoll := s.reactor.epoll.close fd } })
    else none
  | .registerReadable fd w refused => s.register fd w true refused
  | .registerWritable fd w refused => s.register fd w false refused
  | .deregister fd =>
    let (found, r) := s.reactor.deregisterRemove fd
    some (.done, { s with
      reactor := r
      closing := if found then Function.update s.closing fd true else s.closing })
  | .deregisterDel fd =>
    if s.closing fd then
      some (.done, { s with
        reactor := s.reactor.deregisterDel fd
        closing := Function.update s.closing fd false })
    else none
  | .wake => some (.done, { s with reactor := s.reactor.wake })
  | .epollWait evs =>
    if s.batch = none ∧ s.MayReport evs then
      some (.done, { s with
        reactor := { s.reactor with epoll := s.reactor.epoll.wait evs }
        batch := some evs })
    else none
  | .process =>
    match s.batch with
    | none => none
    | some evs =>
      let (r, ws) := s.reactor.collectAll evs
      some (.woken ws, { s with reactor := r, batch := none })

/-- What the reactor does over any run. -/
abbrev system (W : Type) : Trace.System (World W) (Op W) (Result W) := Trace.ofFn step

/-- What an operation can do. -/
inductive Step (s : World W) : Op W → Result W → World W → Prop
  | opened {fd} (hopen : ¬ s.isOpen fd = true) :
    Step s (.open fd) .done { s with isOpen := Function.update s.isOpen fd true }
  | closed {fd} (hcan : s.CanRegister fd) (hreg : s.reactor.registrations fd = none) :
    Step s (.close fd) .done { s with
      isOpen := Function.update s.isOpen fd false
      reactor := { s.reactor with epoll := s.reactor.epoll.close fd } }
  | registerReadable {fd w refused} (hcan : s.CanRegister fd) :
    Step s (.registerReadable fd w refused)
      (.registered (s.reactor.register fd w true refused).1)
      { s with reactor := (s.reactor.register fd w true refused).2 }
  | registerWritable {fd w refused} (hcan : s.CanRegister fd) :
    Step s (.registerWritable fd w refused)
      (.registered (s.reactor.register fd w false refused).1)
      { s with reactor := (s.reactor.register fd w false refused).2 }
  | deregister {fd} : Step s (.deregister fd) .done { s with
      reactor := (s.reactor.deregisterRemove fd).2
      closing := if (s.reactor.deregisterRemove fd).1 then Function.update s.closing fd true
        else s.closing }
  | deregisterDel {fd} (hclosing : s.closing fd = true) : Step s (.deregisterDel fd) .done { s with
      reactor := s.reactor.deregisterDel fd
      closing := Function.update s.closing fd false }
  | wake : Step s .wake .done { s with reactor := s.reactor.wake }
  | epollWait {evs} (hbatch : s.batch = none) (hevs : s.MayReport evs) :
    Step s (.epollWait evs) .done { s with
      reactor := { s.reactor with epoll := s.reactor.epoll.wait evs }
      batch := some evs }
  | process {evs} (hbatch : s.batch = some evs) :
    Step s .process (.woken (s.reactor.collectAll evs).2)
      { s with reactor := (s.reactor.collectAll evs).1, batch := none }

theorem step_cases {s s' : World W} {op : Op W} {res : Result W}
    (hs : s.step op = some (res, s')) : Step s op res s' := by
  cases op with
  | «open» fd =>
    simp only [step] at hs
    split_ifs at hs with hopen
    cases hs
    exact .opened hopen
  | close fd =>
    simp only [step] at hs
    split_ifs at hs with h
    cases hs
    exact .closed h.1 h.2
  | registerReadable fd w refused =>
    simp only [step, register] at hs
    split_ifs at hs with hcan
    cases hs
    exact .registerReadable hcan
  | registerWritable fd w refused =>
    simp only [step, register] at hs
    split_ifs at hs with hcan
    cases hs
    exact .registerWritable hcan
  | deregister fd =>
    cases hs
    exact .deregister
  | deregisterDel fd =>
    simp only [step] at hs
    split_ifs at hs with hclosing
    cases hs
    exact .deregisterDel hclosing
  | wake =>
    cases hs
    exact .wake
  | epollWait evs =>
    simp only [step] at hs
    split_ifs at hs with h
    cases hs
    exact .epollWait h.1 h.2
  | process =>
    simp only [step] at hs
    split at hs
    · cases hs
    · rename_i evs hbatch
      cases hs
      exact .process hbatch

end World

end Reactor

end MiniAsync
