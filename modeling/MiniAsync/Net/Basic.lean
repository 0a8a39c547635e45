/-
  TCP sockets over the reactor (`net.rs` and `multi_thread/net.rs`, which agree).

  A `TcpListener` or a `TcpStream` owns a descriptor. It is made of a socket of the
  standard library that has been put into non-blocking mode, and its `drop` takes the
  descriptor out of the reactor before the socket is closed. The futures `Accept`,
  `AsyncRead` and `AsyncWrite` borrow the object: `accept` takes `&self`, the other
  two `&mut self`, and an object that is borrowed cannot be dropped.

  A poll of a future makes one call of the kernel, and registers with the reactor if
  this call would block. Between the two, and between the steps of a `drop`, anything
  can happen, in other threads and in the kernel; each is a step of its own here. What
  the kernel does in a call and what it calls ready is left to the parameter `K`.

  The state has no record of which descriptors may be registered or closed: the
  guards of `Reactor.World.step` are not repeated in `step`.
-/
import MiniAsync.Kernel.Socket
import MiniAsync.Reactor.Arming

namespace MiniAsync.Net

open Kernel Reactor Trace

variable {W σ ε χ : Type}

/-- `set_nonblocking`, with the errors of its two calls. -/
def setNonblocking (sock : Socket σ) (getErr setErr : Option Errno) : Except Errno (Socket σ) := do
  let flags ← sock.getfl getErr
  sock.setfl (flags ||| oNonblock) setErr

/-- How far a socket is. -/
inductive Phase where
  /-- A socket of the standard library, made by `bind`, by `connect` or in the poll of an
  `Accept`. -/
  | raw (poll : Option ℕ)
  | live
  /-- In `drop`: whether the `EPOLL_CTL_DEL` of `deregister` is still to come. -/
  | dropping (del : Bool)
deriving DecidableEq

/-- A `TcpListener` or `TcpStream`, with the futures that borrow it. -/
structure Owner where
  fd : Fd
  isListener : Bool
  phase : Phase
  borrowers : List ℕ
deriving DecidableEq

inductive FutureKind where
  | accept
  | read (buf : List UInt8)
  | write (buf : List UInt8)
deriving DecidableEq

/-- The direction that the future waits for. -/
def FutureKind.isRead : FutureKind → Bool
  | .accept | .read _ => true
  | .write _ => false

/-- The call of the reactor in the second half of a poll. -/
def FutureKind.register (kind : FutureKind) (fd : Fd) (w : W) (refused : Option Errno) :
    Reactor.Op W :=
  if kind.isRead then .registerReadable fd w refused.isSome
  else .registerWritable fd w refused.isSome

/-- Where the poll of a future is. -/
inductive Pos (W : Type) where
  | idle
  /-- The call would have blocked. -/
  | registering (w : W)
  /-- `accept` has returned a socket. -/
  | accepted (k : ℕ)
deriving DecidableEq

/-- An `Accept`, `AsyncRead` or `AsyncWrite`. -/
structure Future (W : Type) where
  owner : ℕ
  kind : FutureKind
  pos : Pos W
deriving DecidableEq

structure State (W σ : Type) where
  world : World W
  sockets : Fd → Option (Socket σ)
  /-- The ready list of the epoll instance. -/
  ready : Fd → Bool
  owners : ℕ → Option Owner
  futures : ℕ → Option (Future W)

def State.start (wakeFd : Fd) : State W σ where
  world := .start wakeFd
  sockets := fun _ => none
  ready := fun _ => false
  owners := fun _ => none
  futures := fun _ => none

inductive Op (W σ ε χ : Type) where
  /-- `net::TcpListener::bind` in `bind_with_reactor`. -/
  | bind (k : ℕ) (fd : Fd) (flags : BitVec 32) (st : σ)
  /-- `net::TcpStream::connect` in `connect_with_reactor`. -/
  | connect (k : ℕ) (fd : Fd) (flags : BitVec 32) (st : σ)
  /-- `set_nonblocking` of a socket; if it fails, the socket is closed. -/
  | setNonblocking (k : ℕ) (getErr setErr : Option Errno)
  /-- `accept`, `async_read` or `async_write`. -/
  | future (f k : ℕ) (kind : FutureKind)
  | dropFuture (f : ℕ)
  /-- The first half of `Accept::poll`, with the descriptor of the connection that is accepted. -/
  | pollAccept (f : ℕ) (w : W) (c : χ) (k : ℕ) (fd : Fd) (flags : BitVec 32)
  /-- The first half of `AsyncRead::poll`. -/
  | pollRead (f : ℕ) (w : W) (c : χ)
  /-- The first half of `AsyncWrite::poll`. -/
  | pollWrite (f : ℕ) (w : W) (c : χ)
  /-- The second half of a poll whose call would have blocked. -/
  | register (f : ℕ) (refused : Option Errno)
  /-- `Drop::drop`, up to the removal of the registration. -/
  | drop (k : ℕ)
  | dropDel (k : ℕ)
  | close (k : ℕ)
  | wake
  | epollWait (evs : List Event)
  | process
  | happens (fd : Fd) (e : ε)
deriving DecidableEq

inductive Result (W : Type) where
  | done
  /-- `Ok` with the object, or `Ready(Ok(..))` of `Accept::poll`. -/
  | made (k : ℕ)
  /-- `Ready(Ok(n))` of `AsyncRead::poll`, with the `n` bytes that are in the buffer. -/
  | read (bytes : List UInt8)
  /-- `Ready(Ok(n))` of `AsyncWrite::poll`. -/
  | written (n : ℕ)
  | pending
  | failed (e : Errno)
  | woken (ws : List W)
deriving DecidableEq

namespace State

/-! ### Changes of the state -/

/-- A socket of the standard library with a new descriptor. -/
def adopt (s : State W σ) (k : ℕ) (fd : Fd) (sock : Socket σ) (isListener : Bool)
    (poll : Option ℕ) : Option (State W σ) := do
  if (s.owners k).isSome then none
  else
    let (_, world) ← s.world.step (.open fd)
    return { s with
      world := world
      sockets := Function.update s.sockets fd (some sock)
      owners := Function.update s.owners k (some ⟨fd, isListener, .raw poll, []⟩) }

def setOwner (s : State W σ) (k : ℕ) (o : Option Owner) : State W σ :=
  { s with owners := Function.update s.owners k o }

def setFuture (s : State W σ) (f : ℕ) (t : Option (Future W)) : State W σ :=
  { s with futures := Function.update s.futures f t }

def setSocket (s : State W σ) (fd : Fd) (sock : Option (Socket σ)) : State W σ :=
  { s with sockets := Function.update s.sockets fd sock }

/-- A call or an event leaves the socket in the state `st`. -/
def setState (s : State W σ) (fd : Fd) (sock : Socket σ) (st : σ) : State W σ :=
  s.setSocket fd (some { sock with state := st })

/-- The descriptor is taken off the ready list. -/
def unready (s : State W σ) (fd : Fd) : State W σ :=
  { s with ready := Function.update s.ready fd false }

/-- The kernel looks at the descriptor. -/
def notify (K : Tcp σ ε χ) (s : State W σ) (fd : Fd) : State W σ :=
  { s with ready := Kernel.notify K s.world.reactor.epoll s.sockets s.ready fd }

/-- The poll of an `Accept` has returned. -/
def returned (s : State W σ) : Option ℕ → State W σ
  | none => s
  | some f => s.setFuture f ((s.futures f).map ({ · with pos := .idle }))

/-- The descriptor is closed and its object is gone. -/
def closed (s : State W σ) (k : ℕ) (fd : Fd) (world : World W) : State W σ :=
  ((({ s with world := world }).setSocket fd none).unready fd).setOwner k none

theorem returned_world (s : State W σ) (poll : Option ℕ) : (s.returned poll).world = s.world := by
  cases poll <;> rfl

theorem returned_owners (s : State W σ) (poll : Option ℕ) :
    (s.returned poll).owners = s.owners := by
  cases poll <;> rfl

theorem returned_sockets (s : State W σ) (poll : Option ℕ) :
    (s.returned poll).sockets = s.sockets := by
  cases poll <;> rfl

/-! ### The operations -/

/-- `set_nonblocking` and what follows it, in `bind_with_reactor`, `connect_with_reactor` and
`Accept::poll`. -/
def setNonblocking (s : State W σ) (k : ℕ) (getErr setErr : Option Errno) :
    Option (Result W × State W σ) := do
  let o ← s.owners k
  let sock ← s.sockets o.fd
  match o.phase with
  | .raw poll =>
    match Net.setNonblocking sock getErr setErr with
    | .ok sock =>
      return (.made k,
        ((s.setSocket o.fd (some sock)).setOwner k (some { o with phase := .live })).returned poll)
    | .error e =>
      let (_, world) ← s.world.step (.close o.fd)
      return (.failed e, (s.closed k o.fd world).returned poll)
  | _ => none

/-- The future may borrow the object: `accept` takes `&self`, `async_read` and `async_write` take
`&mut self`. -/
def borrowable (o : Owner) : FutureKind → Bool
  | .accept => o.isListener && o.phase == .live
  | .read _ | .write _ => !o.isListener && o.phase == .live && o.borrowers.isEmpty

/-- `TcpListener::accept`, `TcpStream::async_read` and `TcpStream::async_write`. -/
def future (s : State W σ) (f k : ℕ) (kind : FutureKind) : Option (Result W × State W σ) := do
  let o ← s.owners k
  if (s.futures f).isNone && borrowable o kind then
    return (.done, (s.setOwner k (some { o with borrowers := f :: o.borrowers })).setFuture f
      (some ⟨k, kind, .idle⟩))
  else none

def dropFuture (s : State W σ) (f : ℕ) : Option (Result W × State W σ) := do
  let t ← s.futures f
  let o ← s.owners t.owner
  match t.pos with
  | .idle =>
    return (.done,
      (s.setOwner t.owner (some { o with borrowers := o.borrowers.erase f })).setFuture f none)
  | _ => none

/-- An idle future, and the object and the socket that it borrows. -/
def idle (s : State W σ) (f : ℕ) : Option (Future W × Fd × Socket σ) := do
  let t ← s.futures f
  let o ← s.owners t.owner
  let sock ← s.sockets o.fd
  match t.pos with
  | .idle => some (t, o.fd, sock)
  | _ => none

/-- A call that would block leads to `register`; if the socket is in blocking mode, the thread
waits. -/
def wouldBlock (s : State W σ) (f : ℕ) (t : Future W) (sock : Socket σ) (w : W) :
    Option (Result W × State W σ) :=
  if sock.nonblocking then some (.done, s.setFuture f (some { t with pos := .registering w }))
  else none

/-- `Accept::poll`, up to the answer of the kernel. -/
def pollAccept (K : Tcp σ ε χ) (s : State W σ) (f : ℕ) (w : W) (c : χ) (k : ℕ) (fd : Fd)
    (flags : BitVec 32) : Option (Result W × State W σ) := do
  let (t, lfd, sock) ← s.idle f
  match t.kind with
  | .accept =>
    match K.accept sock.state c with
    | (.ok conn, st) =>
      let s ← (s.setState lfd sock st).adopt k fd ⟨flags, conn⟩ false (some f)
      return (.done, s.setFuture f (some { t with pos := .accepted k }))
    | (.wouldBlock, st) => (s.setState lfd sock st).wouldBlock f t sock w
    | (.error e, st) => return (.failed e, s.setState lfd sock st)
  | _ => none

/-- `AsyncRead::poll`, up to the answer of the kernel. -/
def pollRead (K : Tcp σ ε χ) (s : State W σ) (f : ℕ) (w : W) (c : χ) :
    Option (Result W × State W σ) := do
  let (t, fd, sock) ← s.idle f
  match t.kind with
  | .read buf =>
    match K.read sock.state buf.length c with
    | (.ok bytes, st) =>
      return (.read bytes, (s.setState fd sock st).setFuture f
        (some { t with kind := .read (bytes ++ buf.drop bytes.length) }))
    | (.wouldBlock, st) => (s.setState fd sock st).wouldBlock f t sock w
    | (.error e, st) => return (.failed e, s.setState fd sock st)
  | _ => none

/-- `AsyncWrite::poll`, up to the answer of the kernel. -/
def pollWrite (K : Tcp σ ε χ) (s : State W σ) (f : ℕ) (w : W) (c : χ) :
    Option (Result W × State W σ) := do
  let (t, fd, sock) ← s.idle f
  match t.kind with
  | .write buf =>
    match K.write sock.state buf c with
    | (.ok n, st) => return (.written n, s.setState fd sock st)
    | (.wouldBlock, st) => (s.setState fd sock st).wouldBlock f t sock w
    | (.error e, st) => return (.failed e, s.setState fd sock st)
  | _ => none

/-- `EEXIST`. -/
def eexist : Errno := 17

/-- The second half of a poll. -/
def register (K : Tcp σ ε χ) (s : State W σ) (f : ℕ) (refused : Option Errno) :
    Option (Result W × State W σ) := do
  let t ← s.futures f
  let o ← s.owners t.owner
  match t.pos with
  | .registering w =>
    let (res, world) ← s.world.step (t.kind.register o.fd w refused)
    let s := (({ s with world := world }).notify K o.fd).setFuture f (some { t with pos := .idle })
    match res with
    | .registered true => return (.pending, s)
    | _ => return (.failed (refused.getD eexist), s)
  | _ => none

/-- `Drop::drop` of `TcpListener` and `TcpStream`, up to the removal of the registration. -/
def drop (s : State W σ) (k : ℕ) : Option (Result W × State W σ) := do
  let o ← s.owners k
  if o.phase == .live && o.borrowers.isEmpty then
    let (_, world) ← s.world.step (.deregister o.fd)
    return (.done, ({ s with world := world }).setOwner k
      (some { o with phase := .dropping (s.world.reactor.registrations o.fd).isSome }))
  else none

def dropDel (s : State W σ) (k : ℕ) : Option (Result W × State W σ) := do
  let o ← s.owners k
  match o.phase with
  | .dropping true =>
    let (_, world) ← s.world.step (.deregisterDel o.fd)
    return (.done, (({ s with world := world }).unready o.fd).setOwner k
      (some { o with phase := .dropping false }))
  | _ => none

def close (s : State W σ) (k : ℕ) : Option (Result W × State W σ) := do
  let o ← s.owners k
  match o.phase with
  | .dropping false =>
    let (_, world) ← s.world.step (.close o.fd)
    return (.done, s.closed k o.fd world)
  | _ => none

/-- The event is what the kernel has to report of a descriptor on its ready list. -/
def Noticed (K : Tcp σ ε χ) (s : State W σ) (e : Event) : Prop :=
  s.ready e.fd = true ∧ ∃ i sock, s.world.reactor.epoll.interest e.fd = some i ∧
    s.sockets e.fd = some sock ∧ e = (K.readiness sock.state).event e.fd i.mask

instance (K : Tcp σ ε χ) (s : State W σ) (e : Event) : Decidable (s.Noticed K e) :=
  match hi : s.world.reactor.epoll.interest e.fd, hs : s.sockets e.fd with
  | some i, some sock =>
    decidable_of_iff (s.ready e.fd = true ∧ e = (K.readiness sock.state).event e.fd i.mask)
      (by simp [Noticed, hi, hs])
  | none, _ => isFalse (by simp [Noticed, hi])
  | some _, none => isFalse (by simp [Noticed, hs])

/-- `epoll_wait` in `Reactor::poll`. -/
def epollWait (K : Tcp σ ε χ) (s : State W σ) (evs : List Event) :
    Option (Result W × State W σ) := do
  if ∀ e ∈ evs, e.fd ≠ s.world.reactor.wakeFd → s.Noticed K e then
    let (_, world) ← s.world.step (.epollWait evs)
    return (.done, { s with
      world := world
      ready := fun fd => s.ready fd && !(evs.map Event.fd).contains fd })
  else none

/-- The second half of `Reactor::poll`. -/
def process (K : Tcp σ ε χ) (s : State W σ) : Option (Result W × State W σ) := do
  let evs ← s.world.batch
  let (res, world) ← s.world.step .process
  let ws := match res with
    | .woken ws => ws
    | _ => []
  return (.woken ws, { s with
    world := world
    ready := fun fd => s.ready fd ||
      ((evs.map Event.fd).contains fd && decide (Reportable K world.reactor.epoll s.sockets fd)) })

/-- Something happens to a socket, and the kernel looks at it. -/
def happens (K : Tcp σ ε χ) (s : State W σ) (fd : Fd) (e : ε) : Option (Result W × State W σ) := do
  let sock ← s.sockets fd
  let st ← K.happens sock.state e
  return (.done, (s.setState fd sock st).notify K fd)

def step (K : Tcp σ ε χ) (s : State W σ) : Op W σ ε χ → Option (Result W × State W σ)
  | .bind k fd flags st => do
    let s ← s.adopt k fd ⟨flags, st⟩ true none
    return (.done, s)
  | .connect k fd flags st => do
    let s ← s.adopt k fd ⟨flags, st⟩ false none
    return (.done, s)
  | .setNonblocking k getErr setErr => s.setNonblocking k getErr setErr
  | .future f k kind => s.future f k kind
  | .dropFuture f => s.dropFuture f
  | .pollAccept f w c k fd flags => s.pollAccept K f w c k fd flags
  | .pollRead f w c => s.pollRead K f w c
  | .pollWrite f w c => s.pollWrite K f w c
  | .register f refused => s.register K f refused
  | .drop k => s.drop k
  | .dropDel k => s.dropDel k
  | .close k => s.close k
  | .wake => do
    let (_, world) ← s.world.step .wake
    return (.done, { s with world := world })
  | .epollWait evs => s.epollWait K evs
  | .process => s.process K
  | .happens fd e => s.happens K fd e

abbrev system (W : Type) (K : Tcp σ ε χ) : System (State W σ) (Op W σ ε χ) (Result W) :=
  ofFn (step K)

/-! ### What a step can do -/

/-- The state with a new socket. -/
def adopted (s : State W σ) (k : ℕ) (fd : Fd) (sock : Socket σ) (isListener : Bool)
    (poll : Option ℕ) : State W σ :=
  { s with
    world := { s.world with isOpen := Function.update s.world.isOpen fd true }
    sockets := Function.update s.sockets fd (some sock)
    owners := Function.update s.owners k (some ⟨fd, isListener, .raw poll, []⟩) }

end State

/-- The future that is polled, the waker of its context, and what the kernel chooses. -/
def Op.polls : Op W σ ε χ → Option (ℕ × W × χ)
  | .pollAccept f w c _ _ _ | .pollRead f w c | .pollWrite f w c => some (f, w, c)
  | _ => none

/-- The call of the kernel that a poll begins with, without what it gives. -/
def FutureKind.call (K : Tcp σ ε χ) (st : σ) (c : χ) : FutureKind → Outcome Unit × σ
  | .accept => ((K.accept st c).1.void, (K.accept st c).2)
  | .read buf => ((K.read st buf.length c).1.void, (K.read st buf.length c).2)
  | .write buf => ((K.write st buf c).1.void, (K.write st buf c).2)

namespace State

/-- What a step can do. -/
inductive Step (K : Tcp σ ε χ) (s : State W σ) : Op W σ ε χ → Result W → State W σ → Prop
  | bind {k fd flags st} (hk : s.owners k = none) (hfd : ¬ s.world.isOpen fd = true) :
    Step K s (.bind k fd flags st) .done (s.adopted k fd ⟨flags, st⟩ true none)
  | connect {k fd flags st} (hk : s.owners k = none) (hfd : ¬ s.world.isOpen fd = true) :
    Step K s (.connect k fd flags st) .done (s.adopted k fd ⟨flags, st⟩ false none)
  | made {k getErr setErr o poll sock sock'} (ho : s.owners k = some o)
    (hphase : o.phase = .raw poll) (hsock : s.sockets o.fd = some sock)
    (hset : Net.setNonblocking sock getErr setErr = .ok sock') :
    Step K s (.setNonblocking k getErr setErr) (.made k)
      (((s.setSocket o.fd (some sock')).setOwner k (some { o with phase := .live })).returned poll)
  | unmade {k getErr setErr o poll sock e world} (ho : s.owners k = some o)
    (hphase : o.phase = .raw poll) (hsock : s.sockets o.fd = some sock)
    (hset : Net.setNonblocking sock getErr setErr = .error e)
    (hworld : World.Step s.world (.close o.fd) .done world) :
    Step K s (.setNonblocking k getErr setErr) (.failed e) ((s.closed k o.fd world).returned poll)
  | future {f k kind o} (ho : s.owners k = some o) (hf : s.futures f = none)
    (hborrow : borrowable o kind = true) :
    Step K s (.future f k kind) .done ((s.setOwner k (some { o with
      borrowers := f :: o.borrowers })).setFuture f (some ⟨k, kind, .idle⟩))
  | dropFuture {f t o} (ht : s.futures f = some t) (ho : s.owners t.owner = some o)
    (hpos : t.pos = .idle) :
    Step K s (.dropFuture f) .done ((s.setOwner t.owner (some { o with
      borrowers := o.borrowers.erase f })).setFuture f none)
  | failed {op f w c e t fd sock st} (hop : op.polls = some (f, w, c))
    (hidle : s.idle f = some (t, fd, sock)) (hcall : t.kind.call K sock.state c = (.error e, st)) :
    Step K s op (.failed e) (s.setState fd sock st)
  | wouldBlock {op f w c t fd sock st} (hop : op.polls = some (f, w, c))
    (hidle : s.idle f = some (t, fd, sock))
    (hcall : t.kind.call K sock.state c = (.wouldBlock, st))
    (hnonblock : sock.nonblocking = true) :
    Step K s op .done
      ((s.setState fd sock st).setFuture f (some { t with pos := .registering w }))
  | accepted {f w c k fd flags t lfd sock conn st} (hk : s.owners k = none)
    (hfd : ¬ s.world.isOpen fd = true) (hidle : s.idle f = some (t, lfd, sock))
    (hkind : t.kind = .accept) (hcall : K.accept sock.state c = (.ok conn, st)) :
    Step K s (.pollAccept f w c k fd flags) .done
      (((s.setState lfd sock st).adopted k fd ⟨flags, conn⟩ false (some f)).setFuture f
        (some { t with pos := .accepted k }))
  | read {f w c t fd sock buf bytes st} (hidle : s.idle f = some (t, fd, sock))
    (hkind : t.kind = .read buf) (hcall : K.read sock.state buf.length c = (.ok bytes, st)) :
    Step K s (.pollRead f w c) (.read bytes)
      ((s.setState fd sock st).setFuture f
        (some { t with kind := .read (bytes ++ buf.drop bytes.length) }))
  | written {f w c t fd sock buf n st} (hidle : s.idle f = some (t, fd, sock))
    (hkind : t.kind = .write buf) (hcall : K.write sock.state buf c = (.ok n, st)) :
    Step K s (.pollWrite f w c) (.written n) (s.setState fd sock st)
  | register {f refused t o w ok world} (ht : s.futures f = some t)
    (ho : s.owners t.owner = some o) (hpos : t.pos = .registering w)
    (hworld : World.Step s.world (t.kind.register o.fd w refused) (.registered ok) world) :
    Step K s (.register f refused)
      (if ok then .pending else .failed (refused.getD eexist))
      ((({ s with world := world }).notify K o.fd).setFuture f (some { t with pos := .idle }))
  | drop {k o world} (ho : s.owners k = some o) (hphase : o.phase = .live)
    (hborrow : o.borrowers = [])
    (hworld : World.Step s.world (.deregister o.fd) .done world) :
    Step K s (.drop k) .done (({ s with world := world }).setOwner k
      (some { o with phase := .dropping (s.world.reactor.registrations o.fd).isSome }))
  | dropDel {k o world} (ho : s.owners k = some o) (hphase : o.phase = .dropping true)
    (hworld : World.Step s.world (.deregisterDel o.fd) .done world) :
    Step K s (.dropDel k) .done ((({ s with world := world }).unready o.fd).setOwner k
      (some { o with phase := .dropping false }))
  | close {k o world} (ho : s.owners k = some o) (hphase : o.phase = .dropping false)
    (hworld : World.Step s.world (.close o.fd) .done world) :
    Step K s (.close k) .done (s.closed k o.fd world)
  | wake :
    Step K s .wake .done { s with world := { s.world with reactor := s.world.reactor.wake } }
  | epollWait {evs world} (hnoticed : ∀ e ∈ evs, e.fd ≠ s.world.reactor.wakeFd → s.Noticed K e)
    (hworld : World.Step s.world (.epollWait evs) .done world) :
    Step K s (.epollWait evs) .done { s with
      world := world
      ready := fun fd => s.ready fd && !(evs.map Event.fd).contains fd }
  | process {evs ws world} (hbatch : s.world.batch = some evs)
    (hworld : World.Step s.world .process (.woken ws) world) :
    Step K s .process (.woken ws) { s with
      world := world
      ready := fun fd => s.ready fd || ((evs.map Event.fd).contains fd &&
        decide (Reportable K world.reactor.epoll s.sockets fd)) }
  | happens {fd e sock st} (hsock : s.sockets fd = some sock)
    (hhappens : K.happens sock.state e = some st) :
    Step K s (.happens fd e) .done ((s.setState fd sock st).notify K fd)

section Cases

variable {K : Tcp σ ε χ} {s s' : State W σ} {res : Result W} {k f : ℕ} {fd : Fd}

theorem adopt_eq_some {sock : Socket σ} {isListener : Bool} {poll : Option ℕ}
    (h : s.adopt k fd sock isListener poll = some s') :
    s.owners k = none ∧ ¬ s.world.isOpen fd = true ∧
      s' = s.adopted k fd sock isListener poll := by
  unfold adopt at h
  split_ifs at h with hk
  rw [Bool.not_eq_true, Option.isSome_eq_false_iff, Option.isNone_iff_eq_none] at hk
  obtain ⟨⟨res, world⟩, hworld, hs⟩ := Option.bind_eq_some_iff.mp h
  cases World.step_cases hworld with
  | opened hfd => exact ⟨hk, hfd, (Option.some.inj hs).symm⟩

theorem setNonblocking_cases {getErr setErr : Option Errno}
    (h : s.setNonblocking k getErr setErr = some (res, s')) :
    Step K s (.setNonblocking k getErr setErr) res s' := by
  obtain ⟨o, ho, h⟩ := Option.bind_eq_some_iff.mp h
  obtain ⟨sock, hsock, h⟩ := Option.bind_eq_some_iff.mp h
  split at h
  · rename_i poll hphase
    split at h
    · rename_i sock' hset
      cases h
      exact .made ho hphase hsock hset
    · rename_i e hset
      obtain ⟨⟨r, world⟩, hworld, hs⟩ := Option.bind_eq_some_iff.mp h
      cases hs
      cases World.step_cases hworld with
      | closed hcan hreg => exact .unmade ho hphase hsock hset (.closed hcan hreg)
  · cases h

theorem future_cases {kind : FutureKind} (h : s.future f k kind = some (res, s')) :
    Step K s (.future f k kind) res s' := by
  obtain ⟨o, ho, h⟩ := Option.bind_eq_some_iff.mp h
  split_ifs at h with hcond
  cases h
  rw [Bool.and_eq_true, Option.isNone_iff_eq_none] at hcond
  exact .future ho hcond.1 hcond.2

theorem dropFuture_cases (h : s.dropFuture f = some (res, s')) :
    Step K s (.dropFuture f) res s' := by
  obtain ⟨t, ht, h⟩ := Option.bind_eq_some_iff.mp h
  obtain ⟨o, ho, h⟩ := Option.bind_eq_some_iff.mp h
  split at h
  · rename_i hpos
    cases h
    exact .dropFuture ht ho hpos
  · cases h

/-- A poll whose call would have blocked. -/
theorem wouldBlock_cases {op : Op W σ ε χ} {w : W} {c : χ} {t : Future W} {sock : Socket σ}
    {st : σ} (hop : op.polls = some (f, w, c)) (hidle : s.idle f = some (t, fd, sock))
    (hcall : t.kind.call K sock.state c = (.wouldBlock, st))
    (h : (s.setState fd sock st).wouldBlock f t sock w = some (res, s')) : Step K s op res s' := by
  unfold wouldBlock at h
  split_ifs at h with hnonblock
  cases h
  exact .wouldBlock hop hidle hcall hnonblock

theorem pollAccept_cases {w : W} {c : χ} {flags : BitVec 32}
    (h : s.pollAccept K f w c k fd flags = some (res, s')) :
    Step K s (.pollAccept f w c k fd flags) res s' := by
  obtain ⟨⟨t, lfd, sock⟩, hidle, h⟩ := Option.bind_eq_some_iff.mp h
  dsimp only at h
  split at h
  · rename_i hkind
    split at h
    · rename_i conn st hcall
      obtain ⟨s₁, hadopt, hs⟩ := Option.bind_eq_some_iff.mp h
      obtain ⟨hk, hfd, rfl⟩ := adopt_eq_some hadopt
      cases hs
      exact .accepted hk hfd hidle hkind hcall
    · rename_i st hcall
      refine wouldBlock_cases rfl hidle ?_ h
      rw [hkind, FutureKind.call, hcall]
      rfl
    · rename_i e st hcall
      cases h
      refine .failed rfl hidle ?_
      rw [hkind, FutureKind.call, hcall]
      rfl
  · cases h

theorem pollRead_cases {w : W} {c : χ} (h : s.pollRead K f w c = some (res, s')) :
    Step K s (.pollRead f w c) res s' := by
  obtain ⟨⟨t, fd, sock⟩, hidle, h⟩ := Option.bind_eq_some_iff.mp h
  dsimp only at h
  split at h
  · rename_i buf hkind
    split at h
    · rename_i bytes st hcall
      cases h
      exact .read hidle hkind hcall
    · rename_i st hcall
      refine wouldBlock_cases rfl hidle ?_ h
      rw [hkind, FutureKind.call, hcall]
      rfl
    · rename_i e st hcall
      cases h
      refine .failed rfl hidle ?_
      rw [hkind, FutureKind.call, hcall]
      rfl
  · cases h

theorem pollWrite_cases {w : W} {c : χ} (h : s.pollWrite K f w c = some (res, s')) :
    Step K s (.pollWrite f w c) res s' := by
  obtain ⟨⟨t, fd, sock⟩, hidle, h⟩ := Option.bind_eq_some_iff.mp h
  dsimp only at h
  split at h
  · rename_i buf hkind
    split at h
    · rename_i n st hcall
      cases h
      exact .written hidle hkind hcall
    · rename_i st hcall
      refine wouldBlock_cases rfl hidle ?_ h
      rw [hkind, FutureKind.call, hcall]
      rfl
    · rename_i e st hcall
      cases h
      refine .failed rfl hidle ?_
      rw [hkind, FutureKind.call, hcall]
      rfl
  · cases h

/-- The call of the reactor in the second half of a poll. -/
theorem register_step_cases {w₀ w₁ : World W} {kind : FutureKind} {w : W} {refused : Option Errno}
    {r : Reactor.Result W} (h : World.Step w₀ (kind.register fd w refused) r w₁) :
    r = .registered (w₀.reactor.register fd w kind.isRead refused.isSome).1 ∧
      w₁ = { w₀ with reactor := (w₀.reactor.register fd w kind.isRead refused.isSome).2 } := by
  unfold FutureKind.register at h
  split_ifs at h with hread
  · rw [hread]
    cases h
    exact ⟨rfl, rfl⟩
  · rw [Bool.not_eq_true] at hread
    rw [hread]
    cases h
    exact ⟨rfl, rfl⟩

theorem register_cases {refused : Option Errno} (h : s.register K f refused = some (res, s')) :
    Step K s (.register f refused) res s' := by
  obtain ⟨t, ht, h⟩ := Option.bind_eq_some_iff.mp h
  obtain ⟨o, ho, h⟩ := Option.bind_eq_some_iff.mp h
  split at h
  · rename_i w hpos
    obtain ⟨⟨r, world⟩, hworld, h⟩ := Option.bind_eq_some_iff.mp h
    have hstep := World.step_cases hworld
    obtain ⟨hres, -⟩ := register_step_cases hstep
    generalize (s.world.reactor.register o.fd w t.kind.isRead refused.isSome).1 = ok at hres
    subst hres
    have hreg : Step K s (.register f refused) _ _ := .register ht ho hpos hstep
    cases ok with
    | true =>
      cases h
      exact hreg
    | false =>
      cases h
      exact hreg
  · cases h

theorem drop_cases (h : s.drop k = some (res, s')) : Step K s (.drop k) res s' := by
  obtain ⟨o, ho, h⟩ := Option.bind_eq_some_iff.mp h
  split_ifs at h with hcond
  obtain ⟨⟨r, world⟩, hworld, hs⟩ := Option.bind_eq_some_iff.mp h
  cases hs
  rw [Bool.and_eq_true, beq_iff_eq, List.isEmpty_iff] at hcond
  cases World.step_cases hworld with
  | deregister => exact .drop ho hcond.1 hcond.2 .deregister

theorem dropDel_cases (h : s.dropDel k = some (res, s')) : Step K s (.dropDel k) res s' := by
  obtain ⟨o, ho, h⟩ := Option.bind_eq_some_iff.mp h
  split at h
  · rename_i hphase
    obtain ⟨⟨r, world⟩, hworld, hs⟩ := Option.bind_eq_some_iff.mp h
    cases hs
    cases World.step_cases hworld with
    | deregisterDel hclosing => exact .dropDel ho hphase (.deregisterDel hclosing)
  · cases h

theorem close_cases (h : s.close k = some (res, s')) : Step K s (.close k) res s' := by
  obtain ⟨o, ho, h⟩ := Option.bind_eq_some_iff.mp h
  split at h
  · rename_i hphase
    obtain ⟨⟨r, world⟩, hworld, hs⟩ := Option.bind_eq_some_iff.mp h
    cases hs
    cases World.step_cases hworld with
    | closed hcan hreg => exact .close ho hphase (.closed hcan hreg)
  · cases h

theorem epollWait_cases {evs : List Event} (h : s.epollWait K evs = some (res, s')) :
    Step K s (.epollWait evs) res s' := by
  unfold epollWait at h
  split_ifs at h with hnoticed
  obtain ⟨⟨r, world⟩, hworld, hs⟩ := Option.bind_eq_some_iff.mp h
  cases hs
  cases World.step_cases hworld with
  | epollWait hbatch hevs => exact .epollWait hnoticed (.epollWait hbatch hevs)

theorem process_cases (h : s.process K = some (res, s')) : Step K s .process res s' := by
  obtain ⟨evs, hbatch, h⟩ := Option.bind_eq_some_iff.mp h
  obtain ⟨⟨r, world⟩, hworld, hs⟩ := Option.bind_eq_some_iff.mp h
  cases hs
  cases World.step_cases hworld with
  | process hbatch' => exact .process hbatch (.process hbatch')

theorem happens_cases {e : ε} (h : s.happens K fd e = some (res, s')) :
    Step K s (.happens fd e) res s' := by
  obtain ⟨sock, hsock, h⟩ := Option.bind_eq_some_iff.mp h
  obtain ⟨st, hhappens, h⟩ := Option.bind_eq_some_iff.mp h
  cases h
  exact .happens hsock hhappens

theorem step_cases {op : Op W σ ε χ} (h : s.step K op = some (res, s')) : Step K s op res s' := by
  cases op with
  | bind k fd flags st =>
    obtain ⟨s₁, hadopt, hs⟩ := Option.bind_eq_some_iff.mp h
    obtain ⟨hk, hfd, rfl⟩ := adopt_eq_some hadopt
    cases hs
    exact .bind hk hfd
  | connect k fd flags st =>
    obtain ⟨s₁, hadopt, hs⟩ := Option.bind_eq_some_iff.mp h
    obtain ⟨hk, hfd, rfl⟩ := adopt_eq_some hadopt
    cases hs
    exact .connect hk hfd
  | wake =>
    cases h
    exact .wake
  | setNonblocking k getErr setErr => exact setNonblocking_cases h
  | future f k kind => exact future_cases h
  | dropFuture f => exact dropFuture_cases h
  | pollAccept f w c k fd flags => exact pollAccept_cases h
  | pollRead f w c => exact pollRead_cases h
  | pollWrite f w c => exact pollWrite_cases h
  | register f refused => exact register_cases h
  | drop k => exact drop_cases h
  | dropDel k => exact dropDel_cases h
  | close k => exact close_cases h
  | epollWait evs => exact epollWait_cases h
  | process => exact process_cases h
  | happens fd e => exact happens_cases h

end Cases

end State

end MiniAsync.Net
