/-
  The raw wakers of the multi-threaded runtime (`multi_thread/executor.rs`), with
  the memory that they keep alive.

  A waker points to a box with the id of the task, a reference to the task's atomic
  state and one to the `SharedState`. The `SharedState` refers to the tasks in its
  map, and a task to its state and to its own waker. It also refers to its timers and
  to its reactor, where the wakers of those who wait are stored. So the references
  form cycles. The functions of the vtable are taken one access at a time, and any
  number of calls can be under way at once (`Call`). A call that was given `&Waker`
  borrows a handle, which then cannot be given up.

  What user code does beyond this is left open: it has handles, and can use them in
  any order and from any thread. What a future, a `JoinHandle` or a channel holds is
  a handle here, wherever the future is.
-/
import MiniAsync.Kernel.Epoll
import MiniAsync.Memory.Counted
import MiniAsync.MultiThread.State
import MiniAsync.Trace.System

namespace MiniAsync.MultiThread.Raw

open Kernel Memory Trace

/-- The sorts of values in memory. -/
inductive Tag where
  | state
  | waker
  | task
  | timer
  | reactor
  | shared
deriving DecidableEq

/-- A waker's data is in a `Box`, everything else in an `Arc`. -/
def Tag.kind : Tag → Kind
  | .waker => .box
  | _ => .shared

/-- A place for a waker in a `Registration`: the descriptor, and whether it is `read_waker`. -/
abbrev Slot := Fd × Bool

/-- `SharedState`: the task map, the ready queue, the entries of the `TimerWheel` (which has no
other owner) and the reactor. -/
structure SharedState where
  tasks : List (TaskId × Addr)
  queue : ReadyQueue
  timers : List Addr
  reactor : Addr
deriving DecidableEq

inductive Obj where
  /-- The `AtomicU8` of a task. -/
  | state (status : Status)
  /-- `WakerData`. -/
  | wakerData (taskId : TaskId) (taskState shared : Addr)
  /-- `Task`, without its future. -/
  | task (id : TaskId) (state waker : Addr)
  /-- `TimerState`, with the waker in its cell. -/
  | timer (waker : Option Addr)
  /-- `Reactor`, with the wakers of its registrations. -/
  | reactor (wakers : List (Slot × Addr))
  | shared (s : SharedState)
deriving DecidableEq

namespace Obj

def tag : Obj → Tag
  | state _ => .state
  | wakerData _ _ _ => .waker
  | task _ _ _ => .task
  | timer _ => .timer
  | reactor _ => .reactor
  | shared _ => .shared

/-- The references of a value, with the sorts of what they refer to. -/
def links : Obj → List (Addr × Tag)
  | state _ => []
  | wakerData _ st sh => [(st, .state), (sh, .shared)]
  | task _ st wk => [(st, .state), (wk, .waker)]
  | timer waker => waker.toList.map fun ptr => (ptr, .waker)
  | reactor wakers => wakers.map fun entry => (entry.2, .waker)
  | shared s => (s.reactor, .reactor) ::
      (s.tasks.map (fun entry => (entry.2, .task)) ++ s.timers.map fun t => (t, .timer))

end Obj

instance : Refs Obj where
  refs v := v.links.map Prod.fst

abbrev Heap := Mem Obj

/-! ### Memory accesses -/

def readState (m : Heap) (a : Addr) : Option Status :=
  match m.read .shared a with
  | some (.state status) => some status
  | _ => none

def writeState (m : Heap) (a : Addr) (status : Status) : Option Heap := do
  let _ ← readState m a
  m.write .shared a (.state status)

/-- `&*(ptr as *const WakerData)`. -/
def readWakerData (m : Heap) (ptr : Addr) : Option (TaskId × Addr × Addr) :=
  match m.read .box ptr with
  | some (.wakerData x taskState shared) => some (x, taskState, shared)
  | _ => none

def readTask (m : Heap) (t : Addr) : Option (TaskId × Addr × Addr) :=
  match m.read .shared t with
  | some (.task id state waker) => some (id, state, waker)
  | _ => none

def readTimer (m : Heap) (t : Addr) : Option (Option Addr) :=
  match m.read .shared t with
  | some (.timer waker) => some waker
  | _ => none

def readReactor (m : Heap) (r : Addr) : Option (List (Slot × Addr)) :=
  match m.read .shared r with
  | some (.reactor wakers) => some wakers
  | _ => none

def readShared (m : Heap) (a : Addr) : Option SharedState :=
  match m.read .shared a with
  | some (.shared s) => some s
  | _ => none

def writeShared (m : Heap) (a : Addr) (s : SharedState) : Option Heap :=
  m.write .shared a (.shared s)

/-- `ready_queue.lock().enqueue(id)`. -/
def enqueue (m : Heap) (shared : Addr) (id : TaskId) : Option Heap := do
  let s ← readShared m shared
  writeShared m shared { s with queue := s.queue.enqueue id }

/-- `insert` and `remove` of the task map: the entries with the key `id` are replaced by `new`. -/
def replaceTasks (m : Heap) (shared : Addr) (id : TaskId) (new : List (TaskId × Addr)) :
    Option (List Addr × Heap) := do
  let s ← readShared m shared
  let m ← writeShared m shared { s with tasks := new ++ s.tasks.filter (·.1 ≠ id) }
  some ((s.tasks.filter (·.1 = id)).map Prod.snd, m)

/-- The waker in the cell of a timer is replaced, by who has claimed the cell. -/
def replaceTimer (m : Heap) (t : Addr) (new : Option Addr) : Option (Option Addr × Heap) := do
  let old ← readTimer m t
  let m ← m.write .shared t (.timer new)
  some (old, m)

/-- The wakers in the slots that `p` tells are replaced by `new`, under the lock of the
registrations. -/
def replaceWakers (m : Heap) (r : Addr) (p : Slot → Bool) (new : List (Slot × Addr)) :
    Option (List Addr × Heap) := do
  let wakers ← readReactor m r
  let m ← m.write .shared r (.reactor (new ++ wakers.filter fun entry => !p entry.1))
  some ((wakers.filter fun entry => p entry.1).map Prod.snd, m)

/-! ### Calls -/

/-- What user code and the threads of the runtime hold: a `Waker`, an `Arc<SharedState>` (the
runtime and its workers), an `Arc<Task>` (a worker in `poll_task`), a `Sleep`, or the
`Arc<Reactor>` of a `TcpListener` or a `TcpStream`. -/
inductive Handle where
  | waker (ptr : Addr)
  | shared (a : Addr)
  | task (t : Addr)
  | sleep (t : Addr)
  | socket (r : Addr)
deriving DecidableEq

namespace Handle

def addr : Handle → Addr
  | waker ptr => ptr
  | shared a => a
  | task t => t
  | sleep t => t
  | socket r => r

def tag : Handle → Tag
  | waker _ => .waker
  | shared _ => .shared
  | task _ => .task
  | sleep _ => .timer
  | socket _ => .reactor

end Handle

/-- A call that is under way, and the access that it makes next. A call that borrows a handle has
its address as `owner`; the `wake` of a `Waker` by value has no owner and owns the box itself. -/
inductive Call where
  /-- `waker_clone`: the two clones and `Box::new`. -/
  | cloneState (owner ptr : Addr)
  | cloneShared (owner ptr taskState : Addr)
  | cloneBox (owner ptr taskState shared : Addr)
  /-- `wake_by_ref_impl`: the load, the compare-and-swap, and `enqueue_task`. -/
  | load (owner : Option Addr) (ptr : Addr)
  | cas (owner : Option Addr) (ptr : Addr) (seen : Status)
  | enqueue (owner : Option Addr) (ptr : Addr)
  | signal (owner : Option Addr) (ptr : Addr)
  /-- `SharedState::spawn`: the insertion into the map and `enqueue_task`. -/
  | insert (shared : Addr) (id : TaskId) (task : Addr)
  | enqueueNew (shared : Addr) (id : TaskId)
  | signalNew (shared : Addr)
  /-- `TimerWheel::process` with an entry that has been popped: `AtomicWaker::wake`. -/
  | fire (timer : Addr)
  /-- References that are being dropped. -/
  | dropping (pending : List Addr)
deriving DecidableEq

namespace Call

/-- The handles that the call borrows. -/
def borrows : Call → List Addr
  | cloneState owner _ | cloneShared owner _ _ | cloneBox owner _ _ _ => [owner]
  | load owner _ | cas owner _ _ | enqueue owner _ | signal owner _ => owner.toList
  | insert shared _ _ | enqueueNew shared _ | signalNew shared => [shared]
  | fire _ | dropping _ => []

/-- The box of a call that has no owner. -/
def ownBox (ptr : Addr) : Option Addr → List Addr
  | none => [ptr]
  | some _ => []

/-- The references that the call owns. -/
def owned : Call → List Addr
  | cloneState _ _ => []
  | cloneShared _ _ taskState => [taskState]
  | cloneBox _ _ taskState shared => [taskState, shared]
  | load owner ptr | cas owner ptr _ | enqueue owner ptr | signal owner ptr => ownBox ptr owner
  | insert _ _ task => [task]
  | enqueueNew _ _ | signalNew _ => []
  | fire timer => [timer]
  | dropping pending => pending

/-- The maps that the call writes. -/
def maps : Call → List Addr
  | insert shared _ _ => [shared]
  | _ => []

/-- The return from `wake_by_ref_impl`: a waker that was woken by value is dropped. -/
def ret (ptr : Addr) : Option Addr → List Call
  | none => [dropping [ptr]]
  | some _ => []

end Call

/-- The memory after an access, the handles that it has made, and how the calls go on. -/
structure Next where
  mem : Heap
  handles : List Handle
  calls : List Call

/-- The next access of a call; `none` if the memory is misused. The argument `spurious` is the
freedom of `compare_exchange_weak` to fail. -/
def Call.step (m : Heap) (spurious : Bool) : Call → Option Next
  | cloneState owner ptr => do
    let (_, taskState, _) ← readWakerData m ptr
    let m ← m.retain taskState
    some ⟨m, [], [cloneShared owner ptr taskState]⟩
  | cloneShared owner ptr taskState => do
    let (_, _, shared) ← readWakerData m ptr
    let m ← m.retain shared
    some ⟨m, [], [cloneBox owner ptr taskState shared]⟩
  | cloneBox _ ptr taskState shared => do
    let (x, _, _) ← readWakerData m ptr
    let (ptr', m) := m.alloc (.box (.wakerData x taskState shared))
    some ⟨m, [.waker ptr'], []⟩
  | load owner ptr => do
    let (_, taskState, _) ← readWakerData m ptr
    match ← readState m taskState with
    | .idle => some ⟨m, [], [cas owner ptr .idle]⟩
    | .running => some ⟨m, [], [cas owner ptr .running]⟩
    | _ => some ⟨m, [], ret ptr owner⟩
  | cas owner ptr seen => do
    let (_, taskState, _) ← readWakerData m ptr
    let status ← readState m taskState
    if status = seen ∧ spurious = false then
      match seen with
      | .idle => do
        let m ← writeState m taskState .scheduled
        some ⟨m, [], [enqueue owner ptr]⟩
      | _ => do
        let m ← writeState m taskState .notified
        some ⟨m, [], ret ptr owner⟩
    else some ⟨m, [], [load owner ptr]⟩
  | enqueue owner ptr => do
    let (x, _, shared) ← readWakerData m ptr
    let m ← Raw.enqueue m shared x
    some ⟨m, [], [signal owner ptr]⟩
  | signal owner ptr => do
    let (_, _, shared) ← readWakerData m ptr
    let s ← readShared m shared
    let _ ← readReactor m s.reactor
    some ⟨m, [], ret ptr owner⟩
  | insert shared id task => do
    let (old, m) ← replaceTasks m shared id [(id, task)]
    some ⟨m, [], [enqueueNew shared id, dropping old]⟩
  | enqueueNew shared id => do
    let m ← Raw.enqueue m shared id
    some ⟨m, [], [signalNew shared]⟩
  | signalNew shared => do
    let s ← readShared m shared
    let _ ← readReactor m s.reactor
    some ⟨m, [], []⟩
  | fire timer => do
    let (waker, m) ← replaceTimer m timer none
    some ⟨m, [], waker.toList.map (load none) ++ [dropping [timer]]⟩
  | dropping [] => some ⟨m, [], []⟩
  | dropping (a :: pending) => do
    let (more, m) ← m.release a
    some ⟨m, [], [dropping (more ++ pending)]⟩

/-- The memory, the handles and the calls. `forgotten` is history. -/
structure World where
  mem : Heap
  handles : List Handle
  forgotten : List Handle
  calls : List Call

/-- What can be done next; a number is a place in the list of the handles or of the calls. -/
inductive Op where
  /-- `MultiThreadRuntime::new`. -/
  | newRuntime
  /-- The clone of the `Arc<SharedState>` for a worker. -/
  | newWorker (i : ℕ)
  /-- `spawn` or `block_on`, up to `SharedState::spawn`. -/
  | spawn (i : ℕ) (x : TaskId)
  /-- A worker's access to the queue. -/
  | dequeue (i : ℕ)
  /-- `poll_task`: the lookup, the accesses to the task's state and the removal. -/
  | lookup (i : ℕ) (x : TaskId)
  | setStatus (i : ℕ) (status : Status)
  | remove (i : ℕ) (x : TaskId)
  /-- `TimerWheel::register`. -/
  | sleep (i : ℕ)
  /-- `AtomicWaker::register`, with a clone `i` of the waker and the `Sleep` `j`. -/
  | arm (i j : ℕ)
  /-- `TimerWheel::process` pops the entry `n`. -/
  | fire (i n : ℕ)
  /-- The clone of the `Arc<Reactor>` for a `TcpListener` or a `TcpStream`, by the runtime or in
  `Accept::poll`. -/
  | connect (i : ℕ)
  | accept (i : ℕ)
  /-- `Reactor::register`, with a clone `i` of the waker and the socket `j`. If `epoll_ctl` fails,
  the registration is as before and the clone is dropped. -/
  | register (i j : ℕ) (slot : Slot)
  /-- `Reactor::poll` takes the waker in a slot and wakes it. -/
  | wakeSlot (i : ℕ) (slot : Slot)
  /-- `Reactor::deregister`. -/
  | deregister (i : ℕ) (fd : Fd)
  /-- Calls of the vtable, on a waker or on that of the task that is being polled. -/
  | clone (i : ℕ)
  | wakeByRef (i : ℕ)
  | wake (i : ℕ)
  | drop (i : ℕ)
  /-- `mem::forget`. -/
  | forget (i : ℕ)
  /-- The call `j` goes on. -/
  | go (j : ℕ) (spurious : Bool)
deriving DecidableEq

namespace World

def new : World := ⟨.empty, [], [], []⟩

def borrowed (w : World) : List Addr := w.calls.flatMap Call.borrows

/-- A handle to `a` can be given up: it is not the last one while a call has borrowed one. -/
abbrev Free (w : World) (a : Addr) : Prop :=
  a ∈ w.borrowed → 2 ≤ (w.handles.map Handle.addr).count a

/-- The waker that a handle gives access to. -/
def wakerOf (m : Heap) : Handle → Option Addr
  | .waker ptr => some ptr
  | .task t => (readTask m t).map fun task => task.2.2
  | _ => none

/-- `Runtime::spawn` up to the call of `SharedState::spawn`: the state, the waker and the task. -/
def newTask (m : Heap) (shared : Addr) (x : TaskId) : Option (Addr × Heap) := do
  let (taskState, m) := m.alloc (.shared 1 (.state .scheduled))
  let m ← m.retain taskState
  let m ← m.retain shared
  let (waker, m) := m.alloc (.box (.wakerData x taskState shared))
  some (m.alloc (.shared 1 (.task x taskState waker)))

/-- `TimerWheel::register`: the timer, with a reference in the inbox. -/
def newTimer (m : Heap) (shared : Addr) : Option (Addr × Heap) := do
  let (t, m) := m.alloc (.shared 1 (.timer none))
  let m ← m.retain t
  let s ← readShared m shared
  let m ← writeShared m shared { s with timers := s.timers ++ [t] }
  some (t, m)

/-- The memory is `m`, and there are new handles and calls. -/
def add (w : World) (m : Heap) (handles : List Handle) (calls : List Call) : World :=
  { w with mem := m, handles := w.handles ++ handles, calls := w.calls ++ calls }

def eraseHandle (w : World) (i : ℕ) : World := { w with handles := w.handles.eraseIdx i }

def eraseCall (w : World) (j : ℕ) : World := { w with calls := w.calls.eraseIdx j }

/-- An operation; `none` if there is no such handle or call, if the handle is borrowed, or if the
memory is misused. -/
def step (w : World) : Op → Option World
  | .newRuntime =>
    let (r, m) := w.mem.alloc (.shared 1 (.reactor []))
    let (a, m) := m.alloc (.shared 1 (.shared ⟨[], .new, [], r⟩))
    some (w.add m [.shared a] [])
  | .newWorker i =>
    match w.handles[i]? with
    | some (.shared a) => do
      let m ← w.mem.retain a
      some (w.add m [.shared a] [])
    | _ => none
  | .spawn i x =>
    match w.handles[i]? with
    | some (.shared a) => do
      let (task, m) ← newTask w.mem a x
      some (w.add m [] [.insert a x task])
    | _ => none
  | .dequeue i =>
    match w.handles[i]? with
    | some (.shared a) => do
      let s ← readShared w.mem a
      let m ← writeShared w.mem a { s with queue := s.queue.dequeue.2 }
      some (w.add m [] [])
    | _ => none
  | .lookup i x =>
    match w.handles[i]? with
    | some (.shared a) => do
      let s ← readShared w.mem a
      match s.tasks.find? (·.1 = x) with
      | none => some w
      | some entry => do
        let m ← w.mem.retain entry.2
        some (w.add m [.task entry.2] [])
    | _ => none
  | .setStatus i status =>
    match w.handles[i]? with
    | some (.task t) => do
      let (_, state, _) ← readTask w.mem t
      let m ← writeState w.mem state status
      some (w.add m [] [])
    | _ => none
  | .remove i x =>
    match w.handles[i]? with
    | some (.shared a) => do
      let (old, m) ← replaceTasks w.mem a x []
      some (w.add m [] [.dropping old])
    | _ => none
  | .sleep i =>
    match w.handles[i]? with
    | some (.shared a) => do
      let (t, m) ← newTimer w.mem a
      some (w.add m [.sleep t] [])
    | _ => none
  | .arm i j =>
    match w.handles[i]?, w.handles[j]? with
    | some (.waker ptr), some (.sleep t) =>
      if w.Free ptr then do
        let (old, m) ← replaceTimer w.mem t (some ptr)
        some ((w.eraseHandle i).add m [] [.dropping old.toList])
      else none
    | _, _ => none
  | .fire i n =>
    match w.handles[i]? with
    | some (.shared a) => do
      let s ← readShared w.mem a
      match s.timers[n]? with
      | none => some w
      | some t => do
        let m ← writeShared w.mem a { s with timers := s.timers.eraseIdx n }
        some (w.add m [] [.fire t])
    | _ => none
  | .connect i =>
    match w.handles[i]? with
    | some (.shared a) => do
      let s ← readShared w.mem a
      let m ← w.mem.retain s.reactor
      some (w.add m [.socket s.reactor] [])
    | _ => none
  | .accept i =>
    match w.handles[i]? with
    | some (.socket r) => do
      let m ← w.mem.retain r
      some (w.add m [.socket r] [])
    | _ => none
  | .register i j slot =>
    match w.handles[i]?, w.handles[j]? with
    | some (.waker ptr), some (.socket r) =>
      if w.Free ptr then do
        let (old, m) ← replaceWakers w.mem r (· = slot) [(slot, ptr)]
        some ((w.eraseHandle i).add m [] [.dropping old])
      else none
    | _, _ => none
  | .wakeSlot i slot =>
    match w.handles[i]? with
    | some (.shared a) => do
      let s ← readShared w.mem a
      let (old, m) ← replaceWakers w.mem s.reactor (· = slot) []
      some (w.add m [] (old.map (.load none)))
    | _ => none
  | .deregister i fd =>
    match w.handles[i]? with
    | some (.socket r) => do
      let (old, m) ← replaceWakers w.mem r (·.1 = fd) []
      some (w.add m [] [.dropping old])
    | _ => none
  | .clone i =>
    match w.handles[i]? with
    | some handle => do
      let ptr ← wakerOf w.mem handle
      some (w.add w.mem [] [.cloneState handle.addr ptr])
    | none => none
  | .wakeByRef i =>
    match w.handles[i]? with
    | some handle => do
      let ptr ← wakerOf w.mem handle
      some (w.add w.mem [] [.load (some handle.addr) ptr])
    | none => none
  | .wake i =>
    match w.handles[i]? with
    | some (.waker ptr) =>
      if w.Free ptr then some ((w.eraseHandle i).add w.mem [] [.load none ptr]) else none
    | _ => none
  | .drop i =>
    match w.handles[i]? with
    | some handle =>
      if w.Free handle.addr then
        some ((w.eraseHandle i).add w.mem [] [.dropping [handle.addr]])
      else none
    | none => none
  | .forget i =>
    match w.handles[i]? with
    | some handle =>
      if w.Free handle.addr then
        some { w.eraseHandle i with forgotten := w.forgotten ++ [handle] }
      else none
    | none => none
  | .go j spurious =>
    match w.calls[j]? with
    | some call => do
      let next ← call.step w.mem spurious
      some ((w.eraseCall j).add next.mem next.handles next.calls)
    | none => none

end World

namespace World

/-- What the rules of ownership and borrowing allow. -/
def Can (w : World) : Op → Prop
  | .newRuntime => True
  | .newWorker i | .spawn i _ | .dequeue i | .lookup i _ | .remove i _ | .sleep i | .fire i _
  | .connect i | .wakeSlot i _ => ∃ a, w.handles[i]? = some (.shared a)
  | .setStatus i _ => ∃ t, w.handles[i]? = some (.task t)
  | .arm i j =>
    ∃ ptr t, w.handles[i]? = some (.waker ptr) ∧ w.handles[j]? = some (.sleep t) ∧ w.Free ptr
  | .accept i | .deregister i _ => ∃ r, w.handles[i]? = some (.socket r)
  | .register i j _ =>
    ∃ ptr r, w.handles[i]? = some (.waker ptr) ∧ w.handles[j]? = some (.socket r) ∧ w.Free ptr
  | .clone i | .wakeByRef i =>
    ∃ hd, w.handles[i]? = some hd ∧ (hd.tag = .waker ∨ hd.tag = .task)
  | .wake i => ∃ ptr, w.handles[i]? = some (.waker ptr) ∧ w.Free ptr
  | .drop i | .forget i => ∃ hd, w.handles[i]? = some hd ∧ w.Free hd.addr
  | .go j _ => ∃ call, w.calls[j]? = some call

/-- The references that are held outside the memory. -/
def roots (w : World) : List Addr :=
  w.handles.map Handle.addr ++ w.forgotten.map Handle.addr ++ w.calls.flatMap Call.owned

end World

end MiniAsync.MultiThread.Raw
