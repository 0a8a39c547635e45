/-
  The raw wakers of the single-threaded runtime: `make_waker` and its vtable
  (`executor.rs`), and `flag_waker` of `block_on` (`runtime.rs`).

  Both are unsafe code. A waker of a task points to a box with the task's id and a
  reference to the ready queue, a waker of a root's handle to the shared flag itself,
  and the functions of the vtables keep the boxes and the counts by hand. Everything
  else is safe code, of which only this matters: it has handles (`Handle`), uses one
  that it has, and gives one up by dropping it, by waking a waker by value or with
  `mem::forget`. A `World` is the memory and all the handles, and its operations can
  be called in any order.

  The operations are made one after the other, on one thread. This is a premise and not
  a result: the type `Waker` is `Send` and `Sync`, so that safe code can move such a
  waker to another thread, but the counts and the queue are those of an `Rc` and a
  `RefCell`, and two threads that clone a waker at the same time corrupt them.
  `executor.rs` relies on the same premise (the comment above `WakerData`).

  `Ideal` is what the wakers are for: there is no memory, a waker is the name of a
  task of an executor or of a flag, and to wake it is to push the task or to set the
  flag.
-/
import MiniAsync.Memory.Counted
import MiniAsync.SingleThread.Executor
import MiniAsync.Trace.System

namespace MiniAsync.SingleThread.Raw

open Memory Trace

/-- What is shared: a `RefCell<ReadyQueue>` or a `Cell<bool>`. -/
inductive Content where
  | queue (q : ReadyQueue)
  | flag (b : Bool)
deriving DecidableEq

/-- The values in memory. -/
inductive Obj where
  | content (c : Content)
  /-- `WakerData`. -/
  | wakerData (taskId : TaskId) (queue : Addr)
deriving DecidableEq

instance : Refs Obj where
  refs
    | .content _ => []
    | .wakerData _ queue => [queue]

abbrev Heap := Mem Obj

/-- Whose vtable a waker has: that of `executor.rs` or that in `flag_waker`. -/
inductive VTable where
  | task
  | flag
deriving DecidableEq

/-- `RawWaker`. -/
structure RawWaker where
  ptr : Addr
  vtable : VTable
deriving DecidableEq

/-! ### Memory accesses -/

def readQueue (m : Heap) (a : Addr) : Option ReadyQueue :=
  match m.read .shared a with
  | some (.content (.queue q)) => some q
  | _ => none

def writeQueue (m : Heap) (a : Addr) (q : ReadyQueue) : Option Heap :=
  m.write .shared a (.content (.queue q))

def readFlag (m : Heap) (a : Addr) : Option Bool :=
  match m.read .shared a with
  | some (.content (.flag b)) => some b
  | _ => none

def writeFlag (m : Heap) (a : Addr) (b : Bool) : Option Heap := do
  let _ ← readFlag m a
  m.write .shared a (.content (.flag b))

/-- `&*(ptr as *const WakerData)`. -/
def readWakerData (m : Heap) (ptr : Addr) : Option (TaskId × Addr) :=
  match m.read .box ptr with
  | some (.wakerData x queue) => some (x, queue)
  | _ => none

/-- `queue.borrow_mut().push(task_id)`. -/
def push (m : Heap) (queue : Addr) (x : TaskId) : Option Heap := do
  let q ← readQueue m queue
  writeQueue m queue (q.push x)

/-! ### The wakers of tasks -/

/-- `make_waker`; the reference `queue` is moved into the box. -/
def makeWaker (m : Heap) (x : TaskId) (queue : Addr) : RawWaker × Heap :=
  let (ptr, m) := m.alloc (.box (.wakerData x queue))
  (⟨ptr, .task⟩, m)

/-- `waker_clone`. -/
def wakerClone (m : Heap) (ptr : Addr) : Option (RawWaker × Heap) := do
  let (x, queue) ← readWakerData m ptr
  let m ← m.retain queue
  let (ptr', m) := m.alloc (.box (.wakerData x queue))
  some (⟨ptr', .task⟩, m)

/-- `waker_wake_by_ref`. -/
def wakerWakeByRef (m : Heap) (ptr : Addr) : Option Heap := do
  let (x, queue) ← readWakerData m ptr
  push m queue x

/-- `waker_drop`. -/
def wakerDrop (m : Heap) (ptr : Addr) : Option Heap := do
  let _ ← readWakerData m ptr
  m.drop [ptr]

/-- `waker_wake`. -/
def wakerWake (m : Heap) (ptr : Addr) : Option Heap := do
  let (x, queue) ← readWakerData m ptr
  let m ← push m queue x
  m.drop [ptr]

/-! ### The wakers of flags -/

/-- `flag_waker`: `Rc::into_raw`. -/
def flagWaker (flag : Addr) : RawWaker := ⟨flag, .flag⟩

/-- The clone of `flag_waker`: of the two references that there are after `flag.clone()` one is
forgotten, and the other is the new waker. -/
def flagClone (m : Heap) (ptr : Addr) : Option (RawWaker × Heap) := do
  let _ ← readFlag m ptr
  let m ← m.retain ptr
  some (⟨ptr, .flag⟩, m)

def flagWakeByRef (m : Heap) (ptr : Addr) : Option Heap := writeFlag m ptr true

def flagDrop (m : Heap) (ptr : Addr) : Option Heap := do
  let _ ← readFlag m ptr
  m.drop [ptr]

def flagWake (m : Heap) (ptr : Addr) : Option Heap := do
  let m ← writeFlag m ptr true
  m.drop [ptr]

namespace RawWaker

/-- `Waker::clone`. -/
def clone (m : Heap) (w : RawWaker) : Option (RawWaker × Heap) :=
  match w.vtable with
  | .task => wakerClone m w.ptr
  | .flag => flagClone m w.ptr

/-- `Waker::wake`. -/
def wake (m : Heap) (w : RawWaker) : Option Heap :=
  match w.vtable with
  | .task => wakerWake m w.ptr
  | .flag => flagWake m w.ptr

/-- `Waker::wake_by_ref`. -/
def wakeByRef (m : Heap) (w : RawWaker) : Option Heap :=
  match w.vtable with
  | .task => wakerWakeByRef m w.ptr
  | .flag => flagWakeByRef m w.ptr

/-- The drop of a `Waker`. -/
def drop (m : Heap) (w : RawWaker) : Option Heap :=
  match w.vtable with
  | .task => wakerDrop m w.ptr
  | .flag => flagDrop m w.ptr

end RawWaker

/-! ### What safe code does with them -/

/-- The `ready_queue` of an executor, the `handle_woken` of a `block_on`, or a waker. -/
inductive Handle where
  | executor (queue : Addr)
  | flag (cell : Addr)
  | waker (w : RawWaker)
deriving DecidableEq

/-- The reference that the handle owns. -/
def Handle.addr : Handle → Addr
  | .executor queue => queue
  | .flag cell => cell
  | .waker w => w.ptr

/-- The operations of safe code on the thread of the runtime; a number is the place of a handle in
the list of all. -/
inductive Op where
  /-- `Executor::new`. -/
  | newExecutor
  /-- `Runtime::spawn`: a waker for the task `x` is made, and `x` pushed. -/
  | spawn (i : ℕ) (x : TaskId)
  /-- The head of `tick`. -/
  | drain (i : ℕ)
  | isEmpty (i : ℕ)
  /-- The start of `block_on`: the flag and its waker are made. -/
  | blockOn
  | getFlag (i : ℕ)
  /-- `handle_woken.set(false)`. -/
  | clearFlag (i : ℕ)
  | clone (i : ℕ)
  | wake (i : ℕ)
  | wakeByRef (i : ℕ)
  /-- The drop of a waker, of an executor, or of the flag when `block_on` returns. -/
  | drop (i : ℕ)
  /-- `mem::forget`. -/
  | forget (i : ℕ)
deriving DecidableEq

inductive Out where
  | unit
  | ids (xs : List TaskId)
  | bool (b : Bool)
deriving DecidableEq

/-- The memory and the handles. `forgotten` is history: the handles that `mem::forget` was called
with. -/
structure World where
  mem : Heap
  handles : List Handle
  forgotten : List Handle

namespace World

def new : World := ⟨.empty, [], []⟩

def dropHandle (m : Heap) : Handle → Option Heap
  | .executor queue => m.drop [queue]
  | .flag flag => m.drop [flag]
  | .waker w => w.drop m

/-- An operation; `none` if there is no such handle, or if the memory is misused. -/
def step (w : World) : Op → Option (Out × World)
  | .newExecutor =>
    let (queue, m) := w.mem.alloc (.shared 1 (.content (.queue .new)))
    some (.unit, { w with mem := m, handles := w.handles ++ [.executor queue] })
  | .spawn i x =>
    match w.handles[i]? with
    | some (.executor queue) => do
      let m ← w.mem.retain queue
      let (waker, m) := makeWaker m x queue
      let m ← push m queue x
      some (.unit, { w with mem := m, handles := w.handles ++ [.waker waker] })
    | _ => none
  | .drain i =>
    match w.handles[i]? with
    | some (.executor queue) => do
      let q ← readQueue w.mem queue
      let m ← writeQueue w.mem queue q.drain.2
      some (.ids q.drain.1, { w with mem := m })
    | _ => none
  | .isEmpty i =>
    match w.handles[i]? with
    | some (.executor queue) => do
      let q ← readQueue w.mem queue
      some (.bool q.isEmpty, w)
    | _ => none
  | .blockOn => do
    let (flag, m) := w.mem.alloc (.shared 1 (.content (.flag true)))
    let m ← m.retain flag
    let waker := flagWaker flag
    some (.unit, { w with mem := m, handles := w.handles ++ [.flag flag, .waker waker] })
  | .getFlag i =>
    match w.handles[i]? with
    | some (.flag flag) => do
      let b ← readFlag w.mem flag
      some (.bool b, w)
    | _ => none
  | .clearFlag i =>
    match w.handles[i]? with
    | some (.flag flag) => do
      let m ← writeFlag w.mem flag false
      some (.unit, { w with mem := m })
    | _ => none
  | .clone i =>
    match w.handles[i]? with
    | some (.waker waker) => do
      let (waker', m) ← waker.clone w.mem
      some (.unit, { w with mem := m, handles := w.handles ++ [.waker waker'] })
    | _ => none
  | .wake i =>
    match w.handles[i]? with
    | some (.waker waker) => do
      let m ← waker.wake w.mem
      some (.unit, { w with mem := m, handles := w.handles.eraseIdx i })
    | _ => none
  | .wakeByRef i =>
    match w.handles[i]? with
    | some (.waker waker) => do
      let m ← waker.wakeByRef w.mem
      some (.unit, { w with mem := m })
    | _ => none
  | .drop i =>
    match w.handles[i]? with
    | some handle => do
      let m ← dropHandle w.mem handle
      some (.unit, { w with mem := m, handles := w.handles.eraseIdx i })
    | none => none
  | .forget i =>
    match w.handles[i]? with
    | some handle =>
      some (.unit,
        { w with handles := w.handles.eraseIdx i, forgotten := w.forgotten ++ [handle] })
    | none => none

/-- The references that are held outside the memory. -/
def roots (w : World) : Multiset Addr :=
  ((w.handles.map Handle.addr : List Addr) : Multiset Addr) +
    (w.forgotten.map Handle.addr : List Addr)

end World

/-! ### What the wakers are for -/

/-- What a waker wakes: the task `x` of the executor `k`, or the flag `k`. -/
inductive Target where
  | task (k : ℕ) (x : TaskId)
  | flag (k : ℕ)
deriving DecidableEq

/-- A handle without its pointer. -/
inductive Ref where
  | executor (k : ℕ)
  | flag (k : ℕ)
  | waker (t : Target)
deriving DecidableEq

/-- The names of what is shared. -/
inductive Name where
  | queue (k : ℕ)
  | flag (k : ℕ)
deriving DecidableEq

def Target.name : Target → Name
  | .task k _ => .queue k
  | .flag k => .flag k

def Ref.name : Ref → Name
  | .executor k => .queue k
  | .flag k => .flag k
  | .waker t => t.name

/-- The ready queues of all executors and the flags of all calls of `block_on`, with the handles to
them. `queues` and `flags` are how many of them there have been. -/
structure Ideal where
  queue : ℕ → ReadyQueue
  flag : ℕ → Bool
  queues : ℕ
  flags : ℕ
  handles : List Ref
  forgotten : List Ref

namespace Ideal

def new : Ideal := ⟨fun _ => .new, fun _ => false, 0, 0, [], []⟩

def setQueue (s : Ideal) (k : ℕ) (q : ReadyQueue) : Ideal :=
  { s with queue := Function.update s.queue k q }

def setFlag (s : Ideal) (k : ℕ) (b : Bool) : Ideal :=
  { s with flag := Function.update s.flag k b }

def wake (s : Ideal) : Target → Ideal
  | .task k x => s.setQueue k ((s.queue k).push x)
  | .flag k => s.setFlag k true

/-- An operation; `none` if there is no such handle. -/
def step (s : Ideal) : Op → Option (Out × Ideal)
  | .newExecutor =>
    some (.unit,
      { s.setQueue s.queues .new with
        queues := s.queues + 1, handles := s.handles ++ [.executor s.queues] })
  | .spawn i x =>
    match s.handles[i]? with
    | some (.executor k) =>
      let s := s.setQueue k ((s.queue k).push x)
      some (.unit, { s with handles := s.handles ++ [.waker (.task k x)] })
    | _ => none
  | .drain i =>
    match s.handles[i]? with
    | some (.executor k) => some (.ids (s.queue k).drain.1, s.setQueue k (s.queue k).drain.2)
    | _ => none
  | .isEmpty i =>
    match s.handles[i]? with
    | some (.executor k) => some (.bool (s.queue k).isEmpty, s)
    | _ => none
  | .blockOn =>
    some (.unit,
      { s.setFlag s.flags true with
        flags := s.flags + 1, handles := s.handles ++ [.flag s.flags, .waker (.flag s.flags)] })
  | .getFlag i =>
    match s.handles[i]? with
    | some (.flag k) => some (.bool (s.flag k), s)
    | _ => none
  | .clearFlag i =>
    match s.handles[i]? with
    | some (.flag k) => some (.unit, s.setFlag k false)
    | _ => none
  | .clone i =>
    match s.handles[i]? with
    | some (.waker t) => some (.unit, { s with handles := s.handles ++ [.waker t] })
    | _ => none
  | .wake i =>
    match s.handles[i]? with
    | some (.waker t) =>
      let s := s.wake t
      some (.unit, { s with handles := s.handles.eraseIdx i })
    | _ => none
  | .wakeByRef i =>
    match s.handles[i]? with
    | some (.waker t) => some (.unit, s.wake t)
    | _ => none
  | .drop i =>
    match s.handles[i]? with
    | some _ => some (.unit, { s with handles := s.handles.eraseIdx i })
    | none => none
  | .forget i =>
    match s.handles[i]? with
    | some r =>
      some (.unit, { s with handles := s.handles.eraseIdx i, forgotten := s.forgotten ++ [r] })
    | none => none

end Ideal

end MiniAsync.SingleThread.Raw
