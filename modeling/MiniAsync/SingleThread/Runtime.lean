/-
  `Runtime::block_on` of the single-threaded runtime (`runtime.rs`), with
  `Executor::tick` (`executor.rs`).

  A `State` is the runtime and a position in `block_on`. Between two calls user
  code can spawn tasks and do what it likes with the wakers and handles it holds;
  inside `block_on` the runtime is borrowed, so user code runs only in polls. The
  steps are numbered as in the source's comments. A poll that panics unwinds
  `block_on`, and the ids that its tick had drained are gone with it. The runtime
  survives if the caller catches the panic; the task stays, and what a later poll of
  it does is left open as for any other.
-/
import MiniAsync.SingleThread.Executor

namespace MiniAsync.SingleThread

open MultiThread (PollResult)
open Heap Timer Trace

/-- A position in `block_on` of a root task. -/
inductive Pc where
  | idle
  /-- The head of the inner loop: a call of `tick` begins. -/
  | tick (root : TaskId)
  /-- The loop of `tick` over the drained task ids. -/
  | poll (root : TaskId) (rest : List TaskId)
  /-- Step 2. -/
  | checkHandle (root : TaskId)
  /-- Step 3, and the poll in its branch. -/
  | checkEmpty (root : TaskId)
  | pollEmpty (root : TaskId)
  /-- Step 4. -/
  | process (root : TaskId)
  /-- Step 5. -/
  | checkReady (root : TaskId) (timeout : Option ℕ)
  /-- Step 6 up to the call of `Reactor::poll`, and the call. -/
  | checkPending (root : TaskId) (timeout : Option ℕ)
  | reactorPoll (root : TaskId) (timeout : ℕ)
  /-- Step 7. -/
  | processAgain (root : TaskId)
  /-- Behind the loop, and its panic. -/
  | finalPoll (root : TaskId)
  | panicked
  /-- A poll has panicked, and the panic leaves `block_on`. -/
  | unwound
deriving DecidableEq

/-- Where `tick` goes on after a poll. -/
def Pc.afterPoll {V : Type} (r : TaskId) (rest : List TaskId) : PollResult V → Pc
  | .panicked => .unwound
  | _ => .poll r rest

structure State (Q : MaxHeap cmp) (V : Type) where
  rt : Runtime Q V
  pc : Pc

/-- What user code, the kernel and the clock decide at a step. -/
inductive Choice (V : Type) where
  | go
  /-- Between two calls. -/
  | user (as : List Runtime.Act)
  | spawn
  | blockOn
  /-- Another runtime of the process takes a task id. -/
  | skipId
  | poll (as : List Runtime.Act) (res : PollResult V) (drops : List Runtime.Act)
  /-- The wakers that `Reactor::poll` calls. -/
  | reactor (ws : List Waker)
  /-- The caller of `block_on` catches the panic. -/
  | caught
deriving DecidableEq

/-- A step and the time at which it is made. -/
structure Op (V : Type) where
  time : ℕ
  choice : Choice V
deriving DecidableEq

/-- A millisecond, in the unit of the clock. -/
def millis : ℕ := 1000000

namespace Runtime

variable {Q : MaxHeap cmp} {V : Type}

/-- The start of `block_on`: the root is spawned, and the flag set to have its handle polled
once. -/
def blockOn (rt : Runtime Q V) : Runtime Q V :=
  { rt.spawn true with flag := Function.update rt.flag rt.nextId true }

/-- `TimerWheel::process`, with what it returns. -/
def process (rt : Runtime Q V) : Option ℕ × Runtime Q V :=
  let ((_, woken, next), timers) := rt.timers.process rt.clock
  (next, { rt with timers := timers }.wakeAll woken)

/-- A poll of the root's handle; `otherwise` is where `block_on` goes on if it is `Pending`. -/
def pollRoot (rt : Runtime Q V) (r : TaskId) (otherwise : Pc) : State Q V :=
  match rt.pollHandle r (.flag r) with
  | (some v, rt) => ⟨rt.modifyHist r fun h => { h with returned := some v }, .idle⟩
  | (none, rt) => ⟨rt, otherwise⟩

def step (rt : Runtime Q V) : Pc → Choice V → Option (State Q V)
  | .idle, .user as =>
    match rt.acts as with
    | none => none
    | some rt => some ⟨rt, .idle⟩
  | .idle, .spawn => some ⟨rt.spawn false, .idle⟩
  | .idle, .blockOn => some ⟨rt.blockOn, .tick rt.nextId⟩
  | .idle, .skipId => some ⟨{ rt with nextId := rt.nextId + 1 }, .idle⟩
  | .tick r, .go =>
    let (ready, queue) := rt.ready.drain
    some ⟨{ rt with ready := queue }, if ready = [] then .checkHandle r else .poll r ready⟩
  | .poll r [], .go => some ⟨rt, .tick r⟩
  | .poll r (x :: rest), .go => if x ∈ rt.tasks then none else some ⟨rt, .poll r rest⟩
  | .poll r (x :: rest), .poll as res drops =>
    if x ∈ rt.tasks then
      match rt.pollTask x as res drops with
      | none => none
      | some rt => some ⟨rt, .afterPoll r rest res⟩
    else none
  | .checkHandle r, .go =>
    if rt.flag r then
      some ({ rt with flag := Function.update rt.flag r false }.pollRoot r (.checkEmpty r))
    else some ⟨rt, .checkEmpty r⟩
  | .checkEmpty r, .go => some ⟨rt, if rt.tasks = ∅ then .pollEmpty r else .process r⟩
  | .pollEmpty r, .go => some (rt.pollRoot r (.process r))
  | .process r, .go => some ⟨rt.process.2, .checkReady r rt.process.1⟩
  | .checkReady r timeout, .go =>
    some ⟨rt, if rt.ready.isEmpty then .checkPending r timeout else .tick r⟩
  | .checkPending r timeout, .go =>
    some ⟨rt,
      if rt.timers.hasPending then .reactorPoll r (timeout.getD millis)
      else if rt.tasks = ∅ then .finalPoll r
      else .reactorPoll r (5 * millis)⟩
  | .reactorPoll r _, .reactor ws =>
    if ∀ w ∈ ws, rt.Holds w then some ⟨rt.wakeAll ws, .processAgain r⟩ else none
  | .processAgain r, .go => some ⟨rt.process.2, .tick r⟩
  | .finalPoll r, .go => some (rt.pollRoot r .panicked)
  -- nothing of the runtime is poisoned or repaired
  | .unwound, .caught => some ⟨rt, .idle⟩
  | _, _ => none

end Runtime

namespace State

variable {Q : MaxHeap cmp} {V : Type}

def new (Q : MaxHeap cmp) (V : Type) : State Q V := ⟨Runtime.new Q V, .idle⟩

/-- A step; the clock does not go back. -/
def step (s : State Q V) (op : Op V) : Option (State Q V) :=
  if s.rt.clock ≤ op.time then { s.rt with clock := op.time }.step s.pc op.choice else none

abbrev system (Q : MaxHeap cmp) (V : Type) : System (State Q V) (Op V) Unit := ofStep step

end State

end MiniAsync.SingleThread
