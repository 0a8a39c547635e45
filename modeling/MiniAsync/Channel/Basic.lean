/-
  The unbounded channel (`channel.rs`).

  `Inner` is the shared record; `send`, `dropSender`, `poll` and the rest are the
  methods on it, each with the waker that it calls. `World` adds the handles that
  are alive: which `Sender`s, and the `Receiver`. The channel belongs to the
  single-threaded runtime, so the methods run one at a time, and a method can be
  called only through a handle that is alive.

  `Step` lists what an operation can do; the invariants of the channel are proved
  from it.
-/
import MiniAsync.MultiThread.AtomicWaker
import MiniAsync.Trace.System
import Mathlib.Data.Finset.Card

namespace MiniAsync.Channel

open MultiThread (Poll)
open Trace

variable {T W : Type}

/-- `Inner`. -/
structure Inner (T W : Type) where
  queue : List T
  rxWaker : Option W
  senderCount : ℕ
  rxClosed : Bool

namespace Inner

/-- The record that `unbounded` creates. -/
def unbounded : Inner T W := ⟨[], none, 1, false⟩

/-- `Sender::clone`. -/
def clone (c : Inner T W) : Inner T W := { c with senderCount := c.senderCount + 1 }

/-- `Sender::send`: the value that is given back on failure, and the waker that is called. -/
def send (c : Inner T W) (v : T) : Option T × Option W × Inner T W :=
  if c.rxClosed then (some v, none, c)
  else (none, c.rxWaker, { c with queue := c.queue ++ [v], rxWaker := none })

/-- `Sender::drop`, with the waker that it calls; `none` if the counter underflows. -/
def dropSender (c : Inner T W) : Option (Option W × Inner T W) :=
  if c.senderCount = 0 then none
  else
    let c := { c with senderCount := c.senderCount - 1 }
    if c.senderCount = 0 then some (c.rxWaker, { c with rxWaker := none }) else some (none, c)

/-- `Receiver::try_recv`. -/
def tryRecv (c : Inner T W) : Option T × Inner T W :=
  match c.queue with
  | v :: rest => (some v, { c with queue := rest })
  | [] => (none, c)

/-- `Receiver::drop`. -/
def dropReceiver (c : Inner T W) : Inner T W := { c with rxClosed := true }

/-- `Recv::poll`. -/
def poll (c : Inner T W) (waker : W) : Poll (Option T) × Inner T W :=
  match c.queue with
  | v :: rest => (.ready (some v), { c with queue := rest })
  | [] =>
    if c.senderCount = 0 then (.ready none, c)
    else (.pending, { c with rxWaker := some waker })

end Inner

/-! ### The channel and its handles -/

structure World (T W : Type) where
  inner : Inner T W
  /-- The `Sender`s that are alive. -/
  senders : Finset ℕ
  nextSender : ℕ
  receiver : Bool

def World.unbounded : World T W := ⟨Inner.unbounded, {0}, 1, true⟩

inductive Op (T W : Type) where
  | clone (i : ℕ)
  | send (i : ℕ) (v : T)
  | dropSender (i : ℕ)
  | poll (w : W)
  | tryRecv
  | dropReceiver
deriving DecidableEq

inductive Result (T W : Type) where
  | cloned (i : ℕ)
  /-- `Ok(())`, and the waker that was called. -/
  | sent (woken : Option W)
  /-- `Err(value)`. -/
  | refused (v : T)
  | dropped (woken : Option W)
  /-- The subtraction from `sender_count` overflows. -/
  | underflow
  | polled (p : Poll (Option T))
  | tried (v : Option T)
  | closed
deriving DecidableEq

namespace World

def step (s : World T W) : Op T W → Option (Result T W × World T W)
  | .clone i =>
    if i ∈ s.senders then
      some (.cloned s.nextSender, { s with
        inner := s.inner.clone
        senders := insert s.nextSender s.senders
        nextSender := s.nextSender + 1 })
    else none
  | .send i v =>
    if i ∈ s.senders then
      match s.inner.send v with
      | (some v, _, c) => some (.refused v, { s with inner := c })
      | (none, woken, c) => some (.sent woken, { s with inner := c })
    else none
  | .dropSender i =>
    if i ∈ s.senders then
      match s.inner.dropSender with
      | none => some (.underflow, { s with senders := s.senders.erase i })
      | some (woken, c) =>
        some (.dropped woken, { s with inner := c, senders := s.senders.erase i })
    else none
  | .poll w =>
    if s.receiver then
      let (p, c) := s.inner.poll w
      some (.polled p, { s with inner := c })
    else none
  | .tryRecv =>
    if s.receiver then
      let (v, c) := s.inner.tryRecv
      some (.tried v, { s with inner := c })
    else none
  | .dropReceiver =>
    if s.receiver then
      some (.closed, { s with inner := s.inner.dropReceiver, receiver := false })
    else none

abbrev system (T W : Type) : System (World T W) (Op T W) (Result T W) := ofFn step

/-- What an operation can do. -/
inductive Step (s : World T W) : Op T W → Result T W → World T W → Prop
  | clone {i : ℕ} (hi : i ∈ s.senders) :
      Step s (.clone i) (.cloned s.nextSender) { s with
        inner := { s.inner with senderCount := s.inner.senderCount + 1 }
        senders := insert s.nextSender s.senders
        nextSender := s.nextSender + 1 }
  | refused {i : ℕ} {v : T} (hi : i ∈ s.senders) (hclosed : s.inner.rxClosed = true) :
      Step s (.send i v) (.refused v) s
  | sent {i : ℕ} {v : T} (hi : i ∈ s.senders) (hopen : s.inner.rxClosed = false) :
      Step s (.send i v) (.sent s.inner.rxWaker) { s with
        inner := { s.inner with queue := s.inner.queue ++ [v], rxWaker := none } }
  | underflow {i : ℕ} (hi : i ∈ s.senders) (hcount : s.inner.senderCount = 0) :
      Step s (.dropSender i) .underflow { s with senders := s.senders.erase i }
  | droppedLast {i : ℕ} (hi : i ∈ s.senders) (hcount : s.inner.senderCount = 1) :
      Step s (.dropSender i) (.dropped s.inner.rxWaker) { s with
        inner := { s.inner with senderCount := 0, rxWaker := none }
        senders := s.senders.erase i }
  | dropped {i n : ℕ} (hi : i ∈ s.senders) (hcount : s.inner.senderCount = n + 2) :
      Step s (.dropSender i) (.dropped none) { s with
        inner := { s.inner with senderCount := n + 1 }
        senders := s.senders.erase i }
  | received {w : W} {v : T} {rest : List T} (hrx : s.receiver = true)
      (hqueue : s.inner.queue = v :: rest) :
      Step s (.poll w) (.polled (.ready (some v))) { s with
        inner := { s.inner with queue := rest } }
  | ended {w : W} (hrx : s.receiver = true) (hqueue : s.inner.queue = [])
      (hcount : s.inner.senderCount = 0) :
      Step s (.poll w) (.polled (.ready none)) s
  | waits {w : W} (hrx : s.receiver = true) (hqueue : s.inner.queue = [])
      (hcount : s.inner.senderCount ≠ 0) :
      Step s (.poll w) (.polled .pending) { s with
        inner := { s.inner with rxWaker := some w } }
  | tried {v : T} {rest : List T} (hrx : s.receiver = true) (hqueue : s.inner.queue = v :: rest) :
      Step s .tryRecv (.tried (some v)) { s with inner := { s.inner with queue := rest } }
  | triedEmpty (hrx : s.receiver = true) (hqueue : s.inner.queue = []) :
      Step s .tryRecv (.tried none) s
  | closed (hrx : s.receiver = true) :
      Step s .dropReceiver .closed { s with
        inner := { s.inner with rxClosed := true }
        receiver := false }

theorem step_cases {s s' : World T W} {op : Op T W} {res : Result T W}
    (hs : s.step op = some (res, s')) : Step s op res s' := by
  cases op with
  | clone i =>
    simp only [step] at hs
    split_ifs at hs with hi
    cases hs
    exact .clone hi
  | send i v =>
    simp only [step, Inner.send] at hs
    split_ifs at hs with hi hclosed
    · cases hs
      exact .refused hi hclosed
    · cases hs
      exact .sent hi (Bool.not_eq_true _ ▸ hclosed)
  | dropSender i =>
    simp only [step, Inner.dropSender] at hs
    split_ifs at hs with hi hzero hone
    · cases hs
      exact .underflow hi hzero
    · cases hs
      rw [hone]
      exact .droppedLast hi (by omega)
    · cases hs
      obtain ⟨n, hn⟩ : ∃ n, s.inner.senderCount = n + 2 := ⟨s.inner.senderCount - 2, by omega⟩
      rw [show s.inner.senderCount - 1 = n + 1 by omega]
      exact .dropped hi hn
  | poll w =>
    simp only [step] at hs
    split_ifs at hs with hrx
    rw [Inner.poll] at hs
    cases hqueue : s.inner.queue with
    | nil =>
      rw [hqueue] at hs
      dsimp only at hs
      split_ifs at hs with hcount
      · cases hs
        exact .ended hrx hqueue hcount
      · cases hs
        rw [← hqueue]
        exact .waits hrx hqueue hcount
    | cons v rest =>
      rw [hqueue] at hs
      cases hs
      exact .received hrx hqueue
  | tryRecv =>
    simp only [step] at hs
    split_ifs at hs with hrx
    rw [Inner.tryRecv] at hs
    cases hqueue : s.inner.queue with
    | nil =>
      rw [hqueue] at hs
      cases hs
      exact .triedEmpty hrx hqueue
    | cons v rest =>
      rw [hqueue] at hs
      cases hs
      exact .tried hrx hqueue
  | dropReceiver =>
    simp only [step] at hs
    split_ifs at hs with hrx
    cases hs
    exact .closed hrx

end World

end MiniAsync.Channel
