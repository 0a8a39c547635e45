/-
  The per-timer state of the multi-threaded runtime (`multi_thread/timer.rs`):
  the `completed` flag and the `AtomicWaker`, a cell for at most one waker that
  is guarded by a three-valued atomic.

  `register`, `wake` and `Sleep::poll` are given one atomic access at a time:
  each function takes the position reached in the Rust body and returns the
  next one. The argument `spurious` is the freedom of `compare_exchange_weak`
  to fail although the comparison holds.
-/
import Mathlib.Tactic.Common

namespace MiniAsync.MultiThread

/-- The outcome of polling a future. -/
inductive Poll (α : Type*) where
  | ready (a : α)
  | pending
deriving DecidableEq

/-- `WAKER_EMPTY`, `WAKER_STORED` and `WAKER_WAKING`. -/
inductive WakerState where
  | empty
  | stored
  | waking
deriving DecidableEq

/-- `AtomicWaker`: the atomic `state` and the cell it guards. -/
structure AtomicWaker (W : Type) where
  state : WakerState
  waker : Option W

namespace AtomicWaker

variable {W : Type}

def new : AtomicWaker W := ⟨.empty, none⟩

/-- Positions in `register`: the two compare-and-swaps of the claiming loop, then the write to
the claimed cell and the store that releases it. -/
inductive RegisterPc where
  | casEmpty
  | casStored
  | write
  | store
deriving DecidableEq

/-- One access of `register(waker)`; `none` is the return. -/
def register (cell : AtomicWaker W) (waker : W) (spurious : Bool) :
    RegisterPc → AtomicWaker W × Option RegisterPc
  | .casEmpty =>
    match cell.state with
    | .empty =>
      if spurious then (cell, some .casEmpty)
      else ({ cell with state := .waking }, some .write)
    | .stored => (cell, some .casStored)
    | .waking => (cell, some .casEmpty)
  | .casStored =>
    if cell.state = .stored ∧ spurious = false then ({ cell with state := .waking }, some .write)
    else (cell, some .casEmpty)
  | .write => ({ cell with waker := some waker }, some .store)
  | .store => ({ cell with state := .stored }, none)

/-- Positions in `wake`: the compare-and-swap of the claiming loop, the `take` of the cell and
the store that releases it. -/
inductive WakePc (W : Type) where
  | cas
  | take
  | store (w : Option W)
deriving DecidableEq

/-- One access of `wake()`. The result `Sum.inr w` leaves the loop: with `some w` the call
`w.wake()` is still to be made, with `none` there is nothing to wake. -/
def wake (cell : AtomicWaker W) (spurious : Bool) :
    WakePc W → AtomicWaker W × (WakePc W ⊕ Option W)
  | .cas =>
    match cell.state with
    | .stored =>
      if spurious then (cell, .inl .cas)
      else ({ cell with state := .waking }, .inl .take)
    | .empty => (cell, .inr none)
    | .waking => (cell, .inl .cas)
  | .take => ({ cell with waker := none }, .inl (.store cell.waker))
  | .store w => ({ cell with state := .empty }, .inr w)

/-- The waker that `wake` has taken out of the cell. -/
def WakePc.held : WakePc W → Option W
  | .store w => w
  | _ => none

/-- `register` leaves the cell's waker or puts its own in its place. -/
theorem register_waker (cell : AtomicWaker W) (w : W) (spurious : Bool) (pc : RegisterPc) :
    (cell.register w spurious pc).1.waker = cell.waker
      ∨ (cell.register w spurious pc).1.waker = some w := by
  cases pc with
  | casEmpty =>
    refine Or.inl ?_
    cases hs : cell.state <;> cases spurious <;> simp [register, hs]
  | casStored =>
    refine Or.inl ?_
    simp only [register]
    split_ifs <;> rfl
  | write => exact Or.inr rfl
  | store => exact Or.inl rfl

/-- `wake` never puts a waker into the cell. -/
theorem wake_waker (cell : AtomicWaker W) (spurious : Bool) (pc : WakePc W) :
    (cell.wake spurious pc).1.waker = cell.waker ∨ (cell.wake spurious pc).1.waker = none := by
  cases pc with
  | cas =>
    refine Or.inl ?_
    cases hs : cell.state <;> cases spurious <;> simp [wake, hs]
  | take => exact Or.inr rfl
  | store w => exact Or.inl rfl

/-- The waker that `wake` holds, and in the end returns, comes out of the cell. -/
theorem wake_held (cell : AtomicWaker W) (spurious : Bool) (pc : WakePc W) {w : W}
    (h : (cell.wake spurious pc).2.elim WakePc.held id = some w) :
    pc.held = some w ∨ cell.waker = some w := by
  cases pc with
  | cas =>
    cases hs : cell.state <;> cases spurious <;> simp [wake, hs, WakePc.held] at h
  | take => exact Or.inr h
  | store w => exact Or.inl h

end AtomicWaker

/-- `TimerState`. -/
structure TimerState (W : Type) where
  completed : Bool
  waker : AtomicWaker W

namespace TimerState

variable {W : Type}

def new : TimerState W := ⟨false, AtomicWaker.new⟩

/-- Positions in `Sleep::poll`: the first load of `completed`, the registration, and the second
load that closes the window between the first load and the registration. -/
inductive PollPc where
  | load
  | register (pc : AtomicWaker.RegisterPc)
  | reload
deriving DecidableEq

/-- One access of `Sleep::poll` with the waker of its context. -/
def poll (st : TimerState W) (waker : W) (spurious : Bool) :
    PollPc → TimerState W × (PollPc ⊕ Poll Unit)
  | .load => if st.completed then (st, .inr (.ready ())) else (st, .inl (.register .casEmpty))
  | .register pc =>
    match st.waker.register waker spurious pc with
    | (cell, some pc') => ({ st with waker := cell }, .inl (.register pc'))
    | (cell, none) => ({ st with waker := cell }, .inl .reload)
  | .reload => if st.completed then (st, .inr (.ready ())) else (st, .inr .pending)

theorem poll_waker (st : TimerState W) (w : W) (spurious : Bool) (pc : PollPc) :
    (st.poll w spurious pc).1.waker.waker = st.waker.waker
      ∨ (st.poll w spurious pc).1.waker.waker = some w := by
  cases pc with
  | load =>
    simp only [poll]
    split_ifs <;> exact Or.inl rfl
  | register pc =>
    have hreg := st.waker.register_waker w spurious pc
    simp only [poll]
    split <;> simpa [*] using hreg
  | reload =>
    simp only [poll]
    split_ifs <;> exact Or.inl rfl

/-- A poll does not touch the flag. -/
theorem poll_completed (st : TimerState W) (w : W) (spurious : Bool) (pc : PollPc) :
    (st.poll w spurious pc).1.completed = st.completed := by
  cases pc with
  | load =>
    simp only [poll]
    split_ifs <;> rfl
  | register pc =>
    simp only [poll]
    split <;> rfl
  | reload =>
    simp only [poll]
    split_ifs <;> rfl

/-- A poll does not come back to its first load. -/
theorem poll_ne_load (st : TimerState W) (w : W) (spurious : Bool) (pc : PollPc) :
    (st.poll w spurious pc).2 ≠ .inl .load := by
  cases pc with
  | load =>
    simp only [poll]
    split_ifs <;> simp
  | register pc =>
    simp only [poll]
    split <;> simp
  | reload =>
    simp only [poll]
    split_ifs <;> simp

end TimerState

end MiniAsync.MultiThread
