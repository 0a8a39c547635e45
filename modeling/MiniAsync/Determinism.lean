/-
  Results do not depend on the scheduler: if the futures are deterministic, in that
  poll number `n` of the future `i` returns `F i n`, then the handle of a task that
  runs the future `i` yields the value of the first `Ready` among `F i 0`, `F i 1`
  and so on, in every run of either runtime.

  For the multi-threaded runtime this is `firstReady_of_yielded`. For the
  single-threaded one every step keeps `Runtime.Recorded`, that the results of a
  task's polls are those of its future.
-/
import MiniAsync.MultiThread.Inv.Outcome
import MiniAsync.SingleThread.BlockOn

namespace MiniAsync

open MultiThread (PollResult)
open Heap Timer Trace

namespace SingleThread

variable {Q : MaxHeap cmp} {V : Type} {F : TaskId → ℕ → PollResult V}

/-- A poll that the operation makes returns what `F` says for the task and the number of the
poll. -/
def State.Follows (F : TaskId → ℕ → PollResult V) (s : State Q V) (op : Op V) : Prop :=
  ∀ x ∈ s.pc.polled, ∀ res ∈ op.choice.result, res = F x (s.rt.hist x).polls

instance [DecidableEq V] (F : TaskId → ℕ → PollResult V) (s : State Q V) (op : Op V) :
    Decidable (s.Follows F op) :=
  inferInstanceAs (Decidable (∀ x ∈ s.pc.polled, _))

/-- The results of the polls of every task are those of its future. -/
def Runtime.Recorded (F : TaskId → ℕ → PollResult V) (rt : Runtime Q V) : Prop :=
  ∀ x, (rt.hist x).results = (List.range (rt.hist x).polls).map (F x)

theorem Runtime.Recorded.step {rt : Runtime Q V} {pc : Pc} {c : Choice V} {s : State Q V}
    {lost : List TaskId} (h : rt.Recorded F) (hs : rt.Step pc c s) (hok : rt.Ok (pc.rest ++ lost))
    (hF : ∀ x ∈ pc.polled, ∀ res ∈ c.result, res = F x (rt.hist x).polls) :
    s.rt.Recorded F := by
  intro x
  have hx : (rt.hist x).results = (List.range (rt.hist x).polls).map (F x) := h x
  show (s.rt.record x).2 = (List.range (s.rt.record x).1).map (F x)
  rcases hs.record hok x with hrec | ⟨-, hrec⟩ | ⟨res, hres, hpolled, hrec⟩ <;> rw [hrec]
  · exact hx
  · rfl
  · -- the poll that is added has the number of the polls before it
    rw [hF x hpolled res hres, List.range_succ, List.map_append, ← hx]
    rfl

theorem run_recorded {h : List (Op V × Unit)} {s : State Q V}
    (hr : Run (restrict (State.Follows F) (State.system Q V)) (State.new Q V) h s) :
    s.rt.Recorded F := by
  refine hr.invariant (I := fun _ s => s.rt.Recorded F) (fun _ => rfl) ?_
  intro h s op _ s' hr hrec hs
  have hi : Inv s := run_inv (hr.mono fun _ _ _ _ hs => hs.2)
  obtain ⟨-, hstep⟩ := State.of_step hs.2
  obtain ⟨lost, hok, -⟩ := (hi.clock op.time).ok
  have hclock : { s.rt with clock := op.time }.Recorded F := hrec
  exact hclock.step hstep hok hs.1

theorem firstReady_of_endsWith {f : ℕ → PollResult V} {n : ℕ} {v : V}
    (h : EndsWith ((List.range n).map f) v) : FirstReady f v := by
  obtain ⟨before, heq, hno⟩ := h
  obtain rfl : n = before.length + 1 := by simpa using congrArg List.length heq
  rw [List.range_succ, List.map_append] at heq
  obtain ⟨hbefore, hlast⟩ := List.append_inj' heq rfl
  refine ⟨before.length, (List.cons.inj hlast).1, fun k hk => hno (f k) ?_⟩
  exact hbefore ▸ List.mem_map_of_mem (List.mem_range.mpr hk)

/-- The value that a task hands out is that of the first `Ready` of its future. -/
theorem firstReady_of_yielded {h : List (Op V × Unit)} {s : State Q V}
    (hr : Run (restrict (State.Follows F) (State.system Q V)) (State.new Q V) h s) {x : TaskId}
    {v : V} (hv : v ∈ (s.rt.hist x).yielded) : FirstReady (F x) v := by
  have hi : Inv s := run_inv (hr.mono fun _ _ _ _ hs => hs.2)
  have hend := hi.endsWith_of_yielded hv
  rw [run_recorded hr x] at hend
  exact firstReady_of_endsWith hend

end SingleThread

/-! ### Both runtimes -/

section Yields

variable {ι V : Type}

/-- `Yields F i v`: in some run of one of the runtimes, with any number of workers and of other
threads, any order of their steps and any wakes, the handle of a task that runs the future `i`
yields `v`. The run says which task runs which future. -/
inductive Yields (F : ι → ℕ → PollResult V) (i : ι) (v : V) : Prop
  | single (Q : MaxHeap cmp) (future : SingleThread.TaskId → ι)
      {h : List (SingleThread.Op V × Unit)} {s : SingleThread.State Q V} {x : SingleThread.TaskId}
      (hr : Run (restrict (SingleThread.State.Follows fun y => F (future y))
        (SingleThread.State.system Q V)) (SingleThread.State.new Q V) h s)
      (hx : future x = i) (hv : v ∈ (s.rt.hist x).yielded)
  | multi (n m : ℕ) (future : MultiThread.TaskId → ι)
      {c : Interleave.Config (MultiThread.Shared V) (MultiThread.Frame V)} {x : MultiThread.TaskId}
      (hc : (MultiThread.machine V).ReachesVia (MultiThread.Follows fun y => F (future y))
        (MultiThread.start V n m) c)
      (hx : future x = i) (hv : v ∈ (c.shared.hist x).yielded)

theorem Yields.firstReady {F : ι → ℕ → PollResult V} {i : ι} {v : V} (h : Yields F i v) :
    FirstReady (F i) v := by
  cases h with
  | single Q future hr hx hv =>
    subst hx
    exact SingleThread.firstReady_of_yielded hr hv
  | multi n m future hc hx hv =>
    subst hx
    exact MultiThread.firstReady_of_yielded hc hv

/-- **Results do not depend on the scheduler.** For every family of deterministic futures: what the
handle of a task yields in one run of a runtime, and what the handle of a task with the same future
yields in another run of either runtime, is one value, that of the future's first `Ready`. -/
theorem results_scheduler_independent (F : ι → ℕ → PollResult V) (i : ι) {u v : V}
    (hu : Yields F i u) (hv : Yields F i v) :
    u = v ∧ ∃ n, F i n = .ready u ∧ ∀ k < n, ∀ w, F i k ≠ .ready w :=
  ⟨hu.firstReady.unique hv.firstReady, hu.firstReady⟩

/-- A future that is `Pending` once. -/
def pendingOnce (v : ℕ) : ℕ → PollResult ℕ
  | 0 => .pending
  | _ => .ready v

/-- The task with the future `v` in the single-threaded runtime, polled next to a root that awaits
it, and alone in the multi-threaded one, where it wakes itself while it is polled. -/
theorem results_scheduler_independent_pending_once :
    (∃ (h : List (SingleThread.Op ℕ × Unit)) (s : SingleThread.State (sortedList cmp) ℕ),
      Run (restrict (SingleThread.State.Follows fun y => pendingOnce (y + 6))
        (SingleThread.State.system (sortedList cmp) ℕ)) (SingleThread.State.new _ ℕ) h s ∧
      7 ∈ (s.rt.hist 1).yielded) ∧
    (∃ c, (MultiThread.machine ℕ).ReachesVia (MultiThread.Follows fun _ => pendingOnce 7)
      (MultiThread.start ℕ 1 1) c ∧ 7 ∈ (c.shared.hist 1).yielded) ∧
    ∃ n, pendingOnce 7 n = .ready 7 ∧ ∀ k < n, ∀ w, pendingOnce 7 k ≠ .ready w := by
  obtain ⟨h, s, hr, hs⟩ := exists_run_restrict_of_foldlM
    (f := SingleThread.State.step) (s := SingleThread.State.new (sortedList cmp) ℕ)
    (SingleThread.State.Follows fun y => pendingOnce (y + 6))
    ([.spawn, .blockOn, .go, .poll [.wake (.task 1)] .pending [],
      .poll [.wake (.task 2), .pollJoin 1 (.task 2)] .pending [], .go, .go,
      .poll [] (.ready 7) [], .poll [.pollJoin 1 (.task 2)] (.ready 8) []].map
        (SingleThread.Op.mk 0))
    (fun s => 7 ∈ (s.rt.hist 1).yielded) (by decide)
  obtain ⟨c, hc, hm⟩ := Interleave.Machine.exists_reachesVia_of_run (M := MultiThread.machine ℕ)
    [(1, .call .spawn), (1, .go), (1, .go), (1, .go), (1, .go), (1, .go),
      (0, .go), (0, .go), (0, .go), (0, .go), (0, .call (.wake (.task 1))), (0, .go), (0, .go),
      (0, .go), (0, .ret .pending), (0, .go), (0, .go), (0, .go), (0, .go), (0, .go), (0, .go),
      (0, .go), (0, .go), (0, .go), (0, .ret (.ready 7)), (0, .go), (0, .go),
      (1, .call (.pollJoin 1 (.other 0)))]
    (fun c => 7 ∈ (c.shared.hist 1).yielded)
    (by decide : ((MultiThread.machine ℕ).run (MultiThread.Follows fun _ => pendingOnce 7)
      (MultiThread.start ℕ 1 1) _).any _ = true)
  exact ⟨⟨h, s, hr, hs⟩, ⟨c, hc, hm⟩, (results_scheduler_independent pendingOnce 7
    (.single _ (· + 6) hr rfl hs) (.multi 1 1 (fun _ => 7) hc rfl hm)).2⟩

end Yields

end MiniAsync
