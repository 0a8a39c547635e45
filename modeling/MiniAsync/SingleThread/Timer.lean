/-
  The timer wheel of the single-threaded runtime (`timer.rs`).

  A `Sleep` and the wheel share a `TimerState`; here the states are kept by the
  number of their timer. `process` is the loop of the source: its bound is one more
  than the number of entries, which it cannot exceed (`processLoop_eq` holds for
  every larger bound).

  The wheel is a refinement of the abstract timers (`Sim.step`), and so every
  history of calls meets their specification (`wheel_meets_spec`).
-/
import MiniAsync.Timer.Firing

namespace MiniAsync.SingleThread

open MultiThread (Poll TimerEntry)
open Heap Timer Trace

variable {W : Type} {Q : MaxHeap cmp}

/-- `TimerState`. -/
structure TimerState (W : Type) where
  completed : Bool
  waker : Option W

/-- `TimerWheel`, with the states of its timers. -/
structure TimerWheel (Q : MaxHeap cmp) (W : Type) where
  heap : Q.Carrier
  state : ℕ → TimerState W
  count : ℕ

namespace TimerWheel

def new : TimerWheel Q W := ⟨Q.empty, fun _ => ⟨false, none⟩, 0⟩

/-- `TimerWheel::register`. -/
def register (t : TimerWheel Q W) (deadline : ℕ) : ℕ × TimerWheel Q W :=
  (t.count, {
    heap := Q.push t.heap ⟨deadline, t.count⟩
    state := Function.update t.state t.count ⟨false, none⟩
    count := t.count + 1 })

/-- `Sleep::poll` of the timer `k`. -/
def poll (t : TimerWheel Q W) (k : ℕ) (waker : W) : Poll Unit × TimerWheel Q W :=
  if (t.state k).completed then (.ready (), t)
  else (.pending,
    { t with state := Function.update t.state k { t.state k with waker := some waker } })

/-- The entry's timer is completed and its waker taken out to be called. -/
def fire (t : TimerWheel Q W) (entry : TimerEntry) : Option W × TimerWheel Q W :=
  ((t.state entry.id).waker,
    { t with state := Function.update t.state entry.id ⟨true, none⟩ })

/-- The loop of `process`, for at most `n` rounds: the timers that it fires, the wakers that it
calls and what it returns. -/
def processLoop (now : ℕ) :
    ℕ → TimerWheel Q W → (List ℕ × List W × Option ℕ) × TimerWheel Q W
  | 0, t => (([], [], none), t)
  | n + 1, t =>
    match Q.peek t.heap with
    | none => (([], [], none), t)
    | some entry =>
      if entry.deadline ≤ now then
        match Q.pop t.heap with
        | none => (([], [], none), t)
        | some (entry, heap) =>
          let (waker, t) := fire { t with heap := heap } entry
          let ((fired, woken, next), t) := processLoop now n t
          ((entry.id :: fired, waker.toList ++ woken, next), t)
      else (([], [], some (entry.deadline - now)), t)

/-- `TimerWheel::process`. -/
def process (t : TimerWheel Q W) (now : ℕ) : (List ℕ × List W × Option ℕ) × TimerWheel Q W :=
  processLoop now (Q.len t.heap + 1) t

/-- `TimerWheel::has_pending`. -/
def hasPending (t : TimerWheel Q W) : Bool := !Q.isEmpty t.heap

def step (t : TimerWheel Q W) : Op W → Option (Result W × TimerWheel Q W)
  | .register deadline =>
    let (k, t) := t.register deadline
    some (.registered k, t)
  | .poll k w =>
    if k < t.count then
      let (p, t) := t.poll k w
      some (.polled p, t)
    else none
  | .process now =>
    let ((fired, woken, next), t) := t.process now
    some (.processed fired woken next, t)
  | .hasPending => some (.pending t.hasPending, t)

abbrev system (Q : MaxHeap cmp) (W : Type) : System (TimerWheel Q W) (Op W) (Result W) := ofFn step

/-! ### The loop pops what is due, then fires it -/

/-- Fires the entries one after the other. -/
def fireAll (t : TimerWheel Q W) : List TimerEntry → List W × TimerWheel Q W
  | [] => ([], t)
  | e :: es => ((t.fire e).1.toList ++ ((t.fire e).2.fireAll es).1, ((t.fire e).2.fireAll es).2)

variable {t : TimerWheel Q W} {now n : ℕ}

theorem processLoop_eq (hn : Q.len t.heap < n) :
    processLoop now n t =
      (((Q.drain (due now) n t.heap).1.map TimerEntry.id,
        (fireAll { t with heap := (Q.drain (due now) n t.heap).2 }
          (Q.drain (due now) n t.heap).1).1,
        (Q.peek (Q.drain (due now) n t.heap).2).map (·.deadline - now)),
        (fireAll { t with heap := (Q.drain (due now) n t.heap).2 }
          (Q.drain (due now) n t.heap).1).2) := by
  induction n generalizing t with
  | zero => exact absurd hn (Nat.not_lt_zero _)
  | succ n ih =>
    rw [processLoop, MaxHeap.drain]
    cases hpeek : Q.peek t.heap with
    | none => simp only [fireAll, hpeek, List.map_nil, Option.map_none]
    | some e =>
      by_cases hdue : e.deadline ≤ now
      · obtain ⟨heap, hpop, helems⟩ := Q.pop_peek t.heap e hpeek
        have hlen : Q.len heap < n := by
          rw [Q.len_of_elems_cons helems] at hn
          exact Nat.lt_of_succ_lt_succ hn
        simp only [hdue, if_true, hpop, due, decide_true]
        rw [ih (t := (fire { t with heap := heap } e).2) hlen]
        rfl
      · simp only [hdue, if_false, due, decide_false, Bool.false_eq_true, fireAll, hpeek,
          List.map_nil, Option.map_some]

theorem fireAll_heap (t : TimerWheel Q W) (es : List TimerEntry) :
    (t.fireAll es).2.heap = t.heap := by
  induction es generalizing t with
  | nil => rfl
  | cons e es ih => exact ih (t.fire e).2

theorem fireAll_count (t : TimerWheel Q W) (es : List TimerEntry) :
    (t.fireAll es).2.count = t.count := by
  induction es generalizing t with
  | nil => rfl
  | cons e es ih => exact ih (t.fire e).2

theorem fireAll_state (t : TimerWheel Q W) (es : List TimerEntry) (k : ℕ) :
    (t.fireAll es).2.state k = if k ∈ es.map TimerEntry.id then ⟨true, none⟩ else t.state k := by
  induction es generalizing t with
  | nil => rfl
  | cons e es ih =>
    rw [fireAll, ih, List.map_cons]
    rcases eq_or_ne k e.id with rfl | hne
    · simp [fire]
    · simp [fire, hne]

/-- Every entry calls the waker that its timer had at the start. -/
theorem fireAll_woken {es : List TimerEntry} (hes : (es.map TimerEntry.id).Nodup)
    (t : TimerWheel Q W) :
    (t.fireAll es).1 = (es.map TimerEntry.id).filterMap fun k => (t.state k).waker := by
  induction es generalizing t with
  | nil => rfl
  | cons e es ih =>
    rw [List.map_cons, List.nodup_cons] at hes
    -- firing `e` leaves the wakers of the others
    have hrest : ∀ k ∈ es.map TimerEntry.id, ((t.fire e).2.state k).waker = (t.state k).waker := by
      intro k hk
      have hne : k ≠ e.id := fun heq => hes.1 (heq ▸ hk)
      exact congrArg TimerState.waker (Function.update_of_ne hne _ _)
    rw [fireAll, ih hes.2, List.filterMap_congr hrest, List.map_cons, List.filterMap_cons, fire]
    cases (t.state e.id).waker <;> rfl

/-- What a `process` call leaves in the heap. -/
theorem process_heap (t : TimerWheel Q W) (now : ℕ) :
    (t.process now).2.heap = (Q.drain (due now) (Q.len t.heap + 1) t.heap).2 := by
  rw [process, processLoop_eq (Nat.lt_succ_self _), fireAll_heap]

/-- What a `process` call returns is the time to the top of what it leaves. -/
theorem process_next (t : TimerWheel Q W) (now : ℕ) :
    (t.process now).1.2.2 = (Q.peek (t.process now).2.heap).map (·.deadline - now) := by
  rw [process_heap, process, processLoop_eq (Nat.lt_succ_self _)]

theorem lt_deadline_of_mem_process {e : TimerEntry} (he : e ∈ Q.elems (t.process now).2.heap) :
    now < e.deadline := by
  rw [process_heap] at he
  simpa [due] using due_of_mem_drain Q (Nat.le_succ _) e he

/-- What is due is fired. -/
theorem mem_process_of_due {e : TimerEntry} (he : e ∈ Q.elems t.heap) (hd : e.deadline ≤ now) :
    e.id ∈ (t.process now).1.1 ∧ ((t.process now).2.state e.id).completed = true := by
  have hmem := List.mem_map_of_mem (f := TimerEntry.id) (mem_drain_of_due Q (Nat.le_succ _) he hd)
  rw [process, processLoop_eq (Nat.lt_succ_self _), fireAll_state, if_pos hmem]
  exact ⟨hmem, rfl⟩

/-! ### The wheel refines the abstract timers -/

/-- The wheel is in a state that stands for the abstract one. -/
structure Sim (t : TimerWheel Q W) (a : Timers W) : Prop where
  count : t.count = a.deadlines.length
  state : ∀ k, t.state k = ⟨a.fired k, a.waker k⟩
  holds : Holds (Q.elems t.heap) a

namespace Sim

variable {a : Timers W}

theorem new : Sim (new : TimerWheel Q W) Timers.init :=
  ⟨rfl, fun _ => rfl, by rw [TimerWheel.new, Q.elems_empty]; exact Holds.init⟩

theorem register (hsim : Sim t a) (d : ℕ) : Sim (t.register d).2 (a.add d) := by
  refine ⟨?_, fun k => ?_, ?_⟩
  · exact (congrArg Nat.succ hsim.count).trans (Timers.length_add a d).symm
  · rcases eq_or_ne k t.count with rfl | hne
    · obtain ⟨hf, hw⟩ := a.fresh t.count (Nat.le_of_eq hsim.count.symm)
      exact (Function.update_self _ _ _).trans (congrArg₂ TimerState.mk hf hw).symm
    · exact (Function.update_of_ne hne _ _).trans (hsim.state k)
  · have hheap := hsim.holds.add d
    rw [← hsim.count, ← Q.elems_push] at hheap
    exact hheap

/-- What `process` does to the wheel, in the words of the abstract timers. -/
theorem process (hsim : Sim t a) (now : ℕ) :
    a.Processed now (t.process now).1.1 (t.process now).1.2.1 (t.process now).1.2.2 ∧
      Sim (t.process now).2 (a.fire now) := by
  rw [TimerWheel.process, processLoop_eq (Nat.lt_succ_self _)]
  have hp : a.Processed now _ _ _ := hsim.holds.processed Q (Nat.le_succ _)
  have hholds : Holds _ (a.fire now) := hsim.holds.drain Q (Nat.le_succ _)
  generalize Q.drain (due now) (Q.len t.heap + 1) t.heap = d at hp hholds ⊢
  refine ⟨?_, ?_, fun k => ?_, ?_⟩
  · rw [fireAll_woken hp.nodup]
    have hwaker : (fun k => (t.state k).waker) = a.waker := by
      funext k
      rw [hsim.state k]
    rw [hwaker]
    exact hp
  · rw [fireAll_count]
    exact hsim.count
  · rw [fireAll_state]
    by_cases hdue : a.Due now k
    · rw [if_pos ((hp.mem k).mpr hdue)]
      simp [Timers.fire, hdue]
    · rw [if_neg (mt (hp.mem k).mp hdue), hsim.state k]
      simp [Timers.fire, hdue]
  · rw [fireAll_heap]
    exact hholds

theorem hasPending (hsim : Sim t a) : t.hasPending = true ↔ ∃ k, a.Waiting k := by
  rw [TimerWheel.hasPending, Bool.not_eq_true', ← Bool.not_eq_true, Q.isEmpty_iff,
    hsim.holds.eq_zero_iff]
  simp only [not_forall, not_not]

/-- **Every operation of the wheel is one of the abstract timers.** -/
theorem step {op : Op W} {res : Result W} {t' : TimerWheel Q W} (hsim : Sim t a)
    (hs : t.step op = some (res, t')) : ∃ a', Timers.Step a op res a' ∧ Sim t' a' := by
  cases op with
  | register d =>
    cases hs
    exact ⟨a.add d, hsim.count ▸ .register d, hsim.register d⟩
  | poll k w =>
    simp only [TimerWheel.step] at hs
    split_ifs at hs with hk
    rw [hsim.count] at hk
    have hcompleted : (t.state k).completed = a.fired k :=
      congrArg TimerState.completed (hsim.state k)
    cases hf : a.fired k with
    | true =>
      rw [TimerWheel.poll, hcompleted, hf] at hs
      cases hs
      exact ⟨a, .ready hk hf, hsim⟩
    | false =>
      rw [TimerWheel.poll, hcompleted, hf] at hs
      cases hs
      refine ⟨a.setWaker k w hk, .waits hk hf, hsim.count, fun j => ?_, hsim.holds.setWaker w hk⟩
      rcases eq_or_ne j k with rfl | hne
      · rw [Timers.setWaker_waker_self]
        exact (Function.update_self _ _ _).trans (congrArg (TimerState.mk · (some w)) hcompleted)
      · rw [Timers.setWaker_waker_of_ne _ _ _ hne]
        exact (Function.update_of_ne hne _ _).trans (hsim.state j)
  | process now =>
    cases hs
    obtain ⟨hp, hsim'⟩ := hsim.process now
    exact ⟨a.fire now, .process hp, hsim'⟩
  | hasPending =>
    cases hs
    exact ⟨a, .hasPending hsim.hasPending, hsim⟩

end Sim

/-! ### Whole histories -/

section Runs

variable {h : History W}

theorem exists_run_timers (hr : Run (system Q W) new h t) :
    ∃ a, Run Timers.Step Timers.init h a ∧ Sim t a :=
  hr.simulate Sim.new fun _ _ _ _ _ hsim hs => hsim.step hs

/-- **The wheel meets its specification.** After any calls on a wheel, with any correct heap:
`process` at the clock reading `now` fires exactly the timers that are not fired yet and whose
deadline has passed, in the order of their deadlines, keeps the entries of exactly the others,
returns the time to the first of them, or `None` if there are none, so that `has_pending` tells
which of the two; and each timer that it fires calls the waker of the latest `Pending` poll, and no
other is called. A `Sleep::poll` returns `Ready` exactly if some `process` since the registration
has read a clock at or after the deadline. -/
theorem wheel_meets_spec (hr : Run (system Q W) new h t) :
    (∀ now res t', t.step (.process now) = some (res, t') →
      ∃ fired woken next, res = .processed fired woken next ∧
        (fired.Nodup ∧ ∀ k, k ∈ fired ↔ Unfired h k ∧ deadlineOf h k ≤ now) ∧
        (fired.Pairwise fun j k => deadlineOf h j ≤ deadlineOf h k) ∧
        ((Q.elems t'.heap).Nodup ∧ ∀ e, e ∈ Q.elems t'.heap ↔
          (Unfired h e.id ∧ now < deadlineOf h e.id) ∧ e.deadline = deadlineOf h e.id) ∧
        (next = none ↔ ∀ k, ¬ (Unfired h k ∧ now < deadlineOf h k)) ∧
        (∀ d, next = some d → 0 < d ∧
          (∃ k, (Unfired h k ∧ now < deadlineOf h k) ∧ deadlineOf h k = now + d) ∧
          ∀ k, Unfired h k ∧ now < deadlineOf h k → now + d ≤ deadlineOf h k) ∧
        t'.hasPending = next.isSome ∧
        woken = fired.filterMap (lastPending h)) ∧
    ∀ k w p t', t.step (.poll k w) = some (.polled p, t') →
      (p = .ready () ↔ ∃ h₁ d h₂, h = h₁ ++ (.register d, .registered k) :: h₂ ∧
        ∃ e ∈ h₂, ∃ now, e.1 = .process now ∧ d ≤ now) := by
  obtain ⟨a, hra, hsim⟩ := exists_run_timers hr
  have htold := Timers.run_told hra
  refine ⟨fun now res t' hs => ?_, fun k w p t' hs => ?_⟩
  · obtain ⟨a', hstep, hsim'⟩ := hsim.step hs
    cases hstep with
    | @process _ fired woken next hp =>
      have hleft : ∀ k, a.Left now k ↔ Unfired h k ∧ now < deadlineOf h k := fun k => by
        rw [Timers.Left, htold.waiting_iff, htold.deadline_eq]
      have hnone := hp.next_none
      have hsome := hp.next_some
      simp only [hleft, htold.deadline_eq] at hnone hsome
      refine ⟨fired, woken, next, rfl, ⟨hp.nodup, fun k => ?_⟩, ?_,
        ⟨hsim'.holds.nodup, fun e => ?_⟩, hnone, hsome, ?_, ?_⟩
      · rw [hp.mem, Timers.Due, htold.waiting_iff, htold.deadline_eq]
      · have hsorted := hp.sorted
        simp only [htold.deadline_eq] at hsorted
        exact hsorted
      · have hdeadline : (a.fire now).deadline e.id = deadlineOf h e.id := htold.deadline_eq e.id
        rw [hsim'.holds.mem, Timers.waiting_fire, hleft, hdeadline]
      · rw [Bool.eq_iff_iff, hsim'.hasPending, Option.isSome_iff_ne_none, Ne, hnone]
        simp only [Timers.waiting_fire, hleft, not_forall, not_not]
      · rw [hp.woken_eq]
        refine List.filterMap_congr fun k hk => ?_
        exact htold.waker k ((hp.mem k).mp hk).1.2
  · obtain ⟨a', hstep, -⟩ := hsim.step hs
    cases hstep with
    | ready hk hfired => exact iff_of_true rfl ((Timers.fired_iff hra hk).mp hfired)
    | waits hk hfired =>
      refine iff_of_false (by simp) fun hex => ?_
      rw [← Timers.fired_iff hra hk, hfired] at hex
      cases hex

/-- Two timers of one deadline and a later one; the earlier two fire together and call the wakers of
their latest polls. -/
theorem wheel_meets_spec_three_timers :
    ∃ (h : History ℕ) (t : TimerWheel (sortedList cmp) ℕ),
      Run (system (sortedList cmp) ℕ) new h t ∧
      h.filterMap registration = [30, 10, 10] ∧ Unfired h 1 ∧
      ∃ res t' fired woken next, t.step (.process 20) = some (res, t') ∧
        res = .processed fired woken next ∧ 1 ∈ fired ∧
        woken = fired.filterMap (lastPending h) := by
  obtain ⟨h, t, hr, hreg, hfired⟩ := exists_run_of_exec
    (f := step) (s := (new : TimerWheel (sortedList cmp) ℕ))
    [.register 30, .poll 0 7, .register 10, .register 10, .poll 1 8, .process 5, .poll 1 9,
      .poll 2 4]
    (fun p => p.1.filterMap registration = [30, 10, 10] ∧ 1 ∉ p.1.flatMap firings) (by decide)
  dsimp only at hreg hfired
  have hunfired : Unfired h 1 := ⟨by rw [hreg]; decide, hfired⟩
  obtain ⟨fired, woken, next, hres, hmem, -, -, -, -, -, hwoken⟩ :=
    (wheel_meets_spec hr).1 20 _ _ rfl
  refine ⟨h, t, hr, hreg, hunfired, _, _, fired, woken, next, rfl, hres, ?_, hwoken⟩
  refine (hmem.2 1).mpr ⟨hunfired, ?_⟩
  rw [deadlineOf, hreg]
  decide

end Runs

end TimerWheel

end MiniAsync.SingleThread
