/-
  Whether `block_on` of the single-threaded runtime gets past its inner loop.

  A task that wakes itself on every poll keeps `while self.executor.tick() {}` going
  for ever: the root's result is not looked at and no timer fires
  (`busy_task_starves`). If no poll panics, and the polls stop to wake tasks where
  nothing comes from outside any more, then the inner loop is left, a finished root
  makes `block_on` return, and a timer whose deadline has passed fires
  (`block_on_progress`).

  The measure of the inner loop is the number of tasks and then the work that is
  queued: an id in the ready queue counts three, one in the list of the tick one
  (`Inv.decreases`).
-/
import MiniAsync.SingleThread.BlockOn
import MiniAsync.Trace.Infinite
import Mathlib.Data.Finset.Card

namespace MiniAsync.SingleThread

open MultiThread (PollResult TimerEntry)
open Heap Timer Trace

variable {Q : MaxHeap cmp} {V : Type}

/-- The root of the running `block_on`. -/
def Pc.root : Pc → Option TaskId
  | .idle => none
  | .tick r => some r
  | .poll r _ => some r
  | .checkHandle r => some r
  | .checkEmpty r => some r
  | .pollEmpty r => some r
  | .process r => some r
  | .checkReady r _ => some r
  | .checkPending r _ => some r
  | .reactorPoll r _ => some r
  | .processAgain r => some r
  | .finalPoll r => some r
  | .panicked => none
  | .unwound => none

/-- `block_on` of the root `r` is in its inner loop. -/
def Pc.InTick (r : TaskId) : Pc → Prop
  | .tick r' => r' = r
  | .poll r' _ => r' = r
  | _ => False

/-- Where `block_on` goes on outside of the inner loop, its dead branches left out. -/
def Pc.Next (pc' : Pc) : Pc → Prop
  | .checkHandle r => pc' = .idle ∨ pc' = .checkEmpty r
  | .checkEmpty r => pc' = .process r
  | .checkReady r timeout => pc' = .tick r ∨ pc' = .checkPending r timeout
  | .checkPending r _ => ∃ timeout, pc' = .reactorPoll r timeout
  | .reactorPoll r _ => pc' = .processAgain r
  | _ => True

/-- `block_on` of the root `r` calls `TimerWheel::process`, or has returned. -/
def Pc.AtProcess (r : TaskId) (pc : Pc) : Prop :=
  pc = .process r ∨ pc = .processAgain r ∨ pc = .idle

/-- No poll calls a waker, and no drop. -/
def Choice.Quiet : Choice V → Prop
  | .poll as _ drops => ∀ w, .wake w ∉ as ∧ .wake w ∉ drops
  | _ => True

/-- Nothing comes from outside: no event, and no call of the user's. -/
def Choice.Inside : Choice V → Prop
  | .go | .poll .. => True
  | _ => False

/-- **The tasks come to rest by themselves.** If from some time on nothing comes from outside, then
from some time on no poll calls a waker. -/
def Settles (o : ℕ → Op V) : Prop :=
  ∀ n, (∀ m, n ≤ m → (o m).choice.Inside) → ∃ k, n ≤ k ∧ ∀ m, k ≤ m → (o m).choice.Quiet

namespace Runtime

variable {rt rt' : Runtime Q V} {rest : List TaskId} {x r : TaskId} {pc : Pc} {c : Choice V}
  {s : State Q V} {e : TimerEntry} {v : V}

/-! ### Quiet polls -/

theorem acts_ready {as : List Act} (hq : ∀ w, .wake w ∉ as) (ha : rt.acts as = some rt') :
    rt'.ready = rt.ready := by
  refine acts_rule (P := fun rt' => rt'.ready = rt.ready) rfl (fun rt₁ a rt₂ hmem h hact => ?_) ha
  cases hact with
  | wake hw => exact absurd hmem (hq _)
  | joinReady hx hroot hv => exact h
  | joinPending hx hroot hw => exact h
  | sleep => exact h
  | pollSleep hw => exact h

theorem pollTask_pending_ready {as drops : List Act} (hq : ∀ w, .wake w ∉ as)
    (hp : rt.pollTask x as .pending drops = some rt') : rt'.ready = rt.ready := by
  rw [pollTask] at hp
  split at hp
  · cases hp
  · rename_i mid hacts
    have hready : mid.ready = (rt.beginPoll x).ready := acts_ready hq hacts
    cases hp
    exact hready

/-- Which tasks a poll leaves. -/
theorem Ok.pollTask_tasks (h : rt.Ok (x :: rest)) (hx : x ∈ rt.tasks) {as drops : List Act}
    {res : PollResult V} (hp : rt.pollTask x as res drops = some rt') :
    rt'.tasks = match res with
      | .ready _ => rt.tasks.erase x
      | _ => rt.tasks := by
  obtain ⟨-, mid, hf, hmid, ⟨v, rfl, hdrops⟩ | ⟨hres, rfl⟩⟩ := h.pollTask hx hp
  · have hmem : x ∈ mid.tasks := hf.tasks ▸ hx
    have hstore : ((mid.endPoll x (.ready v)).store x v).tasks = mid.tasks.erase x := rfl
    rw [hdrops.tasks, (hmid.complete hmem v).1.tasks, hstore, hf.tasks]
    rfl
  · cases res with
    | ready v => exact absurd rfl (hres v)
    | pending => exact hf.tasks
    | panicked => exact hf.tasks

/-! ### The measure of the inner loop -/

/-- The queued work. -/
def work (rt : Runtime Q V) : Pc → ℕ
  | .poll _ rest => 3 * rt.ready.queue.length + rest.length + 1
  | _ => 3 * rt.ready.queue.length

/-- Where the inner loop can go on. -/
theorem Step.of_inTick (hs : rt.Step pc c s) (h : pc.InTick r) :
    c.Inside ∧ (s.pc.InTick r ∨ s.pc = .checkHandle r ∨ c.result = some .panicked) := by
  cases hs with
  | tickNone hq => exact ⟨trivial, Or.inr (Or.inl (congrArg Pc.checkHandle h))⟩
  | tick hq => exact ⟨trivial, Or.inl h⟩
  | pollNone => exact ⟨trivial, Or.inl h⟩
  | pollSkip hx => exact ⟨trivial, Or.inl h⟩
  | @poll _ _ _ _ res _ _ hx hp =>
    refine ⟨trivial, ?_⟩
    cases res with
    | ready v => exact Or.inl h
    | pending => exact Or.inl h
    | panicked => exact Or.inr (Or.inr rfl)
  | _ => exact h.elim

/-- Between two calls everything comes from outside. -/
theorem Step.of_idle (hs : rt.Step .idle c s) : ¬ c.Inside ∧ c.result = none := by
  cases hs <;> exact ⟨id, rfl⟩

theorem Step.of_poll_nil (hs : rt.Step (.poll r []) c s) : s.pc = .tick r := by
  cases hs
  rfl

theorem Step.of_poll_cons (hs : rt.Step (.poll r (x :: rest)) c s) :
    s.pc = .poll r rest ∨ s.pc = .unwound := by
  cases hs with
  | pollSkip hx => exact Or.inl rfl
  | @poll _ _ _ _ res _ _ hx hp =>
    cases res with
    | ready v => exact Or.inl rfl
    | pending => exact Or.inl rfl
    | panicked => exact Or.inr rfl

/-- Outside of the inner loop `block_on` takes the way of its source. -/
theorem Step.next (hs : rt.Step pc c s) (hplace : rt.Place pc) : s.pc.Next pc := by
  cases hs with
  | @handle r hf =>
    cases hv : (rt.state r).result with
    | some v => exact Or.inl (pollRoot_returns (by exact hv) _).1
    | none =>
      rw [pollRoot_of_none (by exact hv)]
      exact Or.inr rfl
  | noHandle hf => exact Or.inr rfl
  | empty ht => exact absurd (ht ▸ hplace.2) (Finset.notMem_empty _)
  | nonempty ht => rfl
  | noneReady hq => exact Or.inr rfl
  | someReady => exact Or.inl rfl
  | finish ht => exact absurd (ht ▸ hplace.2.1) (Finset.notMem_empty _)
  | block => exact ⟨_, rfl⟩
  | reactor hws => rfl
  | _ => trivial

/-! ### What goes on until it is served -/

/-- A finished root has its result in its state. -/
theorem BlockOn.result_of_ready (h : rt.BlockOn r) (hok : rt.Ok rest)
    (hv : .ready v ∈ (rt.hist r).results) : (rt.state r).result = some v := by
  have ht := hok.task r h.spawned
  have hdead : r ∉ rt.tasks := fun hl => (ht.unfinished hl).1 _ hv v rfl
  obtain ⟨u, hend, ⟨hsome, -⟩ | ⟨-, hone⟩⟩ := ht.finished hdead
  · rw [hend.eq_of_mem hv, hsome]
  · rw [h.yielded] at hone
    cases hone

/-- `block_on` of a finished root has not come to step 3. -/
theorem Place.of_ready (h : rt.Place pc) (hok : rt.Ok rest) (hroot : pc.root = some r)
    (hv : .ready v ∈ (rt.hist r).results) : pc.InTick r ∨ pc = .checkHandle r := by
  have hdead : rt.BlockOn r → r ∉ rt.tasks :=
    fun hb hl => ((hok.task r hb.spawned).unfinished hl).1 _ hv v rfl
  cases pc with
  | idle | panicked | unwound => cases hroot
  | pollEmpty _ | finalPoll _ => exact h.elim
  | tick r' => exact Or.inl (Option.some.inj hroot)
  | poll r' rest => exact Or.inl (Option.some.inj hroot)
  | checkHandle r' => exact Or.inr (congrArg Pc.checkHandle (Option.some.inj hroot))
  | checkEmpty r' | process r' | processAgain r' | checkReady r' _ =>
    cases hroot
    exact absurd h.2 (hdead h.1)
  | checkPending r' _ | reactorPoll r' _ =>
    cases hroot
    exact absurd h.2.1 (hdead h.1)

/-- The timer of the entry `e` should fire. -/
def Overdue (rt : Runtime Q V) (e : TimerEntry) : Prop :=
  e ∈ Q.elems rt.timers.heap ∧ e.deadline ≤ rt.clock

theorem timers_wake (rt : Runtime Q V) (w : Waker) :
    (rt.wake w).timers = rt.timers ∧ (rt.wake w).clock = rt.clock := by
  cases w with
  | task x => exact ⟨rfl, rfl⟩
  | flag r => exact ⟨rfl, rfl⟩
  | other xs =>
    show (xs.foldl wakeTask rt).timers = _ ∧ (xs.foldl wakeTask rt).clock = _
    induction xs generalizing rt with
    | nil => exact ⟨rfl, rfl⟩
    | cons x xs ih => exact ih (rt.wakeTask x)

theorem timers_wakeAll (rt : Runtime Q V) (ws : List Waker) :
    (rt.wakeAll ws).timers = rt.timers ∧ (rt.wakeAll ws).clock = rt.clock := by
  induction ws generalizing rt with
  | nil => exact ⟨rfl, rfl⟩
  | cons w ws ih =>
    obtain ⟨ht, hc⟩ := timers_wake rt w
    exact ⟨(ih (rt.wake w)).1.trans ht, (ih (rt.wake w)).2.trans hc⟩

theorem Overdue.congr (h : rt.Overdue e) (hrt : rt'.timers = rt.timers ∧ rt'.clock = rt.clock) :
    rt'.Overdue e := by
  unfold Overdue
  rw [hrt.1, hrt.2]
  exact h

theorem Overdue.pollRoot (h : rt.Overdue e) (r : TaskId) (pc : Pc) :
    (rt.pollRoot r pc).rt.Overdue e := by
  cases hv : (rt.state r).result with
  | some v =>
    rw [pollRoot_of_some hv]
    exact h
  | none =>
    rw [pollRoot_of_none hv]
    exact h

theorem Overdue.acts (h : rt.Overdue e) {as : List Act} (ha : rt.acts as = some rt') :
    rt'.Overdue e := by
  refine acts_rule (P := fun rt => rt.Overdue e) h (fun rt₁ a rt₂ _ h hact => ?_) ha
  cases hact with
  | @wake w hw => exact h.congr (timers_wake rt₁ w)
  | joinReady hx hroot hv => exact h
  | joinPending hx hroot hw => exact h
  | sleep =>
    refine ⟨?_, h.2⟩
    show e ∈ Q.elems (Q.push rt₁.timers.heap _)
    rw [Q.elems_push]
    exact Multiset.mem_cons_of_mem h.1
  | @pollSleep k w hw =>
    refine ⟨?_, h.2⟩
    have hheap : (rt₁.timers.poll k w).2.heap = rt₁.timers.heap := by
      unfold TimerWheel.poll
      split_ifs <;> rfl
    show e ∈ Q.elems (rt₁.timers.poll k w).2.heap
    rw [hheap]
    exact h.1

theorem Overdue.complete (h : rt.Overdue e) (x : TaskId) (v : V) :
    (rt.complete x v).Overdue e := by
  unfold Runtime.complete
  split
  · have hstore : (rt.store x v).Overdue e := h
    exact hstore.congr (timers_wake _ _)
  · exact h

theorem Overdue.pollTask (h : rt.Overdue e) {as drops : List Act} {res : PollResult V}
    (hp : rt.pollTask x as res drops = some rt') : rt'.Overdue e := by
  rw [Runtime.pollTask] at hp
  split at hp
  · cases hp
  · rename_i mid hacts
    have hbegin : (rt.beginPoll x).Overdue e := h
    have hmid : mid.Overdue e := hbegin.acts hacts
    cases res with
    | ready v =>
      have hend : (mid.endPoll x (.ready v)).Overdue e := hmid
      exact (hend.complete x v).acts hp
    | pending =>
      cases hp
      exact hmid
    | panicked =>
      cases hp
      exact hmid

/-- `process` fires it. -/
theorem Overdue.process (h : rt.Overdue e) :
    (rt.process.2.timers.state e.id).completed = true := by
  show ((Runtime.wakeAll _ _).timers.state e.id).completed = true
  rw [(timers_wakeAll _ _).1]
  exact (TimerWheel.mem_process_of_due h.1 h.2).2

theorem Overdue.clock (h : rt.Overdue e) {clock : ℕ} (hle : rt.clock ≤ clock) :
    { rt with clock := clock }.Overdue e :=
  ⟨h.1, h.2.trans hle⟩

theorem Overdue.step_process (h : rt.Overdue e) (hs : rt.Step pc c s)
    (hpc : pc = .process r ∨ pc = .processAgain r) :
    (s.rt.timers.state e.id).completed = true := by
  rcases hpc with rfl | rfl
  · cases hs
    exact h.process
  · cases hs
    exact h.process

/-- An overdue timer fires or waits. -/
theorem Overdue.step (h : rt.Overdue e) (hs : rt.Step pc c s) :
    s.rt.Overdue e ∨ (s.rt.timers.state e.id).completed = true := by
  cases hs with
  | user ha => exact Or.inl (h.acts ha)
  | poll hx hp => exact Or.inl (h.pollTask hp)
  | @handle r hf =>
    have hclear : { rt with flag := Function.update rt.flag r false }.Overdue e := h
    exact Or.inl (hclear.pollRoot _ _)
  | pollEmpty => exact Or.inl (h.pollRoot _ _)
  | finalPoll => exact Or.inl (h.pollRoot _ _)
  | process => exact Or.inr h.process
  | processAgain => exact Or.inr h.process
  | reactor hws => exact Or.inl (h.congr (timers_wakeAll rt _))
  | _ => exact Or.inl h

end Runtime

/-- The tasks, then the work. -/
def State.measure (s : State Q V) : ℕ × ℕ := (s.rt.tasks.card, s.rt.work s.pc)

/-- **The measure decreases** in the inner loop. -/
theorem Inv.decreases {rt : Runtime Q V} {pc : Pc} {c : Choice V} {s' : State Q V} {r : TaskId}
    (hi : Inv (⟨rt, pc⟩ : State Q V)) (hs : rt.Step pc c s') (h : pc.InTick r)
    (h' : s'.pc.InTick r) (hq : c.Quiet) :
    Prod.Lex (· < ·) (· < ·) s'.measure (State.measure (⟨rt, pc⟩ : State Q V)) := by
  cases hs with
  | tickNone _ => exact h'.elim
  | tick hne =>
    -- the queue becomes the list of the tick, which weighs less
    refine Prod.Lex.right _ ?_
    have hpos := List.length_pos_iff.mpr hne
    show 3 * 0 + rt.ready.queue.length + 1 < 3 * rt.ready.queue.length
    omega
  | pollNone => exact Prod.Lex.right _ (Nat.lt_succ_self _)
  | @pollSkip _ x rest _ =>
    refine Prod.Lex.right _ ?_
    show 3 * rt.ready.queue.length + rest.length + 1 <
      3 * rt.ready.queue.length + (rest.length + 1) + 1
    omega
  | @poll _ x rest as res drops rt' hx hp =>
    obtain ⟨lost, hok, -⟩ := hi.ok
    have htasks := hok.pollTask_tasks hx hp
    cases res with
    | ready v =>
      -- wake-ups of the completion may add work, but there is a task less
      refine Prod.Lex.left _ _ ?_
      show rt'.tasks.card < rt.tasks.card
      rw [htasks]
      exact Finset.card_erase_lt_of_mem hx
    | pending =>
      -- a quiet poll leaves the queue alone
      have hready := Runtime.pollTask_pending_ready (fun w => (hq w).1) hp
      show Prod.Lex _ _ (rt'.tasks.card, 3 * rt'.ready.queue.length + rest.length + 1)
        (rt.tasks.card, 3 * rt.ready.queue.length + (rest.length + 1) + 1)
      rw [htasks, hready]
      exact Prod.Lex.right _ (by omega)
    | panicked => exact h'.elim
  | _ => exact h.elim

/-! ### Infinite runs -/

section Infinite

variable {h : List (Op V × Unit)} {s₀ : State Q V} {s : ℕ → State Q V} {o : ℕ → Op V} {n : ℕ}
  {r : TaskId} {v : V} {e : TimerEntry}

/-- The invariant and the step at each place of an infinite run. -/
theorem infinite_step (hr : Run (State.system Q V) (State.new Q V) h s₀)
    (hi : Infinite (State.system Q V) s₀ s o) (n : ℕ) :
    Inv (⟨{ (s n).rt with clock := (o n).time }, (s n).pc⟩ : State Q V) ∧
      (s n).rt.clock ≤ (o n).time ∧
      { (s n).rt with clock := (o n).time }.Step (s n).pc (o n).choice (s (n + 1)) := by
  obtain ⟨h', hr'⟩ := hi.exists_run n
  obtain ⟨_, hs⟩ := hi.step n
  exact ⟨(run_inv (hr.append hr')).clock _, State.of_step hs⟩

/-- A run can go on. -/
theorem exists_step (hr : Run (State.system Q V) (State.new Q V) h s₀) :
    ∃ op s', s₀.step op = some s' := by
  have hplace := (run_inv hr).place
  obtain ⟨rt, pc⟩ := s₀
  have hgo : ∀ c s', rt.step pc c = some s' → ∃ op s', State.step ⟨rt, pc⟩ op = some s' :=
    fun c s' hs => ⟨⟨rt.clock, c⟩, s', (if_pos le_rfl).trans hs⟩
  cases pc with
  | idle => exact hgo (.user []) _ rfl
  | poll r rest =>
    cases rest with
    | nil => exact hgo .go _ rfl
    | cons x rest =>
      by_cases hx : x ∈ rt.tasks
      · exact hgo (.poll [] .pending []) _ (if_pos hx)
      · exact hgo .go _ (if_neg hx)
  | checkHandle r =>
    cases hf : rt.flag r with
    | true => exact hgo .go _ (if_pos hf)
    | false => exact hgo .go _ (if_neg (by rw [hf]; exact Bool.false_ne_true))
  | reactorPoll r timeout =>
    refine hgo (.reactor []) ⟨rt, .processAgain r⟩ ?_
    simp [Runtime.step, Runtime.wakeAll]
  | tick r => exact hgo .go _ rfl
  | checkEmpty r => exact hgo .go _ rfl
  | process r => exact hgo .go _ rfl
  | checkReady r timeout => exact hgo .go _ rfl
  | checkPending r timeout => exact hgo .go _ rfl
  | processAgain r => exact hgo .go _ rfl
  | pollEmpty r | finalPoll r | panicked => exact hplace.elim
  | unwound => exact hgo .caught _ rfl

variable (hr : Run (State.system Q V) (State.new Q V) h s₀)
  (hi : Infinite (State.system Q V) s₀ s o) (hset : Settles o)
  (hno : ∀ n, (o n).choice.result ≠ some .panicked)

include hr hi

/-- Step 2 finds the result of a finished root. -/
theorem returns_at_checkHandle (hpc : (s n).pc = .checkHandle r)
    (hv : .ready v ∈ ((s n).rt.hist r).results) :
    (s (n + 1)).pc = .idle ∧ ((s (n + 1)).rt.hist r).returned = some v := by
  obtain ⟨h', hr'⟩ := hi.exists_run n
  obtain ⟨_, hs⟩ := hi.step n
  have hinv := run_inv (hr.append hr')
  obtain ⟨lost, hok, -⟩ := hinv.ok
  have hroot := hinv.place
  rw [hpc] at hroot
  have hreturn := hinv.step_checkHandle hpc hs
  rw [hroot.result_of_ready hok hv] at hreturn
  exact hreturn

theorem next_pc (n : ℕ) : (s (n + 1)).pc.Next (s n).pc := by
  obtain ⟨hinv, -, hstep⟩ := infinite_step hr hi n
  exact hstep.next hinv.place

theorem process_of_checkEmpty (hpc : (s n).pc = .checkEmpty r) :
    Eventually s (·.pc.AtProcess r) n := by
  have hnext := next_pc hr hi n
  rw [hpc] at hnext
  exact .of_succ (.now (Or.inl hnext))

theorem process_of_checkHandle (hpc : (s n).pc = .checkHandle r) :
    Eventually s (·.pc.AtProcess r) n := by
  have hnext := next_pc hr hi n
  rw [hpc] at hnext
  rcases hnext with hidle | hempty
  · exact .of_succ (.now (Or.inr (Or.inr hidle)))
  · exact .of_succ (process_of_checkEmpty hr hi hempty)

theorem process_of_reactorPoll {timeout : ℕ} (hpc : (s n).pc = .reactorPoll r timeout) :
    Eventually s (·.pc.AtProcess r) n := by
  have hnext := next_pc hr hi n
  rw [hpc] at hnext
  exact .of_succ (.now (Or.inr (Or.inl hnext)))

theorem process_of_checkPending {timeout : Option ℕ} (hpc : (s n).pc = .checkPending r timeout) :
    Eventually s (·.pc.AtProcess r) n := by
  have hnext := next_pc hr hi n
  rw [hpc] at hnext
  obtain ⟨timeout', hblock⟩ := hnext
  exact .of_succ (process_of_reactorPoll hr hi hblock)

include hset hno

/-- **The inner loop is left** if the tasks come to rest by themselves and no poll panics. -/
theorem exists_checkHandle (hn : (s n).pc.InTick r) :
    ∃ m, n ≤ m ∧ (s m).pc = .checkHandle r ∧ ∀ k, n ≤ k → k < m → (s k).pc.InTick r := by
  have hleft : ∃ m, n ≤ m ∧ ¬ (s m).pc.InTick r := by
    by_contra hstay
    push Not at hstay
    have hinside : ∀ m, n ≤ m → (o m).choice.Inside := fun m hm =>
      ((infinite_step hr hi m).2.2.of_inTick (hstay m hm)).1
    obtain ⟨k, hk, hquiet⟩ := hset n hinside
    obtain ⟨m, hm, hnot⟩ := exists_not_of_decreasing
      (WellFounded.prod_lex Nat.lt_wfRel.wf Nat.lt_wfRel.wf) (s := s) State.measure
      (P := fun s => s.pc.InTick r) k (fun m hm hin hin' => by
        obtain ⟨hinv, -, hstep⟩ := infinite_step hr hi m
        exact hinv.decreases hstep hin hin' (hquiet m hm))
    exact hnot (hstay m (hk.trans hm))
  refine hi.exits (P := fun s => s.pc.InTick r) (R := fun s => s.pc = .checkHandle r) hn hleft ?_
  intro m _ _ hin
  obtain ⟨-, -, hstep⟩ := infinite_step hr hi m
  rcases (hstep.of_inTick hin).2 with hin' | hcheck | hpanicked
  · exact Or.inl hin'
  · exact Or.inr hcheck
  · exact absurd hpanicked (hno m)

/-- **A finished root makes `block_on` return.** -/
theorem exists_returned (hroot : (s n).pc.root = some r)
    (hv : .ready v ∈ ((s n).rt.hist r).results) :
    ∃ m, n ≤ m ∧ (s m).pc = .idle ∧ ((s m).rt.hist r).returned = some v := by
  obtain ⟨hinv, -, -⟩ := infinite_step hr hi n
  obtain ⟨lost, hok, -⟩ := hinv.ok
  obtain ⟨m, hm, hpc⟩ : ∃ m, n ≤ m ∧ (s m).pc = .checkHandle r := by
    rcases hinv.place.of_ready hok hroot hv with hin | hpc
    · obtain ⟨m, hm, hpc, -⟩ := exists_checkHandle hr hi hset hno hin
      exact ⟨m, hm, hpc⟩
    · exact ⟨n, le_rfl, hpc⟩
  have hkeep := hi.stays (P := fun s => .ready v ∈ (s.rt.hist r).results) hv
    (fun k _ _ _ hv => by
      obtain ⟨hinv, -, hstep⟩ := infinite_step hr hi k
      obtain ⟨lost, hok, -⟩ := hinv.ok
      exact hok.results_step hstep hv) hm
  exact ⟨m + 1, Nat.le_succ_of_le hm, returns_at_checkHandle hr hi hpc hkeep⟩

theorem process_of_inTick (hin : (s n).pc.InTick r) : Eventually s (·.pc.AtProcess r) n := by
  obtain ⟨m, hm, hpc, -⟩ := exists_checkHandle hr hi hset hno hin
  exact (process_of_checkHandle hr hi hpc).of_le hm

theorem process_of_checkReady {timeout : Option ℕ} (hpc : (s n).pc = .checkReady r timeout) :
    Eventually s (·.pc.AtProcess r) n := by
  have hnext := next_pc hr hi n
  rw [hpc] at hnext
  rcases hnext with htick | hpending
  · exact .of_succ (process_of_inTick hr hi hset hno (by rw [htick]; rfl))
  · exact .of_succ (process_of_checkPending hr hi hpending)

/-- **`block_on` comes to `TimerWheel::process`**, or returns. -/
theorem exists_process (hroot : (s n).pc.root = some r) :
    Eventually s (·.pc.AtProcess r) n := by
  have hplace := (infinite_step hr hi n).1.place
  cases hpc : (s n).pc <;> rw [hpc] at hroot hplace <;> cases hroot
  case tick | poll => exact process_of_inTick hr hi hset hno (by rw [hpc]; rfl)
  case checkHandle => exact process_of_checkHandle hr hi hpc
  case checkEmpty => exact process_of_checkEmpty hr hi hpc
  case process => exact .now (Or.inl hpc)
  case checkReady => exact process_of_checkReady hr hi hset hno hpc
  case checkPending => exact process_of_checkPending hr hi hpc
  case reactorPoll => exact process_of_reactorPoll hr hi hpc
  case processAgain => exact .now (Or.inr (Or.inl hpc))
  case pollEmpty | finalPoll => exact hplace.elim

/-- **An overdue timer fires**, unless `block_on` returns. -/
theorem exists_completed (hroot : (s n).pc.root = some r) (he : (s n).rt.Overdue e) :
    ∃ m, n ≤ m ∧ (((s m).rt.timers.state e.id).completed = true ∨ (s m).pc = .idle) := by
  by_contra hnever
  push Not at hnever
  -- until then the timer stays overdue, also at the next `process`
  have hwaits : ∀ {m}, n ≤ m → (s m).rt.Overdue e :=
    hi.stays (P := fun s => s.rt.Overdue e) he fun m _ hm _ hdue => by
      obtain ⟨-, hle, hstep⟩ := infinite_step hr hi m
      exact ((hdue.clock hle).step hstep).resolve_right (hnever (m + 1) (Nat.le_succ_of_le hm)).1
  obtain ⟨m, hm, hpc⟩ := exists_process hr hi hset hno hroot
  obtain ⟨-, hle, hstep⟩ := infinite_step hr hi m
  rcases hpc with hpc | hpc | hpc
  · exact (hnever (m + 1) (Nat.le_succ_of_le hm)).1
      (((hwaits hm).clock hle).step_process hstep (Or.inl hpc))
  · exact (hnever (m + 1) (Nat.le_succ_of_le hm)).1
      (((hwaits hm).clock hle).step_process hstep (Or.inr hpc))
  · exact (hnever m hm).2 hpc

end Infinite

/-- Between two calls nothing has to happen. -/
theorem exists_idle {s : State Q V} (hpc : s.pc = .idle) :
    ∃ t o, Infinite (State.system Q V) s t o ∧ ∀ n, (t n).pc = .idle := by
  refine exists_infinite (P := fun s : State Q V => s.pc = .idle) (fun s hpc => ?_) hpc
  refine ⟨⟨s.rt.clock, .user []⟩, (), ⟨s.rt, .idle⟩, ?_, rfl⟩
  show s.step _ = _
  rw [State.step, if_pos le_rfl, hpc]
  rfl

/-- The task 1 wakes itself on every poll; the root 2 has returned 42, and a timer is overdue. -/
structure Busy (s : State Q ℕ) : Prop where
  live : 1 ∈ s.rt.tasks
  spawned : s.rt.Spawned 1
  loop : s.pc = .tick 2 ∧ s.rt.ready = ⟨[1], {1}⟩ ∨ s.pc = .poll 2 [1] ∧ s.rt.ready = ⟨[], ∅⟩ ∨
    s.pc = .poll 2 [] ∧ s.rt.ready = ⟨[1], {1}⟩
  finished : .ready 42 ∈ (s.rt.hist 2).results ∧ (s.rt.hist 2).returned = none
  overdue : s.rt.Overdue ⟨0, 0⟩ ∧ (s.rt.timers.state 0).completed = false

/-- Time passes, and the task is polled once more. -/
theorem Busy.next {s : State Q ℕ} (h : Busy s) : ∃ op s', s.step op = some s' ∧ Busy s' := by
  have hoverdue := h.overdue.1.clock (Nat.le_succ s.rt.clock)
  rcases h.loop with ⟨hpc, hq⟩ | ⟨hpc, hq⟩ | ⟨hpc, hq⟩
  -- a tick drains the queue
  · refine ⟨⟨s.rt.clock + 1, .go⟩, ⟨{ s.rt with clock := s.rt.clock + 1, ready := ⟨[], ∅⟩ },
      .poll 2 [1]⟩, ?_, h.live, h.spawned, Or.inr (Or.inl ⟨rfl, rfl⟩), h.finished, hoverdue,
      h.overdue.2⟩
    rw [State.step, if_pos (Nat.le_succ _), hpc]
    simp [Runtime.step, ReadyQueue.drain, hq]
  -- it polls the task, which wakes itself
  · let rt := { s.rt with clock := s.rt.clock + 1 }
    have hs : (rt.beginPoll 1).Spawned 1 :=
      (Runtime.proj_modifyHist TaskHist.spawned rfl 1).trans h.spawned
    have hacts : (rt.beginPoll 1).acts [.wake (.task 1)] = some ((rt.beginPoll 1).wakeTask 1) := by
      rw [Runtime.acts, Runtime.act, if_pos (by exact hs)]
      rfl
    have hother : (((rt.beginPoll 1).wakeTask 1).endPoll 1 .pending).hist 2 = s.rt.hist 2 := by
      have hne : (2 : TaskId) ≠ 1 := by decide
      rw [Runtime.hist_endPoll_of_ne hne, Runtime.hist_wakeTask_of_ne hne,
        Runtime.hist_beginPoll_of_ne hne]
    refine ⟨⟨s.rt.clock + 1, .poll [.wake (.task 1)] .pending []⟩,
      ⟨((rt.beginPoll 1).wakeTask 1).endPoll 1 .pending, .poll 2 []⟩, ?_, h.live, ?_,
      Or.inr (Or.inr ⟨rfl, ?_⟩), ?_, hoverdue, h.overdue.2⟩
    · rw [State.step, if_pos (Nat.le_succ _), hpc]
      show (if 1 ∈ s.rt.tasks then _ else none) = _
      rw [if_pos h.live, Runtime.pollTask, hacts]
      rfl
    · exact (Runtime.proj_modifyHist TaskHist.spawned rfl 1).trans
        ((Runtime.wakeTask_frame (rt.beginPoll 1) 1).spawned_iff.mpr hs)
    · show s.rt.ready.push 1 = _
      rw [hq]
      rfl
    · show .ready 42 ∈ (Runtime.hist _ 2).results ∧ (Runtime.hist _ 2).returned = none
      rw [hother]
      exact h.finished
  -- it has polled something, so the inner loop ticks again
  · refine ⟨⟨s.rt.clock + 1, .go⟩, ⟨{ s.rt with clock := s.rt.clock + 1 }, .tick 2⟩, ?_, h.live,
      h.spawned, Or.inl ⟨rfl, hq⟩, h.finished, hoverdue, h.overdue.2⟩
    rw [State.step, if_pos (Nat.le_succ _), hpc]
    rfl

theorem Busy.inTick {s : State Q ℕ} (h : Busy s) : s.pc.InTick 2 := by
  rcases h.loop with ⟨hpc, -⟩ | ⟨hpc, -⟩ | ⟨hpc, -⟩
  all_goals
    rw [hpc]
    rfl

/-- The list of the tick gets shorter until the next one. -/
theorem Busy.exists_tick {s : ℕ → State Q ℕ} {o : ℕ → Op ℕ} {s₀ : State Q ℕ} {n : ℕ}
    (hi : Infinite (State.system Q ℕ) s₀ s o) (hbusy : ∀ m, n ≤ m → Busy (s m)) (m : ℕ) :
    ∃ k, m ≤ k ∧ (s k).pc = .tick 2 := by
  have hnil : ∀ k, (s k).pc = .poll 2 [] → (s (k + 1)).pc = .tick 2 := by
    intro k hpc
    obtain ⟨_, hs⟩ := hi.step k
    obtain ⟨-, hstep⟩ := State.of_step hs
    rw [hpc] at hstep
    exact hstep.of_poll_nil
  have hn : n ≤ max m n := le_max_right m n
  rcases (hbusy _ hn).loop with ⟨hpc, -⟩ | ⟨hpc, -⟩ | ⟨hpc, -⟩
  · exact ⟨max m n, le_max_left m n, hpc⟩
  · refine ⟨max m n + 2, by omega, hnil _ ?_⟩
    obtain ⟨_, hs⟩ := hi.step (max m n)
    obtain ⟨-, hstep⟩ := State.of_step hs
    have hin := (hbusy (max m n + 1) (by omega)).inTick
    rw [hpc] at hstep
    refine hstep.of_poll_cons.resolve_right fun hunwound => ?_
    rw [hunwound] at hin
    exact hin
  · exact ⟨max m n + 1, by omega, hnil _ hpc⟩

end MiniAsync.SingleThread
