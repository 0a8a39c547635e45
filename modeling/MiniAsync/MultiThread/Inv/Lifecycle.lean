/-
  The lifecycle of one task, seen apart from the rest of the runtime.

  A `View` is what the runtime knows of one task. A `Role` is what a thread in
  the middle of an operation holds of it: a thread that has put the task into
  the state SCHEDULED and is going to push its id holds a token, and so does a
  worker that has dequeued the id and is going to poll the task. `Step` is the
  diagram in the module documentation of `multi_thread/executor.rs`, refined to
  atomic accesses: which change of the view a thread with which role may make,
  and which roles it has afterwards.

  `Inv` counts: the task is SCHEDULED exactly when one token for it exists, and
  RUNNING or NOTIFIED exactly when one thread works on it or its future has
  ended.
-/
import MiniAsync.Interleave.Machine
import MiniAsync.MultiThread.State

namespace MiniAsync.MultiThread

open Interleave

namespace Lifecycle

/-- The part of the shared state that belongs to one task. -/
@[ext]
structure View where
  status : Status
  allocated : Bool
  /-- How often the id is in the ready queue. -/
  queued : ℕ
  /-- The task is in the task map. -/
  listed : Bool
  finished : Bool
  removed : Bool
  polls : ℕ
  wakes : ℕ

/-- What a thread in the middle of an operation holds of the task. -/
inductive Role where
  /-- A new task that is not in the task map yet. -/
  | inserting
  /-- The task was put into SCHEDULED, its id is not pushed yet. -/
  | pushing
  /-- The id was dequeued, the compare-and-swap into RUNNING is still to come. -/
  | held
  /-- Between the compare-and-swap into RUNNING and the end of the poll. -/
  | runner
  /-- The compare-and-swap into IDLE has failed, the store of SCHEDULED is still to come. -/
  | resched
  /-- The future has ended, the task is still to be removed from the map. -/
  | completing
  /-- A wake call that has not made its transition. -/
  | waking
deriving DecidableEq

/-- `Step v rs v' rs'`: a thread that holds the roles `rs` turns the view `v` into `v'` and holds
`rs'` afterwards. -/
inductive Step : View → List Role → View → List Role → Prop
  | stutter (v : View) (rs : List Role) : Step v rs v rs
  | create (v : View) (rs : List Role) (h : v.allocated = false) :
      Step v rs { v with
        status := .scheduled, allocated := true, finished := false, removed := false, polls := 0,
        wakes := 0 } (.inserting :: rs)
  | insert (v : View) : Step v [.inserting] { v with listed := true } [.pushing]
  | push (v : View) (h : v.queued = 0) :
      Step v [.pushing] { v with queued := v.queued + 1 } []
  | pushPresent (v : View) (h : 0 < v.queued) : Step v [.pushing] v []
  | dequeue (v : View) (rs : List Role) :
      Step { v with queued := v.queued + 1 } rs v (.held :: rs)
  | notFound (v : View) (h : v.listed = false) : Step v [.held] v []
  | start (v : View) (h : v.status = .scheduled) :
      Step v [.held] { v with status := .running, polls := v.polls + 1 } [.runner]
  | casFailed (v : View) (h : v.status ≠ .scheduled) : Step v [.held] v []
  | idle (v : View) (h : v.status = .running) : Step v [.runner] { v with status := .idle } []
  | missed (v : View) (h : v.status ≠ .running) : Step v [.runner] v [.resched]
  | reschedule (v : View) : Step v [.resched] { v with status := .scheduled } [.pushing]
  | finish (v : View) : Step v [.runner] { v with finished := true } [.completing]
  | remove (v : View) : Step v [.completing] { v with listed := false, removed := true } []
  | wakeCall (v : View) (rs : List Role) (h : v.allocated = true) :
      Step v rs { v with wakes := v.wakes + 1 } (.waking :: rs)
  | wakeSeen (v : View) (h : v.status = .scheduled ∨ v.status = .notified) : Step v [.waking] v []
  | wakeIdle (v : View) (h : v.status = .idle) :
      Step v [.waking] { v with status := .scheduled } [.pushing]
  | wakeRunning (v : View) (h : v.status = .running) :
      Step v [.waking] { v with status := .notified } []

/-- The task is to be polled (again). -/
def Woken : Status → Prop
  | .scheduled | .notified => True
  | .idle | .running => False

instance : (st : Status) → Decidable (Woken st)
  | .scheduled | .notified => isTrue trivial
  | .idle | .running => isFalse id

/-- A worker is inside `poll_task` for the task, or was there when the future ended. -/
def Busy : Status → Prop
  | .running | .notified => True
  | .idle | .scheduled => False

instance : (st : Status) → Decidable (Busy st)
  | .running | .notified => isTrue trivial
  | .idle | .scheduled => isFalse id

@[simp] theorem woken_scheduled : Woken .scheduled = True := rfl
@[simp] theorem woken_notified : Woken .notified = True := rfl
@[simp] theorem woken_idle : Woken .idle = False := rfl
@[simp] theorem woken_running : Woken .running = False := rfl
@[simp] theorem busy_scheduled : Busy .scheduled = False := rfl
@[simp] theorem busy_notified : Busy .notified = True := rfl
@[simp] theorem busy_idle : Busy .idle = False := rfl
@[simp] theorem busy_running : Busy .running = True := rfl

theorem woken_iff {st : Status} : Woken st ↔ st = .scheduled ∨ st = .notified := by
  cases st <;> simp

theorem busy_iff {st : Status} : Busy st ↔ st = .running ∨ st = .notified := by
  cases st <;> simp

/-- The accounting of a task over all threads: `n r` threads hold the role `r`. -/
structure Inv (v : View) (n : Role → ℕ) : Prop where
  /-- Exactly one token when SCHEDULED, none otherwise. -/
  tokens : n .inserting + n .pushing + v.queued + n .held
    = if v.status = .scheduled then 1 else 0
  /-- Exactly one thread works on the task when it is RUNNING or NOTIFIED, until its end. -/
  workers : n .runner + n .resched + ind v.finished = if Busy v.status then 1 else 0
  resched : 0 < n .resched → v.status = .notified
  listed : ind v.listed + n .inserting + ind v.removed = ind v.allocated
  removed : n .completing + ind v.removed = ind v.finished
  /-- Every poll but the first is paid for by a wake call of its own. -/
  budget : v.polls + (if Woken v.status then 1 else 0) + n .waking ≤ ind v.allocated + v.wakes
  fresh : v.allocated = false → v.status = .idle ∧ v.wakes = 0

/-- The view of a task that does not exist yet. -/
def View.blank : View := ⟨.idle, false, 0, false, false, false, 0, 0⟩

theorem inv_blank : Inv View.blank (fun _ => 0) := by
  constructor <;> simp [View.blank]

namespace Inv

variable {v : View} {n : Role → ℕ} (hI : Inv v n)
include hI

/-- Whoever holds a token finds the task SCHEDULED, and in the task map once it is inserted. -/
theorem scheduled_of_token (h : 0 < n .inserting + n .pushing + v.queued + n .held) :
    v.status = .scheduled := by
  have htok := hI.tokens
  by_contra hne
  rw [if_neg hne] at htok
  omega

theorem busy_of_runner (h : 0 < n .runner + n .resched) : Busy v.status := by
  have hwork := hI.workers
  by_contra hne
  rw [if_neg hne] at hwork
  omega

theorem not_finished_of_scheduled (h : v.status = .scheduled) : ind v.finished = 0 := by
  have hwork := hI.workers
  rw [h, if_neg (by simp)] at hwork
  omega

/-- A task is in the task map from its insertion to its end. -/
theorem listed_of_token (h : 0 < n .pushing + v.queued + n .held) : v.listed = true := by
  have hs := hI.scheduled_of_token (by omega)
  have htok := hI.tokens
  have hlist := hI.listed
  have hrem := hI.removed
  have hfin := hI.not_finished_of_scheduled hs
  rw [if_pos hs] at htok
  cases hl : v.listed with
  | true => rfl
  | false =>
    cases ha : v.allocated with
    | true =>
      rw [hl, ha, ind_false, ind_true] at hlist
      omega
    | false =>
      rw [(hI.fresh ha).1] at hs
      exact absurd hs (by decide)

theorem busy_of_completing (h : 0 < n .completing) : Busy v.status := by
  have hwork := hI.workers
  have hrem := hI.removed
  by_contra hne
  rw [if_neg hne] at hwork
  omega

theorem allocated_of_status (h : v.status ≠ .idle) : v.allocated = true := by
  by_contra hne
  exact h (hI.fresh (by simpa using hne)).1

theorem not_listed_of_inserting (h : 0 < n .inserting) : v.listed = false := by
  have hlist := hI.listed
  have hle := ind_le_one v.allocated
  cases hl : v.listed with
  | false => rfl
  | true =>
    rw [hl, ind_true] at hlist
    omega

/-- Whoever is going to remove the task finds it in the task map, and is the first to do so. -/
theorem listed_of_completing (h : 0 < n .completing) :
    v.listed = true ∧ v.removed = false := by
  have hb := hI.busy_of_completing h
  have hne : v.status ≠ .idle ∧ v.status ≠ .scheduled := by
    rcases busy_iff.mp hb with h | h <;> simp [h]
  have htok := hI.tokens
  have hlist := hI.listed
  have hrem := hI.removed
  have hle := ind_le_one v.finished
  rw [if_neg hne.2] at htok
  rw [hI.allocated_of_status hne.1, ind_true] at hlist
  cases hr : v.removed with
  | true =>
    rw [hr, ind_true] at hrem
    omega
  | false =>
    refine ⟨?_, rfl⟩
    rw [hr, ind_false] at hlist
    exact ind_pos_iff.mp (by omega)

theorem not_removed_of_fresh (h : v.allocated = false) : v.removed = false := by
  have hlist := hI.listed
  cases hr : v.removed with
  | false => rfl
  | true =>
    rw [h, hr, ind_true, ind_false] at hlist
    omega

theorem allocated_of_waking (h : 0 < n .waking) : v.allocated = true := by
  by_contra hne
  have ha : v.allocated = false := by simpa using hne
  obtain ⟨-, hw⟩ := hI.fresh ha
  have hbud := hI.budget
  rw [ha, hw, ind_false] at hbud
  omega

end Inv

/-- **One step keeps the accounting**, whatever the other threads hold. -/
theorem Step.inv {v v' : View} {rs rs' : List Role} (h : Step v rs v' rs') (n : Role → ℕ)
    (hI : Inv v fun r => rs.count r + n r) : Inv v' fun r => rs'.count r + n r := by
  have ⟨htok, hwork, hres, hlist, hrem, hbud, hfresh⟩ := hI
  cases h with
  | stutter => exact hI
  | create _ _ h =>
    obtain ⟨hst, hw⟩ := hfresh h
    have hnone : rs.count .resched + n .resched = 0 := by
      rw [hst, if_neg (by simp)] at hwork
      omega
    simp [hst, h, hw] at htok hwork hlist hrem hbud
    refine ⟨by simp; omega, by simp; omega, fun hr => ?_, by simp; omega, by simp; omega,
      by simp; omega, by simp⟩
    rw [List.count_cons_of_ne (by decide)] at hr
    omega
  | start _ h | idle _ h | wakeRunning _ h =>
    have ha := hI.allocated_of_status (by simp [h])
    simp [h, ha] at htok hwork hres hlist hrem hbud
    constructor <;> simp [ha] <;> omega
  | wakeIdle _ h =>
    have ha := hI.allocated_of_waking (by simp)
    simp [h, ha] at htok hwork hres hlist hrem hbud
    constructor <;> simp [ha] <;> omega
  | reschedule =>
    have h := hres (by simp)
    have ha := hI.allocated_of_status (by simp [h])
    simp [h, ha] at htok hwork hlist hrem hbud
    constructor <;> simp [ha] <;> omega
  | notFound _ h =>
    exact absurd (hI.listed_of_token (by simp)) (by simp [h])
  | casFailed _ h =>
    exact absurd (hI.scheduled_of_token (by simp)) h
  | pushPresent _ h =>
    have hs := hI.scheduled_of_token (by simp)
    simp [hs] at htok
    omega
  | missed _ h =>
    have hs : v.status = .notified := by
      rcases busy_iff.mp (hI.busy_of_runner (by simp)) with hr | hn
      · exact absurd hr h
      · exact hn
    have ha := hI.allocated_of_status (by simp [hs])
    simp [hs, ha] at htok hwork hlist hrem hbud
    constructor <;> simp [hs, ha] <;> omega
  | finish =>
    have hb := hI.busy_of_runner (by simp)
    simp [hb] at htok hwork hres hlist hrem hbud
    constructor <;> simp [hb] <;> first | exact hfresh | omega
  | remove =>
    have hb := hI.busy_of_completing (by simp)
    have hne : v.status ≠ .idle ∧ v.status ≠ .scheduled := by
      rcases busy_iff.mp hb with h | h <;> simp [h]
    have ha := hI.allocated_of_status hne.1
    have hle := ind_le_one v.finished
    simp [hb, hne.2, ha] at htok hwork hres hlist hrem hbud
    constructor <;> simp [hb, hne.2, ha] <;> first | exact hres | omega
  | insert =>
    have hs := hI.scheduled_of_token (by simp)
    have ha := hI.allocated_of_status (by simp [hs])
    simp [hs, ha] at htok hwork hres hlist hrem hbud
    constructor <;> simp [hs, ha] <;> omega
  | push _ h | wakeSeen _ h =>
    simp at htok hwork hres hlist hrem hbud
    refine ⟨?_, ?_, ?_, ?_, ?_, ?_, hfresh⟩ <;> simp <;> first | exact hres | omega
  | dequeue =>
    refine ⟨?_, by simpa using hwork, by simpa using hres, by simpa using hlist,
      by simpa using hrem, by simpa using hbud, hfresh⟩
    rw [← htok]
    simp
    omega
  | wakeCall _ _ h =>
    refine ⟨by simpa using htok, by simpa using hwork, by simpa using hres, by simpa using hlist,
      by simpa using hrem, ?_, by simp [h]⟩
    simp
    omega

/-- **The end is final**: after the future has ended no poll begins. -/
theorem Step.finished {v v' : View} {rs rs' : List Role} (h : Step v rs v' rs') (n : Role → ℕ)
    (hI : Inv v fun r => rs.count r + n r) (hf : v.finished = true) :
    v'.finished = true ∧ v'.polls = v.polls := by
  cases h with
  | create _ _ h =>
    have hwork := hI.workers
    rw [(hI.fresh h).1, hf, if_neg (by simp), ind_true] at hwork
    omega
  | start _ h =>
    have hfin := hI.not_finished_of_scheduled h
    rw [hf, ind_true] at hfin
    omega
  | finish => exact ⟨rfl, rfl⟩
  | _ => exact ⟨hf, rfl⟩

/-- The number of polls begun does not go down. -/
theorem Step.polls_le {v v' : View} {rs rs' : List Role} (h : Step v rs v' rs') (n : Role → ℕ)
    (hI : Inv v fun r => rs.count r + n r) : v.polls ≤ v'.polls := by
  cases h with
  | create _ _ h =>
    have hbud := hI.budget
    rw [h, (hI.fresh h).2, ind_false] at hbud
    omega
  | start => exact Nat.le_succ _
  | _ => exact Nat.le_refl _

/-! ### Wake calls

A wake call is named by its epoch: the number of polls begun when it was made. -/

/-- A wake call with the epoch `b` may be under way. -/
def Begun (b : ℕ) (v : View) : Prop := v.allocated = true ∧ b ≤ v.polls

/-- A wake call with the epoch `b` has had its effect: a poll has begun since, or one is to come. -/
def Settled (b : ℕ) (v : View) : Prop := Begun b v ∧ (b < v.polls ∨ Woken v.status)

theorem Step.begun {v v' : View} {rs rs' : List Role} (h : Step v rs v' rs') {b : ℕ}
    (hb : Begun b v) : Begun b v' := by
  obtain ⟨ha, hle⟩ := hb
  cases h with
  | create _ _ h => exact absurd ha (by simp [h])
  | start _ h => exact ⟨ha, Nat.le_succ_of_le hle⟩
  | _ => exact ⟨ha, hle⟩

/-- The effect of a wake call lasts: only the begin of a poll takes the mark away. -/
theorem Step.settled {v v' : View} {rs rs' : List Role} (h : Step v rs v' rs') {b : ℕ}
    (hb : Settled b v) : Settled b v' := by
  obtain ⟨hbegun, hset⟩ := hb
  refine ⟨h.begun hbegun, ?_⟩
  cases h with
  | create _ _ h => exact absurd hbegun.1 (by simp [h])
  | start _ h => exact Or.inl (Nat.lt_succ_of_le hbegun.2)
  | idle _ h =>
    rw [h] at hset
    exact Or.inl (hset.resolve_right id)
  | reschedule | wakeIdle | wakeRunning => exact Or.inr trivial
  | _ => exact hset

/-- Where a woken task stands that has not ended: RUNNING with a mark and a thread at work on it,
or SCHEDULED with one token. -/
theorem Inv.woken_cases {v : View} {n : Role → ℕ} (hI : Inv v n) (hw : Woken v.status)
    (hf : v.finished = false) :
    (v.status = .notified ∧ 0 < n .runner + n .resched) ∨
      (v.status = .scheduled ∧ 0 < n .inserting + n .pushing + v.queued + n .held) := by
  rcases woken_iff.mp hw with hs | hs
  · refine Or.inr ⟨hs, ?_⟩
    rw [hI.tokens, if_pos hs]
    exact Nat.one_pos
  · refine Or.inl ⟨hs, ?_⟩
    have hwork := hI.workers
    rw [hs, hf, if_pos (by simp), ind_false] at hwork
    omega

end Lifecycle

end MiniAsync.MultiThread
