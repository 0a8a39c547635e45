/-
  Who watches the I/O while workers sleep. A worker goes to sleep on the condvar
  because its compare-and-swap on the driver token has failed, but between that
  and its wait the driver may release the token and take a task; the test under
  the queue mutex looks at the queue and at `shutdown`, not at the token.

  Sleeping workers are watched for as long as no worker starts its wait without
  a driver, and no worker takes a task away while nobody drives and the
  notification of a sleeping worker is still to come.
-/
import MiniAsync.MultiThread.Inv.Stranded

namespace MiniAsync.MultiThread

open Interleave

variable {V : Type}

/-- The frame is a worker inside `poll_task`. -/
def Frame.inPollTask : Frame V → Bool
  | .worker (.pollTask _ _) => true
  | _ => false

/-- A worker sleeps on the condvar, nobody holds the driver token, and every worker that does not
sleep is polling a task. -/
def Unwatched (n : ℕ) (c : Config (Shared V) (Frame V)) : Prop :=
  c.shared.shutdown = false ∧ c.shared.waiters ≠ [] ∧ c.shared.driverToken = false ∧
    ∀ i < n, i ∉ c.shared.waiters → ∃ st, c.threads[i]? = some st ∧ ∃ f ∈ st, f.inPollTask = true

/-- Thread `i` is about to wait on the condvar while nobody holds the driver token. -/
def SleepsUndriven (c : Config (Shared V) (Frame V)) (i : ℕ) : Prop :=
  c.top i = some (.worker .wait) ∧ c.shared.driverToken = false

/-- Thread `i` is about to take a task while nobody holds the driver token, workers sleep, and a
call of `enqueue_task` has pushed but not notified. -/
def TakesUnnotified (c : Config (Shared V) (Frame V)) (i : ℕ) : Prop :=
  c.top i = some (.worker .dequeue) ∧ c.shared.readyQueue.queue ≠ [] ∧
    c.shared.driverToken = false ∧ c.shared.waiters ≠ [] ∧ ∃ f ∈ c.frames, f.enqueueing = true

instance [DecidableEq V] (c : Config (Shared V) (Frame V)) (i : ℕ) :
    Decidable (SleepsUndriven c i) :=
  inferInstanceAs (Decidable (_ ∧ _))

instance [DecidableEq V] (c : Config (Shared V) (Frame V)) (i : ℕ) :
    Decidable (TakesUnnotified c i) :=
  have : Decidable (∃ f ∈ c.frames, f.enqueueing = true) := Multiset.decidableExistsMultiset
  inferInstanceAs (Decidable (_ ∧ _))

/-- **Sleeping workers are not always watched.** Worker 1 has lost the compare-and-swap to worker
0; worker 0 comes back from `drive_io`, releases the token and takes a task, whose `notify_one`
found nobody; then worker 1 goes to sleep. -/
theorem sleeps_unwatched : ∃ c : Config (Shared Unit) (Frame Unit), Reachable 2 1 c ∧
    Unwatched 2 c ∧ ∀ f ∈ c.frames, f.enqueueing = false := by
  obtain ⟨c, hc, hs, hw, ht, ⟨st, hst⟩, hen⟩ := exists_reachable 2 1
    [ -- worker 0 becomes the driver
      (0, .go), (0, .go), (0, .go), (0, .go), (0, .go), (0, .now 0), (0, .go), (0, .go),
      -- worker 1 finds no task and loses the token
      (1, .go), (1, .go), (1, .go),
      -- worker 0 returns and releases the token
      (0, .epoll false []), (0, .go), (0, .go), (0, .go), (0, .now 0), (0, .go), (0, .go),
      -- a task is spawned, which worker 0 takes
      (2, .call .spawn), (2, .go), (2, .go), (2, .go), (2, .go), (2, .go),
      (0, .go), (0, .go), (0, .go), (0, .go),
      -- worker 1 sees an empty queue and sleeps
      (1, .go), (1, .go), (1, .go)]
    (fun c : Config (Shared Unit) (Frame Unit) => c.shared.shutdown = false ∧
      c.shared.waiters = [1] ∧ c.shared.driverToken = false ∧
      (∃ st ∈ c.threads[0]?, atPoll 1 .polling ∈ st) ∧ ∀ f ∈ c.frames, f.enqueueing = false)
    (by decide)
  refine ⟨c, hc, ⟨hs, by simp [hw], ht, fun i hi hni => ?_⟩, hen⟩
  have hi0 : i = 0 := by
    rw [hw, List.mem_singleton] at hni
    omega
  subst hi0
  exact ⟨st, hst.1, _, hst.2, rfl⟩

section Step

variable {i : ℕ} {sh sh' : Shared V} {f : Frame V} {fs : List (Frame V)}

/-- The accounts of workers while some sleep: `p` workers poll, `e` notifications are to come.
Of the workers that are awake, one is left over for each task that is not notified for, and one
more; and one is left over anyway while nobody drives. -/
def WatchInv (n : ℕ) (sh : Shared V) (p e : ℕ) : Prop :=
  sh.shutdown = false → sh.waiters ≠ [] →
    1 + sh.readyQueue.queue.length + sh.waiters.length + p ≤ n + e ∧
      (sh.driverToken = false → 1 + sh.waiters.length + p ≤ n)

theorem Exec.watched (h : Exec i sh f sh' fs) {n : ℕ} (d p e : ℕ)
    (hduties : drives f + d + sh.waiters.length + (pollsTask f + p) ≤ n)
    (hduties' : (fs.map drives).sum + d + sh'.waiters.length + ((fs.map pollsTask).sum + p) ≤ n)
    (hdriver' : (fs.map drives).sum + d = ind sh'.driverToken)
    (hwait : f = .worker .wait → sh.driverToken = true ∧ sh.readyQueue.queue = [])
    (hdeq : f = .worker .dequeue → sh.readyQueue.queue ≠ [] → sh.driverToken = false →
      sh.waiters ≠ [] → notifies f + e = 0)
    (hI : WatchInv n sh (pollsTask f + p) (notifies f + e)) :
    WatchInv n sh' ((fs.map pollsTask).sum + p) ((fs.map notifies).sum + e) := by
  intro hs hw
  cases h
  case wait =>
    obtain ⟨ht, hq⟩ := hwait rfl
    simp [ht, hq, drives, pollsTask, notifies] at hduties' hdriver' ⊢
    omega
  case release =>
    obtain ⟨hJ, -⟩ := hI hs hw
    simp [drives, pollsTask, notifies] at hduties hJ ⊢
    omega
  case tokenWon h =>
    obtain ⟨hJ, -⟩ := hI hs hw
    exact ⟨hJ, fun ht => by cases ht⟩
  case dequeueSome x q hl h =>
    obtain ⟨hJ, -⟩ := hI hs hw
    have hq := ReadyQueue.dequeue_eq_some h
    have hzero := hdeq rfl (by simp [hq])
    rw [hq, List.length_cons] at hJ
    simp [pollsTask, notifies] at hJ hzero ⊢
    refine ⟨by omega, fun ht => ?_⟩
    have he := hzero ht hw
    omega
  case push x hl =>
    obtain ⟨hJ, hB⟩ := hI hs hw
    have hlen := sh.readyQueue.length_enqueue_le x
    simp [pollsTask, notifies] at hJ hB ⊢
    exact ⟨by omega, hB⟩
  case timedOut h | notifyOne _ _ h =>
    obtain ⟨hJ, hB⟩ := hI hs (List.ne_nil_of_mem h)
    have hlen := List.length_erase_of_mem h
    have hpos := List.length_pos_of_mem h
    simp [pollsTask, notifies] at hJ hB ⊢
    omega
  case notifyNone x h => exact absurd h hw
  case notifyAll x => exact absurd rfl hw
  case shutdownNotify => exact absurd rfl hw
  case shutdownStore => cases hs
  -- the end of a poll
  case notFound | casFailed | idled | storeScheduled =>
    obtain ⟨hJ, hB⟩ := hI hs hw
    simp [pollsTask, notifies, Shared.setStatus, Shared.modifyTask] at hJ hB ⊢
    refine ⟨by omega, fun ht => ?_⟩
    have hlt := hB ht
    omega
  case callSpawn p | callBlockOn p | callShutdown p => cases p <;> exact hI hs hw
  case callSleep p _ | callWake p _ _ | callPollSleep p _ _ _ _ => cases p <;> exact hI hs hw
  all_goals exact hI hs hw

end Step

section Run

variable {n m : ℕ} {c : Config (Shared V) (Frame V)}

/-- The accounts hold in runs in which no worker goes to sleep undriven or takes a task
unnotified. -/
theorem watchInv_of_reachesVia
    (h : (machine V).ReachesVia (fun d i _ => ¬ SleepsUndriven d i ∧ ¬ TakesUnnotified d i)
      (start V n m) c) :
    WatchInv n c.shared (weigh pollsTask c.frames) (weigh notifies c.frames) := by
  refine h.frame_invariant (I := fun sh F => WatchInv n sh (weigh pollsTask F) (weigh notifies F))
    (fun _ hw => absurd rfl hw) ?_
  intro c c' i x f fs R hc hc' hok htop hF hF' hex hI
  rw [weigh_cons, weigh_cons] at hI
  rw [weigh_coe_add, weigh_coe_add]
  have hduties := Reachable.duties_le hc
  have hduties' := Reachable.duties_le hc'
  have hel := Reachable.election hc
  have hdriver' := (Reachable.election hc').driver
  rw [hF, weigh_cons, weigh_cons] at hduties
  rw [hF', weigh_coe_add, weigh_coe_add] at hduties'
  rw [hF', weigh_coe_add] at hdriver'
  refine (exec_cases hex).watched (weigh drives R) _ _ hduties hduties' hdriver' ?_ ?_ hI
  · rintro rfl
    have hlock := hel.lock
    rw [hF, weigh_cons] at hlock
    refine ⟨?_, hel.locked (ind_pos_iff.mp ?_)⟩
    · by_contra hne
      exact hok.1 ⟨htop, by simpa using hne⟩
    · simp only [holdsQueue] at hlock
      omega
  · rintro rfl hq ht hw
    rw [← weigh_cons, ← hF, weigh_eq_zero_iff]
    intro g hg
    refine notifies_eq_zero ?_
    by_contra hne
    exact hok.2 ⟨htop, hq, ht, hw, g, hg, by simpa using hne⟩

/-- If every worker sleeps or polls, these are all workers. -/
theorem le_of_unwatched (h : Unwatched n c) :
    n ≤ c.shared.waiters.length + weigh pollsTask c.frames := by
  obtain ⟨-, -, -, hall⟩ := h
  have hsplit := List.length_eq_length_filter_add (l := List.range n)
    (fun i => decide (i ∈ c.shared.waiters))
  have hsleep : ((List.range n).filter fun i => decide (i ∈ c.shared.waiters)).length
      ≤ c.shared.waiters.length := by
    refine (List.subperm_of_subset (List.nodup_range.filter _) fun i hi => ?_).length_le
    exact of_decide_eq_true (List.mem_filter.mp hi).2
  have hpolls : ((List.range n).filter fun i => !decide (i ∈ c.shared.waiters)).length
      ≤ weigh pollsTask c.frames := by
    refine length_le_weigh pollsTask c _ (List.nodup_range.filter _) fun i hi => ?_
    obtain ⟨hi, hni⟩ := List.mem_filter.mp hi
    obtain ⟨st, hst, f, hf, hpoll⟩ := hall i (List.mem_range.mp hi) (by simpa using hni)
    refine ⟨st, hst, f, hf, ?_⟩
    unfold Frame.inPollTask at hpoll
    split at hpoll
    · exact Nat.one_pos
    · cases hpoll
  rw [List.length_range] at hsplit
  omega

/-- **Sleeping workers are watched** in every run in which no worker starts its wait on the
condvar while nobody holds the driver token, and no worker takes a task while nobody holds the
token, workers sleep and an enqueuer has pushed but not notified: then it never happens that a
worker sleeps, nobody holds the token and all other workers are polling tasks. -/
theorem sleepers_watched
    (h : (machine V).ReachesVia (fun d i _ => ¬ SleepsUndriven d i ∧ ¬ TakesUnnotified d i)
      (start V n m) c) : ¬ Unwatched n c := by
  intro hun
  have hle := le_of_unwatched hun
  obtain ⟨hs, hw, ht, -⟩ := hun
  have hlt := (watchInv_of_reachesVia h hs hw).2 ht
  omega

end Run

/-- Worker 1 sleeps, and worker 0 has just released the driver token. -/
theorem sleepers_watched_released : ∃ c : Config (Shared Unit) (Frame Unit),
    c.shared.waiters = [1] ∧ c.shared.driverToken = false ∧ ¬ Unwatched 2 c := by
  obtain ⟨c, hc, hw, ht⟩ := Machine.exists_reachesVia_of_run (M := machine Unit)
    [(0, .go), (0, .go), (0, .go), (0, .go), (0, .go), (0, .now 0), (0, .go), (0, .go),
      (1, .go), (1, .go), (1, .go), (1, .go), (1, .go), (1, .go),
      (0, .epoll false []), (0, .go), (0, .go), (0, .go), (0, .now 0), (0, .go), (0, .go)]
    (fun c : Config (Shared Unit) (Frame Unit) => c.shared.waiters = [1] ∧
      c.shared.driverToken = false)
    (by decide : ((machine Unit).run
      (fun d i _ => ¬ SleepsUndriven d i ∧ ¬ TakesUnnotified d i) (start Unit 2 1) _).any _ = true)
  exact ⟨c, hw, ht, sleepers_watched hc⟩

end MiniAsync.MultiThread
