/-
  The election of the I/O driver: who holds the queue mutex, who holds the
  driver token, and what the holder knows of the ready queue.

  A worker that is on its way to `epoll_wait` has seen the queue empty while it
  held the token. A task pushed since then was pushed by a thread that reads the
  token after its push, so it finds the token taken and wakes the reactor: the
  eventfd is readable, or that thread is still about to make it so.
-/
import MiniAsync.MultiThread.Inv.Exec

namespace MiniAsync.MultiThread

open Interleave

variable {V : Type}

/-! ### What a frame holds -/

/-- One for a worker that holds the queue mutex. -/
def holdsQueue : Frame V → ℕ
  | .worker .checkShutdown | .worker .wait => 1
  | _ => 0

/-- One for a worker between its compare-and-swap on the driver token and its store. -/
def drives : Frame V → ℕ
  | .worker .recheck | .worker .release | .worker (.driveIo _) => 1
  | _ => 0

/-- One for a worker that has entered `drive_io` and has not come back from `epoll_wait`. -/
def headsForWait : Frame V → ℕ
  | .worker (.driveIo (.process again _)) => ind (!again)
  | .worker (.driveIo (.hasPending _ _)) | .worker (.driveIo (.epollWait _ _)) => 1
  | _ => 0

/-- One for a call of `enqueue_task` that has pushed and may still wake the reactor. -/
def announces : Frame V → ℕ
  | .enqueue _ .loadToken | .enqueue _ .wakeReactor => 1
  | _ => 0

/-- One for a call of `enqueue_task` between its push and its `notify_one`. -/
def notifies : Frame V → ℕ
  | .enqueue _ .loadToken | .enqueue _ .wakeReactor | .enqueue _ .notifyOne => 1
  | _ => 0

theorem headsForWait_le (f : Frame V) : headsForWait f ≤ drives f := by
  unfold headsForWait
  split
  · exact ind_le_one _
  · exact Nat.le_refl 1
  · exact Nat.le_refl 1
  · exact Nat.zero_le _

theorem announces_le (f : Frame V) : announces f ≤ notifies f := by
  unfold announces
  split
  · exact Nat.le_refl 1
  · exact Nat.le_refl 1
  · exact Nat.zero_le _

section Step

variable {i : ℕ} {sh sh' : Shared V} {f : Frame V} {fs : List (Frame V)}

/-- The queue mutex is taken and released together with its flag. -/
theorem Exec.holdsQueue_eq (h : Exec i sh f sh' fs)
    (hf : 0 < holdsQueue f → sh.queueLocked = true) :
    (fs.map holdsQueue).sum + ind sh.queueLocked = holdsQueue f + ind sh'.queueLocked := by
  cases h
  case lockEmpty hl _ =>
    rw [hl]
    rfl
  case sleepExit | wait =>
    rw [hf Nat.one_pos]
    rfl
  case callSpawn p | callBlockOn p | callShutdown p => cases p <;> rfl
  case callSleep p _ | callWake p _ _ | callPollSleep p _ _ _ _ => cases p <;> rfl
  all_goals rfl

/-- The driver token is taken and released together with its flag. -/
theorem Exec.drives_eq (h : Exec i sh f sh' fs) (hf : 0 < drives f → sh.driverToken = true) :
    (fs.map drives).sum + ind sh.driverToken = drives f + ind sh'.driverToken := by
  cases h
  case tokenWon h =>
    rw [h]
    rfl
  case release =>
    rw [hf Nat.one_pos]
    rfl
  case callSpawn p | callBlockOn p | callShutdown p => cases p <;> rfl
  case callSleep p _ | callWake p _ _ | callPollSleep p _ _ _ _ => cases p <;> rfl
  all_goals rfl

/-- Nothing is pushed while a worker holds the queue mutex. -/
theorem Exec.locked_queue (h : Exec i sh f sh' fs)
    (hI : sh.queueLocked = true → sh.readyQueue.queue = []) :
    sh'.queueLocked = true → sh'.readyQueue.queue = [] := by
  cases h
  case lockEmpty hl h => exact fun _ => h
  case dequeueSome x q hl h => exact fun ht => absurd ht (by simp [hl])
  case push x hl => exact fun ht => absurd ht (by simp [hl])
  case sleepExit | wait => exact fun ht => nomatch ht
  all_goals exact hI

/-- What a worker on its way to `epoll_wait` knows of the queue. Here `a` and `b` are the weights
of the frames of the other threads. -/
theorem Exec.announced (h : Exec i sh f sh' fs) (a b : ℕ)
    (hd : 0 < drives f → a = 0) (ht : sh.driverToken = false → headsForWait f + a = 0)
    (hI : 0 < headsForWait f + a → sh.readyQueue.queue ≠ [] →
      0 < sh.eventfd ∨ 0 < announces f + b) :
    0 < (fs.map headsForWait).sum + a → sh'.readyQueue.queue ≠ [] →
      0 < sh'.eventfd ∨ 0 < (fs.map announces).sum + b := by
  intro hpos hq
  cases h
  case recheckEmpty hl h => exact absurd h hq
  case push x hl => exact Or.inr (by simp [announces])
  case enqueueWake x => exact Or.inl (Shared.reactorWake_pos sh)
  case sleepWake k => exact Or.inl (Shared.reactorWake_pos sh)
  case shutdownWake => exact Or.inl (Shared.reactorWake_pos sh)
  case noToken x h =>
    have hzero := ht h
    simp [headsForWait] at hpos hzero
    omega
  case collect ready ws =>
    have hzero := hd (by simp [drives])
    simp [headsForWait] at hpos
    omega
  case dequeueSome x q hl h =>
    have hne : sh.readyQueue.queue ≠ [] := by simp [ReadyQueue.dequeue_eq_some h]
    exact hI hpos hne
  case epollReturn now timeout ready ws h hws =>
    have hzero := hd (by simp [drives])
    simp [headsForWait] at hpos
    omega
  case complete again known now e => cases again <;> exact hI hpos hq
  case callSpawn p | callBlockOn p | callShutdown p => cases p <;> exact hI hpos hq
  case callSleep p _ | callWake p _ _ | callPollSleep p _ _ _ _ => cases p <;> exact hI hpos hq
  all_goals exact hI hpos hq

end Step

/-- The election of the driver, over all threads. -/
structure Election (sh : Shared V) (F : Multiset (Frame V)) : Prop where
  /-- The queue mutex is held by one worker if the flag is set, and by none otherwise. -/
  lock : weigh holdsQueue F = ind sh.queueLocked
  locked : sh.queueLocked = true → sh.readyQueue.queue = []
  /-- The driver token is held by one worker if the flag is set, and by none otherwise. -/
  driver : weigh drives F = ind sh.driverToken
  /-- When a worker heads for `epoll_wait` and a task is queued, the reactor was woken or is
  about to be. -/
  announced : 0 < weigh headsForWait F → sh.readyQueue.queue ≠ [] →
    0 < sh.eventfd ∨ 0 < weigh announces F

/-- **The election is sound** in every reachable configuration. -/
theorem Reachable.election {n m : ℕ} {c : Config (Shared V) (Frame V)} (h : Reachable n m c) :
    Election c.shared c.frames := by
  refine h.invariant ⟨?_, fun _ => rfl, ?_, ?_⟩ ?_
  · rw [weigh_start]
    rfl
  · rw [weigh_start]
    rfl
  · intro _ hq
    exact absurd rfl hq
  · rintro c c' i f fs R - - - - hex ⟨hlock, hlocked, hdriver, hann⟩
    simp only [weigh_cons] at hlock hdriver hann
    have hle := weigh_le_weigh headsForWait_le R
    have hlef := headsForWait_le f
    have hlock' := hex.holdsQueue_eq fun hf => ind_pos_iff.mp (by omega)
    have hdrive' := hex.drives_eq fun hf => ind_pos_iff.mp (by omega)
    have hone := ind_le_one c.shared.driverToken
    refine ⟨?_, hex.locked_queue hlocked, ?_, ?_⟩
    · rw [weigh_coe_add]
      omega
    · rw [weigh_coe_add]
      omega
    · rw [weigh_coe_add, weigh_coe_add]
      refine hex.announced _ _ (fun hf => by omega) (fun ht => ?_) hann
      rw [ht, ind_false] at hdriver
      omega

end MiniAsync.MultiThread
