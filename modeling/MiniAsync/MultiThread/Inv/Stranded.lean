/-
  No work is stranded: when a task is queued and every enqueuer has notified,
  some worker is neither asleep on the condvar nor blocked in `epoll_wait`.

  `enqueue_task` notifies one waiter after its push, and a worker goes to sleep
  under the queue mutex with the queue empty. So while the queue is not empty
  the waiters are fewer than the workers, up to the notifications that are still
  to come.
-/
import MiniAsync.MultiThread.Inv.Workers

namespace MiniAsync.MultiThread

open Interleave

variable {V : Type}

section Step

variable {i : ℕ} {sh sh' : Shared V} {f : Frame V} {fs : List (Frame V)}

/-- A task is queued: waiters and workers are compared. Here `b` counts the calls of
`enqueue_task` of the other threads between push and notification. -/
theorem Exec.waiters_lt (h : Exec i sh f sh' fs) {n : ℕ} (hn : 1 ≤ n) (b : ℕ)
    (hle : sh.waiters.length ≤ n) (hlock : 0 < holdsQueue f → sh.readyQueue.queue = [])
    (hI : sh.readyQueue.queue ≠ [] → sh.waiters.length < n + (notifies f + b))
    (hq : sh'.readyQueue.queue ≠ []) :
    sh'.waiters.length < n + ((fs.map notifies).sum + b) := by
  cases h
  case wait => exact absurd (hlock Nat.one_pos) hq
  case push x hl =>
    simp [notifies]
    omega
  case dequeueSome x q hl h => exact hI (by simp [ReadyQueue.dequeue_eq_some h])
  case timedOut h =>
    have hlt := hI hq
    rw [List.length_erase_of_mem h]
    simp [notifies] at hlt ⊢
    omega
  case notifyOne x j h =>
    have hlt := hI hq
    have hpos := List.length_pos_of_mem h
    rw [List.length_erase_of_mem h]
    simp [notifies] at hlt ⊢
    omega
  case notifyNone x h =>
    simp [h]
    omega
  case notifyAll | shutdownNotify => exact Nat.lt_of_lt_of_le hn (Nat.le_add_right _ _)
  case callSpawn p | callBlockOn p | callShutdown p => cases p <;> exact hI hq
  case callSleep p _ | callWake p _ _ | callPollSleep p _ _ _ _ => cases p <;> exact hI hq
  all_goals exact hI hq

end Step

section Run

variable {n m : ℕ} {c : Config (Shared V) (Frame V)}

theorem Reachable.waiters_lt (hn : 1 ≤ n) (h : Reachable n m c)
    (hq : c.shared.readyQueue.queue ≠ []) :
    c.shared.waiters.length < n + weigh notifies c.frames := by
  refine h.invariant (I := fun sh F => sh.readyQueue.queue ≠ [] →
    sh.waiters.length < n + weigh notifies F) (fun hne => absurd rfl hne) ?_ hq
  intro c c' i f fs R hc _ hF _ hex hI
  rw [weigh_cons] at hI
  rw [weigh_coe_add]
  have hduties := hc.duties_le
  have hel := hc.election
  refine hex.waiters_lt hn _ (by omega) (fun hpos => hel.locked (ind_pos_iff.mp ?_)) hI
  have hlock := hel.lock
  rw [hF, weigh_cons] at hlock
  omega

/-- The frame is a worker at `epoll_wait`. -/
def Frame.atEpollWait : Frame V → Bool
  | .worker (.driveIo (.epollWait _ _)) => true
  | _ => false

/-- The frame is a call of `enqueue_task` between its push and its `notify_one`. -/
def Frame.enqueueing : Frame V → Bool
  | .enqueue _ .loadToken | .enqueue _ .wakeReactor | .enqueue _ .notifyOne => true
  | _ => false

theorem notifies_eq_zero {f : Frame V} (h : f.enqueueing = false) : notifies f = 0 := by
  unfold Frame.enqueueing at h
  unfold notifies
  split <;> simp_all

theorem headsForWait_of_atEpollWait {f : Frame V} (h : f.atEpollWait = true) :
    headsForWait f = 1 := by
  unfold Frame.atEpollWait at h
  split at h
  · rfl
  · cases h

/-- Fewer entries than `n` leave one of the first `n` numbers out. -/
theorem exists_lt_not_mem {n : ℕ} {l : List ℕ} (h : l.length < n) : ∃ i < n, i ∉ l := by
  by_contra hne
  push Not at hne
  have hsub : List.range n ⊆ l := fun i hi => hne i (List.mem_range.mp hi)
  have hle := (List.subperm_of_subset List.nodup_range hsub).length_le
  rw [List.length_range] at hle
  omega

/-- **No stranded work.** While `shutdown` is not set, a task is queued and no call of
`enqueue_task` is between its push and its `notify_one`: a worker at `epoll_wait` has a readable
eventfd, and some worker is neither waiting on the condvar nor blocked in `epoll_wait`. -/
theorem no_stranded_work (hn : 1 ≤ n) (h : Reachable n m c) (hs : c.shared.shutdown = false)
    (hq : c.shared.readyQueue.queue ≠ []) (he : ∀ f ∈ c.frames, f.enqueueing = false) :
    (∀ f ∈ c.frames, f.atEpollWait = true → 0 < c.shared.eventfd) ∧
    ∃ i < n, ∃ f, c.top i = some f ∧ i ∉ c.shared.waiters ∧
      ¬ (f.atEpollWait = true ∧ c.shared.eventfd = 0) := by
  have hnotifies : weigh notifies c.frames = 0 :=
    (weigh_eq_zero_iff _ _).mpr fun f hf => notifies_eq_zero (he f hf)
  have hwait : ∀ f ∈ c.frames, f.atEpollWait = true → 0 < c.shared.eventfd := by
    intro f hf hep
    have hheads := le_weigh headsForWait hf
    rw [headsForWait_of_atEpollWait hep] at hheads
    have hann := weigh_le_weigh announces_le c.frames
    rcases h.election.announced hheads hq with hfd | hpos
    · exact hfd
    · omega
  refine ⟨hwait, ?_⟩
  have hlt := h.waiters_lt hn hq
  obtain ⟨i, hi, hni⟩ := exists_lt_not_mem (l := c.shared.waiters) (n := n) (by omega)
  obtain ⟨f, hf⟩ := h.worker_alive hs hi
  refine ⟨i, hi, f, hf, hni, fun ⟨hep, hzero⟩ => ?_⟩
  have hpos := hwait f (mem_frames_of_top hf) hep
  omega

end Run

/-- A task is spawned while the only worker is blocked in `epoll_wait`. -/
theorem no_stranded_work_spawn : ∃ c : Config (Shared Unit) (Frame Unit), Reachable 1 1 c ∧
    c.shared.readyQueue.queue = [1] ∧ c.top 0 = some (atDrive (.epollWait 0 5000000)) ∧
    (∀ f ∈ c.frames, f.atEpollWait = true → 0 < c.shared.eventfd) ∧
    ∃ i < 1, ∃ f, c.top i = some f ∧ i ∉ c.shared.waiters ∧
      ¬ (f.atEpollWait = true ∧ c.shared.eventfd = 0) := by
  obtain ⟨c, hc, hq, htop, hs, he⟩ := exists_reachable 1 1
    [(0, .go), (0, .go), (0, .go), (0, .go), (0, .go), (0, .now 0), (0, .go), (0, .go),
      (1, .call .spawn), (1, .go), (1, .go), (1, .go), (1, .go), (1, .go), (1, .go)]
    (fun c : Config (Shared Unit) (Frame Unit) => c.shared.readyQueue.queue = [1] ∧
      c.top 0 = some (atDrive (.epollWait 0 5000000)) ∧ c.shared.shutdown = false ∧
      ∀ f ∈ c.frames, f.enqueueing = false)
    (by decide)
  exact ⟨c, hc, hq, htop, no_stranded_work (Nat.le_refl 1) hc hs (by simp [hq]) he⟩

end MiniAsync.MultiThread
