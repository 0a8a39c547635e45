/-
  `shutdown` and a driver in `epoll_wait`. The wake that `shutdown` gives to the
  reactor is one count of the eventfd, which the first driver to come back
  drains. A worker that loaded `shutdown = false` before and takes the driver
  token afterwards looks at the queue only, and may block in `epoll_wait` with
  the wake gone.

  So the wake reaches every blocked driver in the runs in which no worker enters
  `drive_io` after that wake was drained, and not in all runs.
-/
import MiniAsync.MultiThread.Inv.Stranded

namespace MiniAsync.MultiThread

open Interleave

variable {V : Type}

/-- Thread `i` is about to enter `drive_io` although `shutdown` has already woken the reactor and
that wake has been drained. -/
def EntersDrained (c : Config (Shared V) (Frame V)) (i : ℕ) : Prop :=
  c.top i = some (.worker .recheck) ∧ c.shared.readyQueue.queue = [] ∧
    c.shared.shutdownWoken = true ∧ c.shared.eventfd = 0

instance [DecidableEq V] (c : Config (Shared V) (Frame V)) (i : ℕ) :
    Decidable (EntersDrained c i) :=
  inferInstanceAs (Decidable (_ ∧ _))

/-- **Shutdown does not always reach the driver.** Two workers and a timer that is far away:
`shutdown` has set the flag, notified the condvar and woken the reactor and joins the worker 1,
which is blocked in `epoll_wait` until the timer's deadline. -/
theorem shutdown_misses_driver : ∃ c : Config (Shared Unit) (Frame Unit), Reachable 2 1 c ∧
    c.shared.shutdownWoken = true ∧ c.shared.eventfd = 0 ∧
    c.top 1 = some (atDrive (.epollWait 0 3600000000000)) ∧
    c.top 2 = some (.shutdown (.join [1])) := by
  obtain ⟨c, hc, h⟩ := exists_reachable 2 1
    [(2, .call (.sleep 3600000000000)), (2, .now 0), (2, .go), (2, .go),
      -- worker 1 loads the flag
      (1, .go),
      -- worker 0 becomes the driver and blocks in `epoll_wait`
      (0, .go), (0, .go), (0, .go), (0, .go), (0, .go), (0, .now 0), (0, .pick 0), (0, .go),
      (2, .call .shutdown), (2, .go), (2, .go), (2, .go), (2, .go),
      -- worker 0 returns, drains the eventfd and ends
      (0, .epoll true []), (0, .go), (0, .go), (0, .go), (0, .now 0), (0, .pick 0), (0, .go),
      (0, .go), (2, .go),
      -- worker 1 finds no task, takes the token and blocks
      (1, .go), (1, .go), (1, .go), (1, .go), (1, .now 0), (1, .pick 0), (1, .go)]
    (fun c : Config (Shared Unit) (Frame Unit) =>
      c.shared.shutdownWoken = true ∧ c.shared.eventfd = 0 ∧
      c.top 1 = some (atDrive (.epollWait 0 3600000000000)) ∧
      c.top 2 = some (.shutdown (.join [1])))
    (by decide)
  exact ⟨c, hc, h⟩

section Step

variable {i : ℕ} {sh sh' : Shared V} {f : Frame V} {fs : List (Frame V)}

/-- After the wake of `shutdown`, a worker on its way to `epoll_wait` has a readable eventfd. -/
theorem Exec.shutdown_woken (h : Exec i sh f sh' fs) (a : ℕ) (hd : 0 < drives f → a = 0)
    (hok : f = .worker .recheck → sh.readyQueue.queue = [] → sh.shutdownWoken = true →
      0 < sh.eventfd)
    (hI : sh.shutdownWoken = true → 0 < headsForWait f + a → 0 < sh.eventfd)
    (hw : sh'.shutdownWoken = true) (hpos : 0 < (fs.map headsForWait).sum + a) :
    0 < sh'.eventfd := by
  cases h
  case recheckEmpty hl h => exact hok rfl h hw
  case enqueueWake | sleepWake | shutdownWake => exact Shared.reactorWake_pos sh
  case collect | epollReturn =>
    have hzero := hd (by simp [drives])
    simp [headsForWait] at hpos
    omega
  case complete again known now e => cases again <;> exact hI hw hpos
  case callSpawn p | callBlockOn p | callShutdown p => cases p <;> exact hI hw hpos
  case callSleep p _ | callWake p _ _ | callPollSleep p _ _ _ _ => cases p <;> exact hI hw hpos
  all_goals exact hI hw hpos

end Step

/-- **Shutdown reaches the driver** in every run in which no worker enters `drive_io` after
`shutdown` has woken the reactor and that wake has been drained: then no worker is blocked in
`epoll_wait` with the eventfd at zero once `shutdown` has set the flag, notified the condvar and
woken the reactor. -/
theorem shutdown_reaches_driver {n m : ℕ} {c : Config (Shared V) (Frame V)}
    (h : (machine V).ReachesVia (fun d i _ => ¬ EntersDrained d i) (start V n m) c)
    (hw : c.shared.shutdownWoken = true) :
    ∀ f ∈ c.frames, f.atEpollWait = true → 0 < c.shared.eventfd := by
  have hinv : c.shared.shutdownWoken = true → 0 < weigh headsForWait c.frames →
      0 < c.shared.eventfd := by
    refine h.frame_invariant (I := fun sh F => sh.shutdownWoken = true →
      0 < weigh headsForWait F → 0 < sh.eventfd) (fun hw => nomatch hw) ?_
    intro c c' i x f fs R hc _ hok htop hF _ hex hI hw' hpos
    rw [weigh_cons] at hI
    rw [weigh_coe_add] at hpos
    have hdriver := (Reachable.election hc).driver
    rw [hF, weigh_cons] at hdriver
    have hone := ind_le_one c.shared.driverToken
    have hle := weigh_le_weigh headsForWait_le R
    refine (exec_cases hex).shutdown_woken _ (fun hf => by omega) ?_ hI hw' hpos
    rintro rfl hq hwoken
    by_contra hzero
    exact hok ⟨htop, hq, hwoken, by omega⟩
  intro f hf hep
  have hheads := le_weigh headsForWait hf
  rw [headsForWait_of_atEpollWait hep] at hheads
  exact hinv hw hheads

/-- `shutdown` comes while the only worker is blocked in `epoll_wait`. -/
theorem shutdown_reaches_driver_blocked : ∃ c : Config (Shared Unit) (Frame Unit),
    c.shared.shutdownWoken = true ∧ c.top 0 = some (atDrive (.epollWait 0 5000000)) ∧
      ∀ f ∈ c.frames, f.atEpollWait = true → 0 < c.shared.eventfd := by
  obtain ⟨c, hc, hw, htop⟩ := Machine.exists_reachesVia_of_run (M := machine Unit)
    [(0, .go), (0, .go), (0, .go), (0, .go), (0, .go), (0, .now 0), (0, .go), (0, .go),
      (1, .call .shutdown), (1, .go), (1, .go), (1, .go)]
    (fun c : Config (Shared Unit) (Frame Unit) => c.shared.shutdownWoken = true ∧
      c.top 0 = some (atDrive (.epollWait 0 5000000)))
    (by decide : ((machine Unit).run (fun d i _ => ¬ EntersDrained d i) (start Unit 1 1) _).any _
      = true)
  exact ⟨c, hw, htop, shutdown_reaches_driver hc hw⟩

end MiniAsync.MultiThread
