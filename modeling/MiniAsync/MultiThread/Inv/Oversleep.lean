/-
  The driver's timeout. A driver computes it from the heap as `process` has left
  it, while other threads register timers; a registration ends with a wake of
  the reactor, and whoever reads the eventfd drains the inbox before anybody can
  wait again.
-/
import MiniAsync.MultiThread.Inv.Timers

namespace MiniAsync.MultiThread

open Interleave

variable {V : Type}

/-- One for a driver that has read the eventfd and will drain the inbox before it waits again. -/
def drainsInbox : Frame V → ℕ
  | .worker (.driveIo (.wakeAll _)) => 1
  | .worker (.driveIo (.process again .drain)) => ind again
  | _ => 0

theorem drainsInbox_le_drives (f : Frame V) : drainsInbox f ≤ drives f := by
  unfold drainsInbox
  split
  · exact Nat.le_refl _
  · exact ind_le_one _
  · exact Nat.zero_le _

/-- While a timer whose `sleep` has returned is in the inbox, the eventfd is readable, or the
driver that has read it will drain the inbox. -/
def TimerAnnounced (k : ℕ) (sh : Shared V) (F : Multiset (Frame V)) : Prop :=
  k ∈ sh.timerHist.returned → 0 < occurs k sh.inbox → 0 < sh.eventfd ∨ 0 < weigh drainsInbox F

section Step

variable {i : ℕ} {sh sh' : Shared V} {f : Frame V} {fs : List (Frame V)}

theorem WheelOk.mem_inbox (h : WheelOk sh) {e : TimerEntry} (he : e ∈ sh.timerHist.registered)
    (hpos : 0 < occurs e.id sh.inbox) : e ∈ sh.inbox := by
  obtain ⟨e', he', hid⟩ := List.countP_pos_iff.mp hpos
  obtain rfl := h.eq_of_id (h.inbox e' he') he (of_decide_eq_true hid)
  exact he'

theorem WheelOk.mem_heap (h : WheelOk sh) {e : TimerEntry} (he : e ∈ sh.timerHist.registered)
    (hpos : 0 < occurs e.id sh.heap) : e ∈ sh.heap := by
  obtain ⟨e', he', hid⟩ := List.countP_pos_iff.mp hpos
  obtain rfl := h.eq_of_id (h.heap e' he') he (of_decide_eq_true hid)
  exact he'

theorem Exec.timer_announced (h : Exec i sh f sh' fs) (k r : ℕ) (hW : WheelOk sh)
    (hI : k ∈ sh.timerHist.returned → 0 < occurs k sh.inbox →
      0 < sh.eventfd ∨ 0 < drainsInbox f + r) :
    k ∈ sh'.timerHist.returned → 0 < occurs k sh'.inbox →
      0 < sh'.eventfd ∨ 0 < (fs.map drainsInbox).sum + r := by
  cases h
  case drain again => exact fun _ hin => absurd hin (Nat.lt_irrefl 0)
  case collect eventfdReady ws => exact fun _ _ => Or.inr (by simp [drainsInbox])
  case wakeAllNext w ws => exact fun _ _ => Or.inr (by simp [drainsInbox])
  case enqueueWake x => exact fun _ _ => Or.inl sh.reactorWake_pos
  case sleepWake k' => exact fun _ _ => Or.inl sh.reactorWake_pos
  case shutdownWake => exact fun _ _ => Or.inl sh.reactorWake_pos
  case sleepRegister d =>
    -- the new timer is not announced yet
    intro hret hin
    have hlt := hW.returned k hret
    refine hI hret ?_
    rw [occurs_append] at hin
    have hzero : occurs k [⟨d, sh.timerCount⟩] = 0 :=
      occurs_eq_zero_iff.mpr fun e he => by
        obtain rfl := List.mem_singleton.mp he
        exact Nat.ne_of_gt hlt
    omega
  case callSpawn p | callBlockOn p | callShutdown p => cases p <;> exact hI
  case callSleep p _ | callWake p _ _ | callPollSleep p _ _ _ _ => cases p <;> exact hI
  all_goals exact hI

end Step

section Run

variable {n m : ℕ} {c : Config (Shared V) (Frame V)}

theorem Reachable.timer_announced (h : Reachable n m c) (k : ℕ) :
    TimerAnnounced k c.shared c.frames := by
  refine h.invariant (I := TimerAnnounced k) (fun hk => nomatch hk) ?_
  intro c c' i f fs R hc _ hF _ hex hI
  obtain ⟨hW, -⟩ := hc.timerOk
  rw [TimerAnnounced, weigh_cons] at hI
  rw [TimerAnnounced, weigh_coe_add]
  exact hex.timer_announced k _ hW hI

/-- **A driver never oversleeps a timer.** While a driver waits in `epoll_wait`, with the clock
reading `now` of its `process` call and the timeout it computed from it, every timer whose `sleep`
has returned and that is not fired is in the heap with a deadline that is not before the end of
the timeout, or it is in the inbox and the eventfd is readable. -/
theorem never_oversleeps (h : Reachable n m c) {now timeout : ℕ}
    (hwait : atDrive (.epollWait now timeout) ∈ c.frames) {e : TimerEntry}
    (he : e ∈ c.shared.timerHist.registered) (hret : e.id ∈ c.shared.timerHist.returned)
    (hfired : e.id ∉ c.shared.timerHist.fired) :
    (e ∈ c.shared.heap ∧ now + timeout ≤ e.deadline)
      ∨ (e ∈ c.shared.inbox ∧ 0 < c.shared.eventfd) := by
  obtain ⟨hW, hok⟩ := h.timerOk
  have hplace := h.timer_place e.id
  rw [if_pos (hW.id_lt he), List.count_eq_zero_of_not_mem hfired,
    h.not_fires hwait rfl (fun _ => rfl)] at hplace
  rcases Nat.eq_zero_or_pos (occurs e.id c.shared.heap) with hzero | hpos
  · -- in the inbox, and nobody is about to drain it: its announcement is in the eventfd
    have hin : 0 < occurs e.id c.shared.inbox := by omega
    obtain ⟨R, hF⟩ := Multiset.exists_cons_of_mem hwait
    have hdrains : weigh drainsInbox c.frames = 0 := by
      rw [hF, weigh_cons, Nat.add_eq_zero_iff]
      refine ⟨rfl, (weigh_eq_zero_iff _ _).mpr fun g hg => ?_⟩
      have hone := h.drives_le_one hF hg
      have hle := drainsInbox_le_drives g
      change 1 + drives g ≤ 1 at hone
      omega
    rcases h.timer_announced e.id hret hin with hfd | hpos
    · exact Or.inr ⟨hW.mem_inbox he hin, hfd⟩
    · omega
  · have hmem := hW.mem_heap he hpos
    exact Or.inl ⟨hmem, hok _ hwait e hmem⟩

/-- The driver waits for the timer `0`; the timer `1`, which is due earlier, was registered after
the drain of the inbox. -/
theorem never_oversleeps_registered : ∃ c : Config (Shared Unit) (Frame Unit),
    c.top 0 = some (atDrive (.epollWait 0 100)) ∧ c.shared.timerHist.returned = [1, 0] ∧
      ((⟨1, 1⟩ ∈ c.shared.heap ∧ 0 + 100 ≤ 1)
        ∨ ((⟨1, 1⟩ : TimerEntry) ∈ c.shared.inbox ∧ 0 < c.shared.eventfd)) := by
  obtain ⟨c, hc, htop, hreg, hret, hfired⟩ := exists_reachable 1 1
    [(1, .call (.sleep 100)), (1, .now 0), (1, .go), (1, .go),
      (0, .go), (0, .go), (0, .go), (0, .go), (0, .go), (0, .now 0), (0, .pick 0), (0, .go),
      (1, .call (.sleep 1)), (1, .now 0), (1, .go), (1, .go)]
    (fun c : Config (Shared Unit) (Frame Unit) => c.top 0 = some (atDrive (.epollWait 0 100)) ∧
      ⟨1, 1⟩ ∈ c.shared.timerHist.registered ∧ c.shared.timerHist.returned = [1, 0] ∧
      c.shared.timerHist.fired = [])
    (by decide)
  exact ⟨c, htop, hret, never_oversleeps hc (mem_frames_of_top htop) hreg (by simp [hret])
    (by simp [hfired])⟩

end Run

end MiniAsync.MultiThread
