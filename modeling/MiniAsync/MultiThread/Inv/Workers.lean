/-
  The worker threads, counted: no worker is ever added, none ends before
  `shutdown` is set, and the threads that wait on the condvar are workers at
  their wait.
-/
import MiniAsync.MultiThread.Inv.Election

namespace MiniAsync.MultiThread

open Interleave

variable {V : Type}

/-- One for the frame at the bottom of a worker's stack. -/
def works : Frame V → ℕ
  | .worker _ => 1
  | _ => 0

/-- One for a worker inside the condvar's wait. -/
def sleeps : Frame V → ℕ
  | .worker .waiting => 1
  | _ => 0

/-- One for a worker inside `poll_task`. -/
def pollsTask : Frame V → ℕ
  | .worker (.pollTask _ _) => 1
  | _ => 0

/-- A worker drives, sleeps or polls, or does none of it. -/
theorem duties_le (f : Frame V) : drives f + sleeps f + pollsTask f ≤ works f := by
  cases f with
  | worker pc => cases pc <;> simp [drives, sleeps, pollsTask, works]
  | _ => exact Nat.le_refl 0

section Step

variable {i : ℕ} {sh sh' : Shared V} {f : Frame V} {fs : List (Frame V)}

theorem Exec.works_le (h : Exec i sh f sh' fs) : (fs.map works).sum ≤ works f := by
  cases h
  case callSpawn p | callBlockOn p | callShutdown p => cases p <;> exact Nat.le_refl _
  case callSleep p _ | callWake p _ _ | callPollSleep p _ _ _ _ => cases p <;> exact Nat.le_refl _
  case topExit | sleepExit => exact Nat.zero_le 1
  all_goals exact Nat.le_refl _

/-- A worker goes on until it has seen `shutdown`. -/
theorem Exec.works_ge (h : Exec i sh f sh' fs) :
    works f ≤ (fs.map works).sum ∨ sh'.shutdown = true := by
  cases h
  case topExit h => exact Or.inr h
  case sleepExit h => exact Or.inr h
  case callSpawn p | callBlockOn p | callShutdown p => cases p <;> exact Or.inl (Nat.le_refl _)
  case callSleep p _ | callWake p _ _ | callPollSleep p _ _ _ _ =>
    cases p <;> exact Or.inl (Nat.le_refl _)
  all_goals exact Or.inl (Nat.le_refl _)

/-- `shutdown` is never reset. -/
theorem Exec.shutdown_mono (h : Exec i sh f sh' fs) (hs : sh.shutdown = true) :
    sh'.shutdown = true := by
  cases h
  case shutdownStore => rfl
  all_goals exact hs

/-- A thread joins the waiters by waiting, and only then; any step may take waiters out. -/
theorem Exec.waiters_cases (h : Exec i sh f sh' fs) :
    sh'.waiters.Sublist sh.waiters ∨
      (f = .worker .wait ∧ fs = [.worker .waiting] ∧ sh'.waiters = sh.waiters ++ [i]) := by
  cases h
  case wait => exact Or.inr ⟨rfl, rfl, rfl⟩
  case timedOut h => exact Or.inl List.erase_sublist
  case notifyOne x j h => exact Or.inl List.erase_sublist
  case notifyAll x => exact Or.inl (List.nil_sublist _)
  case shutdownNotify => exact Or.inl (List.nil_sublist _)
  all_goals exact Or.inl (List.Sublist.refl _)

/-- A waiter that goes on is a waiter no more. -/
theorem Exec.waiters_of_waiting (h : Exec i sh f sh' fs) (hf : f = .worker .waiting)
    (hi : i ∈ sh.waiters) : sh'.waiters = sh.waiters.erase i := by
  cases h
  case timedOut => rfl
  case notified h => exact absurd hi h
  all_goals first | cases hf | exact absurd hf (baseFrame_ne (by simp) (by simp))

end Step

/-- The waiters are workers at their wait, each listed once. -/
structure Sleepers (c : Config (Shared V) (Frame V)) : Prop where
  nodup : c.shared.waiters.Nodup
  top : ∀ i ∈ c.shared.waiters, c.top i = some (.worker .waiting)

theorem Reachable.sleepers {n m : ℕ} {c : Config (Shared V) (Frame V)} (h : Reachable n m c) :
    Sleepers c := by
  refine Machine.ReachesVia.invariant h ⟨List.nodup_nil, fun i hi => nomatch hi⟩ ?_
  rintro c c' i x - - hs ⟨hnodup, htop⟩
  obtain ⟨f, k, fs, R, hi, hex, hthreads, -, -⟩ := Machine.step_cases hs
  have hex := exec_cases hex
  have hf : c.top i = some f := by simp [Config.top, hi]
  rcases hex.waiters_cases with hsub | ⟨rfl, rfl, happ⟩
  · refine ⟨hnodup.sublist hsub, fun j hj => ?_⟩
    have hjtop := htop j (hsub.subset hj)
    by_cases hji : j = i
    · -- a waiter that takes a step leaves the list
      subst hji
      have hfw : f = .worker .waiting := Option.some.inj (hf.symm.trans hjtop)
      rw [hex.waiters_of_waiting hfw (hsub.subset hj)] at hj
      exact absurd hj (hnodup.not_mem_erase)
    · rw [Machine.top_eq_of_ne hthreads hji, hjtop]
  · have hni : i ∉ c.shared.waiters := fun hmem => by
      have heq := hf.symm.trans (htop i hmem)
      simp at heq
    refine ⟨?_, fun j hj => ?_⟩
    · rw [happ]
      exact List.nodup_append.mpr ⟨hnodup, List.nodup_singleton i, by
        rintro a ha b hb rfl
        exact hni (List.mem_singleton.mp hb ▸ ha)⟩
    · rw [happ, List.mem_append, List.mem_singleton] at hj
      rcases hj with hj | rfl
      · have hji : j ≠ i := fun e => hni (e ▸ hj)
        rw [Machine.top_eq_of_ne hthreads hji, htop j hj]
      · rw [Machine.top_eq_self hthreads hi]
        rfl

section Count

variable {n m : ℕ} {c : Config (Shared V) (Frame V)}

theorem Reachable.works_le (h : Reachable n m c) : weigh works c.frames ≤ n := by
  refine h.invariant (I := fun _ F => weigh works F ≤ n) ?_ ?_
  · rw [weigh_start]
    exact Nat.le_of_eq (by simp [works])
  · intro c c' i f fs R _ _ _ _ hex hI
    have hle := hex.works_le
    rw [weigh_cons] at hI
    rw [weigh_coe_add]
    omega

theorem Reachable.waiters_le (h : Reachable n m c) :
    c.shared.waiters.length ≤ weigh sleeps c.frames := by
  refine length_le_weigh sleeps c _ h.sleepers.nodup fun i hi => ?_
  obtain ⟨st, hst, hf⟩ := Option.bind_eq_some_iff.mp (h.sleepers.top i hi)
  exact ⟨st, hst, _, List.mem_of_mem_head? hf, Nat.one_pos⟩

/-- Drivers, waiters and polling workers are different workers. -/
theorem Reachable.duties_le (h : Reachable n m c) :
    weigh drives c.frames + c.shared.waiters.length + weigh pollsTask c.frames ≤ n := by
  have hle := weigh_le_weigh MultiThread.duties_le c.frames
  rw [weigh_add, weigh_add] at hle
  have hw := h.waiters_le
  have hn := h.works_le
  omega

/-- Until `shutdown` is set, every worker thread still runs. -/
theorem Reachable.worker_alive (h : Reachable n m c) (hs : c.shared.shutdown = false) {i : ℕ}
    (hi : i < n) : ∃ f, c.top i = some f := by
  have halive : c.shared.shutdown = false →
      ∃ st, c.threads[i]? = some st ∧ ∃ f ∈ st, 0 < works f := by
    refine Machine.ReachesVia.invariant (I := fun c => c.shared.shutdown = false →
      ∃ st, c.threads[i]? = some st ∧ ∃ f ∈ st, 0 < works f) h (fun _ => ?_) ?_
    · refine ⟨[.worker .top], ?_, .worker .top, by simp, Nat.one_pos⟩
      simp only [start]
      rw [List.getElem?_append_left (by simpa using hi), List.getElem?_replicate, if_pos hi]
    · intro c c' j x _ _ hstep hI hs'
      obtain ⟨f, k, fs, R, hj, hex, hthreads, -, -⟩ := Machine.step_cases hstep
      have hex := exec_cases hex
      have hs : c.shared.shutdown = false := by
        by_contra hne
        exact absurd (hex.shutdown_mono (by simpa using hne)) (by simp [hs'])
      obtain ⟨st, hst, g, hg, hpos⟩ := hI hs
      by_cases hij : i = j
      · subst hij
        have hlt := (List.getElem?_eq_some_iff.mp hj).1
        refine ⟨fs ++ k, by rw [hthreads, List.getElem?_set_self hlt], ?_⟩
        obtain rfl := Option.some.inj (hst.symm.trans hj)
        rcases List.mem_cons.mp hg with rfl | hg
        · have hsum := hex.works_ge.resolve_right (by simp [hs'])
          rw [← weigh_coe] at hsum
          obtain ⟨g', hg', hpos'⟩ := (weigh_pos_iff works _).mp (Nat.lt_of_lt_of_le hpos hsum)
          exact ⟨g', List.mem_append_left k hg', hpos'⟩
        · exact ⟨g, List.mem_append_right fs hg, hpos⟩
      · exact ⟨st, by rw [hthreads, List.getElem?_set_ne (Ne.symm hij), hst], g, hg, hpos⟩
  obtain ⟨st, hst, f, hf, -⟩ := halive hs
  cases st with
  | nil => cases hf
  | cons g st => exact ⟨g, by simp [Config.top, hst]⟩

end Count

end MiniAsync.MultiThread
