/-
  The outcome of a task whose future is deterministic, in the multi-threaded
  runtime: its poll number `n`, counted from 0, returns `f n`.

  Seen from one task, a step of the machine begins a poll, ends one with the result
  that `f` gives, or goes on to the end of `Task::poll`; `Outcome.Step` says so for
  any `f`. Since one worker at most is inside the poll and none after its end, the
  polls are numbered without gaps or repetitions, so the value that a task hands out
  is that of the first `Ready` of `f` (`firstReady_of_yielded`).
-/
import MiniAsync.MultiThread.Inv.Join

namespace MiniAsync

open MultiThread (PollResult)

variable {V : Type}

/-! ### Deterministic futures -/

/-- The first `n` polls do not return `Ready`. -/
def Unready (f : ℕ → PollResult V) (n : ℕ) : Prop := ∀ k < n, ∀ v, f k ≠ .ready v

/-- The first poll that returns `Ready` returns `v`. -/
def FirstReady (f : ℕ → PollResult V) (v : V) : Prop := ∃ n, f n = .ready v ∧ Unready f n

theorem Unready.succ {f : ℕ → PollResult V} {n : ℕ} (h : Unready f n)
    (hn : ∀ v, f n ≠ .ready v) : Unready f (n + 1) := by
  intro k hk
  rcases Nat.lt_succ_iff_lt_or_eq.mp hk with hk | rfl
  · exact h k hk
  · exact hn

theorem FirstReady.unique {f : ℕ → PollResult V} {u v : V} (hu : FirstReady f u)
    (hv : FirstReady f v) : u = v := by
  obtain ⟨m, hm, hbefore⟩ := hu
  obtain ⟨n, hn, hbefore'⟩ := hv
  rcases lt_trichotomy m n with hlt | rfl | hlt
  · exact absurd hm (hbefore' m hlt u)
  · exact PollResult.ready.inj (hm.symm.trans hn)
  · exact absurd hn (hbefore n hlt v)

namespace MultiThread

open Interleave

/-! ### One task -/

namespace Outcome

/-- The part of the shared state that says how a task ends. -/
@[ext]
structure View (V : Type) where
  allocated : Bool
  polls : ℕ
  output : Option V
  finished : Bool

/-- `Step f v rs v' rs'`: a thread at the positions `rs` turns the view `v` into `v'` and is at
`rs'` afterwards. -/
inductive Step (f : ℕ → PollResult V) :
    View V → List (Handover.Role V) → View V → List (Handover.Role V) → Prop
  | stutter (v : View V) (rs : List (Handover.Role V)) : Step f v rs v rs
  | create (v : View V) (rs : List (Handover.Role V)) (h : v.allocated = false) :
      Step f v rs ⟨true, 0, none, false⟩ rs
  | start (v : View V) (h : v.allocated = true) :
      Step f v [] { v with polls := v.polls + 1 } [.running]
  | ret (v : View V) (u : V) (r : Handover.Role V) (hr : r ≠ .running)
      (h : f (v.polls - 1) = .ready u) : Step f v [.running] { v with output := some u } [r]
  | suspend (v : View V) (h : f (v.polls - 1) = .pending) : Step f v [.running] v []
  | panic (v : View V) (h : f (v.polls - 1) = .panicked) :
      Step f v [.running] { v with finished := true } []
  | pass (v : View V) (r r' : Handover.Role V) (hr : r ≠ .running) (hr' : r' ≠ .running) :
      Step f v [r] v [r']
  | finish (v : View V) (r : Handover.Role V) (hr : r ≠ .running) :
      Step f v [r] { v with finished := true } []

/-- What is known of a task, with the positions `rs` of all threads. -/
structure Inv (f : ℕ → PollResult V) (v : View V) (rs : Multiset (Handover.Role V)) : Prop where
  fresh : v.allocated = false → rs = 0
  output : ∀ u, v.output = some u → FirstReady f u
  running : .running ∈ rs → ∃ k, v.polls = k + 1 ∧ Unready f k
  waiting : .running ∉ rs → v.output = none → Unready f v.polls
  ending : v.output ≠ none → v.finished = true ∨ ∃ r ∈ rs, r ≠ .running

variable {f : ℕ → PollResult V}

/-- No worker is inside the poll. -/
theorem inv_left {v : View V} (houtput : ∀ u, v.output = some u → FirstReady f u)
    (hwaiting : v.output = none → Unready f v.polls)
    (hending : v.output ≠ none → v.finished = true) : Inv f v 0 where
  fresh _ := rfl
  output := houtput
  running h := absurd h (Multiset.notMem_zero _)
  waiting _ := hwaiting
  ending h := Or.inl (hending h)

theorem inv_blank (allocated : Bool) : Inv f ⟨allocated, 0, none, false⟩ 0 :=
  inv_left (by rintro _ ⟨⟩) (fun _ k hk => absurd hk (Nat.not_lt_zero k)) fun h => absurd rfl h

/-- The only worker inside the poll is running the future: nothing has been returned. -/
theorem Inv.output_of_running {v : View V}
    (hI : Inv f v (([.running] : List (Handover.Role V)) : Multiset (Handover.Role V)))
    (hf : v.finished = false) : v.output = none := by
  by_contra hne
  rcases hI.ending hne with hfin | ⟨r, hr, hrne⟩
  · rw [hf] at hfin
    cases hfin
  · exact hrne (Multiset.mem_singleton.mp hr)

/-- **One step keeps it**, given that one worker at most is inside the poll and none after its
end. -/
theorem Step.inv {v v' : View V} {rs rs' : List (Handover.Role V)} (h : Step f v rs v' rs')
    (R : Multiset (Handover.Role V)) (hone : (↑rs + R).card + ind v.finished ≤ 1)
    (hone' : (↑rs' + R).card + ind v'.finished ≤ 1) (hI : Inv f v (↑rs + R)) :
    Inv f v' (↑rs' + R) := by
  cases h with
  | stutter => exact hI
  | create _ h =>
    rw [hI.fresh h]
    exact inv_blank true
  | start h =>
    obtain ⟨rfl, hf⟩ := Handover.alone hone'
    -- nobody was inside the poll, so a value returned before would have finished the task
    have hnone : v.output = none := by
      by_contra hne
      rcases hI.ending hne with hfin | ⟨r, hr, -⟩
      · rw [show v.finished = false from hf] at hfin
        cases hfin
      · exact absurd hr (Multiset.notMem_zero r)
    have hun := hI.waiting (Multiset.notMem_zero _) hnone
    refine ⟨fun ha => absurd (h.symm.trans ha) Bool.false_ne_true.symm, hI.output,
      fun _ => ⟨v.polls, rfl, hun⟩, fun hnot => ?_, fun hne => absurd hnone hne⟩
    exact absurd (Multiset.mem_singleton_self _) hnot
  | ret u r hr h =>
    -- the polls before this one are numbered `0` to `k - 1`
    obtain ⟨rfl, hf⟩ := Handover.alone hone
    obtain ⟨k, hk, hun⟩ := hI.running (Multiset.mem_singleton_self _)
    rw [hk, Nat.add_sub_cancel] at h
    refine ⟨fun ha => absurd (hI.fresh ha) (by simp), ?_, fun hrun => ?_, fun _ hnone => ?_,
      fun _ => Or.inr ⟨r, Multiset.mem_singleton_self r, hr⟩⟩
    · rintro _ ⟨⟩
      exact ⟨k, h, hun⟩
    · exact absurd (Multiset.mem_singleton.mp hrun).symm hr
    · cases hnone
  | suspend h =>
    obtain ⟨rfl, hf⟩ := Handover.alone hone
    obtain ⟨k, hk, hun⟩ := hI.running (Multiset.mem_singleton_self _)
    rw [hk, Nat.add_sub_cancel] at h
    refine inv_left hI.output (fun _ => ?_) fun hne => absurd (hI.output_of_running hf) hne
    rw [hk]
    exact hun.succ (by rw [h]; rintro _ ⟨⟩)
  | panic h =>
    obtain ⟨rfl, hf⟩ := Handover.alone hone
    obtain ⟨k, hk, hun⟩ := hI.running (Multiset.mem_singleton_self _)
    rw [hk, Nat.add_sub_cancel] at h
    refine inv_left hI.output (fun _ => ?_) fun _ => rfl
    show Unready f v.polls
    rw [hk]
    exact hun.succ (by rw [h]; rintro _ ⟨⟩)
  | pass r r' hr hr' =>
    obtain ⟨rfl, -⟩ := Handover.alone hone
    refine ⟨fun ha => absurd (hI.fresh ha) (by simp), hI.output,
      fun hrun => absurd (Multiset.mem_singleton.mp hrun).symm hr', fun _ => hI.waiting ?_,
      fun _ => Or.inr ⟨r', Multiset.mem_singleton_self r', hr'⟩⟩
    exact fun hrun => hr (Multiset.mem_singleton.mp hrun).symm
  | finish r hr =>
    obtain ⟨rfl, -⟩ := Handover.alone hone
    refine inv_left hI.output (hI.waiting ?_) fun _ => rfl
    exact fun hrun => hr (Multiset.mem_singleton.mp hrun).symm

end Outcome

/-! ### The outcome of one task in the runtime -/

/-- What the history of a task says of its end. -/
def Outcome.View.of (allocated : Bool) (h : TaskHist V) : Outcome.View V :=
  ⟨allocated, h.polls, h.output, h.finished⟩

/-- What the runtime knows of the outcome of the task `x`. -/
def outcome (x : TaskId) (sh : Shared V) : Outcome.View V :=
  .of (decide (sh.Allocated x)) (sh.hist x)

theorem outcome_modifyHist_self (sh : Shared V) (x : TaskId) (g : TaskHist V → TaskHist V) :
    outcome x (sh.modifyHist x g) = .of (decide (sh.Allocated x)) (g (sh.hist x)) := by
  rw [outcome, Shared.modifyHist_hist_self]
  rfl

theorem outcome_modifyHist_of_ne (sh : Shared V) {x y : TaskId} (h : x ≠ y)
    (g : TaskHist V → TaskHist V) : outcome x (sh.modifyHist y g) = outcome x sh := by
  rw [outcome, Shared.modifyHist_hist_of_ne sh h]
  rfl

/-- A change of a task's history that leaves the outcome is not seen. -/
theorem outcome_modifyHist (sh : Shared V) (x y : TaskId) (g : TaskHist V → TaskHist V)
    (heq : Outcome.View.of (decide (sh.Allocated y)) (g (sh.hist y)) = outcome y sh) :
    outcome x (sh.modifyHist y g) = outcome x sh := by
  rcases eq_or_ne x y with rfl | hne
  · rw [outcome_modifyHist_self, heq]
  · exact outcome_modifyHist_of_ne sh hne g

/-- The task whose future runs in the frame. -/
def Frame.polled : Frame V → Option TaskId
  | .worker (.pollTask x .polling) => some x
  | _ => none

/-- The result with which the future ends its poll. -/
def Choice.result : Choice V → Option (PollResult V)
  | .ret r => some r
  | _ => none

/-- A poll that the choice ends returns what `F` says for the task and the number of the poll. -/
def Frame.Follows (F : TaskId → ℕ → PollResult V) (sh : Shared V) (f : Frame V) (ch : Choice V) :
    Prop :=
  ∀ x ∈ f.polled, ∀ r ∈ ch.result, r = F x ((sh.hist x).polls - 1)

instance [DecidableEq V] (F : TaskId → ℕ → PollResult V) (sh : Shared V) (f : Frame V)
    (ch : Choice V) : Decidable (f.Follows F sh ch) :=
  inferInstanceAs (Decidable (∀ x ∈ f.polled, _))

/-- The result of the poll after which the worker is at `pc`. -/
def PollPc.endedBy : PollPc V → PollResult V
  | .storeResult v | .storeSignal v => .ready v
  | .casIdle => .pending
  | _ => .panicked

section Step

variable {i : ℕ} {sh sh' : Shared V} {f : Frame V} {fs : List (Frame V)} {ch : Choice V}
  {F : TaskId → ℕ → PollResult V}

/-- A poll that is left was ended by its result. -/
theorem ret_of_exec {x : TaskId} {pc : PollPc V}
    (h : exec i sh (atPoll x .polling) ch = some (sh', [atPoll x pc])) (hpc : pc ≠ .polling) :
    ch = .ret pc.endedBy := by
  cases ch with
  | ret r =>
    cases r with
    | ready v =>
      have hpc : (if (sh.task x).root then .storeSignal v else .storeResult v) = pc := by
        cases h
        rfl
      rw [← hpc]
      split_ifs <;> rfl
    | pending => cases h; rfl
    | panicked => cases h; rfl
  | call op =>
    -- after a call the future is still being polled
    obtain ⟨gs, -, hfs⟩ := exec_call (p := some x) h
    have hlast := congrArg List.getLast? hfs
    simp [baseFrame] at hlast
    exact absurd hlast hpc
  | _ => cases h

theorem outcome_stutter {x : TaskId} (hv : outcome x sh' = outcome x sh)
    (hr : rolesOf Frame.position x fs = rolesOf Frame.position x [f]) :
    Outcome.Step (F x) (outcome x sh) (rolesOf Frame.position x [f]) (outcome x sh')
      (rolesOf Frame.position x fs) :=
  step_stutter .stutter hv hr

theorem outcome_of_self {x y : TaskId} {r : Handover.Role V} (hf : f.position = some (y, r))
    (hv : x ≠ y → outcome x sh' = outcome x sh) (hr : x ≠ y → rolesOf Frame.position x fs = [])
    (h : Outcome.Step (F y) (outcome y sh) [r] (outcome y sh') (rolesOf Frame.position y fs)) :
    Outcome.Step (F x) (outcome x sh) (rolesOf Frame.position x [f]) (outcome x sh')
      (rolesOf Frame.position x fs) := by
  rcases eq_or_ne x y with rfl | hne
  · exact step_of_self .stutter hf hv hr h
  · refine outcome_stutter (hv hne) ?_
    rw [hr hne, rolesOf_of_ne Frame.position hne hf]

theorem outcome_newTask (root : Bool) (x : TaskId) (rs : List (Handover.Role V))
    (hsh : sh.Valid) : Outcome.Step (F x) (outcome x sh) rs (outcome x (sh.newTask root)) rs := by
  rcases eq_or_ne x sh.nextTaskId with rfl | hne
  · have hv : outcome sh.nextTaskId (sh.newTask root) = ⟨true, 0, none, false⟩ := by
      simp [outcome, Outcome.View.of, Shared.newTask, Shared.Allocated, hsh.next, TaskHist.blank]
    rw [hv]
    exact .create _ _ (by simp [outcome, Outcome.View.of, Shared.Allocated])
  · have hv : outcome x (sh.newTask root) = outcome x sh := by
      have hdec : decide ((sh.newTask root).Allocated x) = decide (sh.Allocated x) :=
        decide_eq_decide.mpr (sh.newTask_allocated_of_ne root hne)
      rw [outcome, hdec]
      simp [outcome, Shared.newTask, hne]
    rw [hv]
    exact .stutter _ _

/-- **Simulation**: for every task, a step in which the futures follow `F` is a step of the task's
outcome. -/
theorem outcome_of_exec (hex : exec i sh f ch = some (sh', fs)) (hsh : sh.Valid)
    (hf : f.Valid sh) (hF : f.Follows F sh ch) (x : TaskId) :
    Outcome.Step (F x) (outcome x sh) (rolesOf Frame.position x [f]) (outcome x sh')
      (rolesOf Frame.position x fs) := by
  have h := exec_cases hex
  cases h
  case started y h =>
    rcases eq_or_ne x y with rfl | hne
    · rw [outcome_modifyHist_self, rolesOf_self Frame.position (f := atPoll x .polling) rfl]
      exact .start _ (decide_eq_true (hf (.task x) (by simp [Frame.mentions])))
    · exact outcome_stutter (outcome_modifyHist_of_ne _ hne _)
        (rolesOf_of_ne Frame.position hne rfl)
  case retReady y v h | retReadyRoot y v h =>
    obtain rfl := ret_of_exec hex (by rintro ⟨⟩)
    refine outcome_of_self rfl (fun hne => outcome_modifyHist_of_ne sh hne _)
      (fun hne => rolesOf_of_ne Frame.position hne rfl) ?_
    rw [outcome_modifyHist_self, rolesOf_self Frame.position rfl]
    exact .ret _ v _ (by rintro ⟨⟩) (hF y rfl _ rfl).symm
  case retPending y =>
    obtain rfl := ret_of_exec hex (by rintro ⟨⟩)
    exact outcome_of_self rfl (fun _ => rfl) (fun _ => rfl) (.suspend _ (hF y rfl _ rfl).symm)
  case retPanicked y =>
    obtain rfl := ret_of_exec hex (by rintro ⟨⟩)
    refine outcome_of_self rfl (fun hne => outcome_modifyHist_of_ne sh hne _) (fun _ => rfl) ?_
    rw [outcome_modifyHist_self]
    exact .panic _ (hF y rfl _ rfl).symm
  case storeResult y v hl hw =>
    refine outcome_of_self rfl (fun _ => outcome_modifyHist _ _ _ _ rfl)
      (fun hne => rolesOf_of_ne Frame.position hne rfl) ?_
    rw [Shared.resultStored, outcome_modifyHist _ _ _ _ rfl, rolesOf_self Frame.position rfl]
    exact .pass _ _ _ (by rintro ⟨⟩) (by rintro ⟨⟩)
  case storeResultWake y v w hl hw =>
    refine outcome_of_self rfl (fun _ => outcome_modifyHist _ _ _ _ rfl)
      (fun hne => rolesOf_of_ne Frame.position (f := atPoll y .unlock) hne rfl) ?_
    rw [Shared.resultStored, outcome_modifyHist _ _ _ _ rfl]
    change Outcome.Step _ _ _ _ (rolesOf Frame.position y [atPoll y .unlock])
    rw [rolesOf_self Frame.position rfl]
    exact .pass _ _ _ (by rintro ⟨⟩) (by rintro ⟨⟩)
  case storeSignal y v =>
    refine outcome_of_self rfl (fun _ => outcome_modifyHist _ _ _ _ rfl)
      (fun hne => rolesOf_of_ne Frame.position hne rfl) ?_
    rw [outcome_modifyHist _ _ _ _ rfl, rolesOf_self Frame.position rfl]
    exact .pass _ _ _ (by rintro ⟨⟩) (by rintro ⟨⟩)
  case unlock y | notifySignal y =>
    refine outcome_of_self rfl (fun hne => outcome_modifyHist_of_ne _ hne _) (fun _ => rfl) ?_
    rw [outcome_modifyHist_self]
    exact .finish _ _ (by rintro ⟨⟩)
  case callSpawn p => exact outcome_newTask false x _ hsh
  case callBlockOn p => exact outcome_newTask true x _ hsh
  -- the other steps change nothing that the outcome shows
  all_goals first
    | exact .stutter _ _
    | exact outcome_stutter (outcome_modifyHist _ _ _ _ rfl) rfl

end Step

/-! ### Whole runs -/

/-- Every poll that the step ends returns what `F` says for the task and the number of the
poll. -/
def Follows (F : TaskId → ℕ → PollResult V) (c : Config (Shared V) (Frame V)) (i : ℕ)
    (ch : Choice V) : Prop :=
  ∀ f ∈ c.top i, f.Follows F c.shared ch

instance [DecidableEq V] (F : TaskId → ℕ → PollResult V) (c : Config (Shared V) (Frame V)) (i : ℕ)
    (ch : Choice V) : Decidable (Follows F c i ch) :=
  inferInstanceAs (Decidable (∀ f ∈ c.top i, _))

section Run

variable {F : TaskId → ℕ → PollResult V} {n m : ℕ} {c : Config (Shared V) (Frame V)}

/-- **The outcome of every task is kept in every run in which the futures follow `F`.** -/
theorem outcome_inv (h : (machine V).ReachesVia (Follows F) (start V n m) c) (x : TaskId) :
    Outcome.Inv (F x) (outcome x c.shared) (allRoles Frame.position x c.frames) := by
  refine Machine.ReachesVia.frame_invariant h
    (I := fun sh fs => Outcome.Inv (F x) (outcome x sh) (allRoles Frame.position x fs)) ?_ ?_
  · rw [positions_start]
    exact Outcome.inv_blank _
  · intro c c' i ch f fs R hc hc' hok htop hF hF' hex hI
    obtain ⟨hsh, hval⟩ := Reachable.valid hc
    have hone := Reachable.card_positions_le hc x
    have hone' := Reachable.card_positions_le hc' x
    rw [hF, allRoles_cons] at hone
    rw [hF', allRoles_add] at hone'
    rw [allRoles_cons] at hI
    rw [allRoles_add]
    have hf : f.Valid c.shared := hval f (hF ▸ Multiset.mem_cons_self f R)
    exact (outcome_of_exec hex hsh hf (hok f htop) x).inv _ hone hone' hI

/-- The value that a task hands out is that of the first `Ready` of its future. -/
theorem firstReady_of_yielded (h : (machine V).ReachesVia (Follows F) (start V n m) c)
    {x : TaskId} {v : V} (hv : v ∈ (c.shared.hist x).yielded) : FirstReady (F x) v :=
  (outcome_inv h x).output v ((Reachable.handover h.reaches x).yielded.2 v hv)

end Run

end MultiThread

end MiniAsync
