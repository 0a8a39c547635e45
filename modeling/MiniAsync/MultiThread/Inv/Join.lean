/-
  The runtime keeps the handover of every task's value: seen from one task, each
  step of the machine is a step of `Handover`. What a future that ends leaves
  behind for its awaiter follows; a future that panics leaves nothing.
-/
import MiniAsync.Interleave.Roles
import MiniAsync.MultiThread.Inv.TaskLife
import MiniAsync.MultiThread.Inv.Handover

namespace MiniAsync.MultiThread

open Interleave

variable {V : Type}

/-! ### The handover of one task in the runtime -/

/-- What the runtime knows of the handover of the task `x`. -/
def exchange (x : TaskId) (sh : Shared V) : Handover.View V :=
  .of (decide (sh.Allocated x)) (sh.task x) (sh.hist x)

theorem exchange_modifyTask_of_ne (sh : Shared V) {x y : TaskId} (h : x ≠ y)
    (g : Task V → Task V) : exchange x (sh.modifyTask y g) = exchange x sh := by
  rw [exchange, Shared.modifyTask_task_of_ne sh h]
  rfl

theorem exchange_modifyHist_of_ne (sh : Shared V) {x y : TaskId} (h : x ≠ y)
    (g : TaskHist V → TaskHist V) : exchange x (sh.modifyHist y g) = exchange x sh := by
  rw [exchange, Shared.modifyHist_hist_of_ne sh h]
  rfl

theorem exchange_modifyTask_self (sh : Shared V) (x : TaskId) (g : Task V → Task V) :
    exchange x (sh.modifyTask x g) = .of (decide (sh.Allocated x)) (g (sh.task x)) (sh.hist x) := by
  rw [exchange, Shared.modifyTask_task_self]
  rfl

theorem exchange_modifyHist_self (sh : Shared V) (x : TaskId) (g : TaskHist V → TaskHist V) :
    exchange x (sh.modifyHist x g) = .of (decide (sh.Allocated x)) (sh.task x) (g (sh.hist x)) := by
  rw [exchange, Shared.modifyHist_hist_self]
  rfl

theorem exchange_modify_self (sh : Shared V) (x : TaskId) (g : Task V → Task V)
    (h : TaskHist V → TaskHist V) :
    exchange x ((sh.modifyTask x g).modifyHist x h)
      = .of (decide (sh.Allocated x)) (g (sh.task x)) (h (sh.hist x)) := by
  rw [exchange_modifyHist_self, Shared.modifyTask_task_self]
  rfl

theorem exchange_modify_of_ne (sh : Shared V) {x y : TaskId} (hne : x ≠ y) (g : Task V → Task V)
    (h : TaskHist V → TaskHist V) :
    exchange x ((sh.modifyTask y g).modifyHist y h) = exchange x sh := by
  rw [exchange_modifyHist_of_ne _ hne, exchange_modifyTask_of_ne _ hne]

/-- A change of a task's history that leaves the handover is not seen. -/
theorem exchange_modifyHist (sh : Shared V) (x y : TaskId) (g : TaskHist V → TaskHist V)
    (heq : Handover.View.of (decide (sh.Allocated y)) (sh.task y) (g (sh.hist y))
      = exchange y sh) :
    exchange x (sh.modifyHist y g) = exchange x sh := by
  rcases eq_or_ne x y with rfl | hne
  · rw [exchange_modifyHist_self, heq]
  · exact exchange_modifyHist_of_ne sh hne g

theorem exchange_setStatus (sh : Shared V) (x y : TaskId) (st : Status) :
    exchange x (sh.setStatus y st) = exchange x sh := by
  rcases eq_or_ne x y with rfl | hne
  · rw [Shared.setStatus, exchange_modifyTask_self]
    rfl
  · exact exchange_modifyTask_of_ne sh hne _

/-- The position of a worker inside `Task::poll`, and of which task. -/
def Frame.position : Frame V → Option (TaskId × Handover.Role V)
  | .worker (.pollTask x pc) =>
    match pc with
    | .polling => some (x, .running)
    | .storeResult v => some (x, .storing v)
    | .unlock => some (x, .unlocking)
    | .storeSignal v => some (x, .signalling v)
    | .notifySignal => some (x, .notifying)
    | _ => none
  | _ => none

section Step

variable {i : ℕ} {sh sh' : Shared V} {f : Frame V} {fs : List (Frame V)}

theorem handover_stutter {x : TaskId} (hv : exchange x sh' = exchange x sh)
    (hr : rolesOf Frame.position x fs = rolesOf Frame.position x [f]) :
    Handover.Step (exchange x sh) (rolesOf Frame.position x [f]) (exchange x sh')
      (rolesOf Frame.position x fs) :=
  step_stutter .stutter hv hr

/-- A step that the task `y` makes, seen from a task `x`: the task itself, or another one. -/
theorem handover_of_self {x y : TaskId} {r : Handover.Role V} (hf : f.position = some (y, r))
    (hv : x ≠ y → exchange x sh' = exchange x sh) (hr : x ≠ y → rolesOf Frame.position x fs = [])
    (h : Handover.Step (exchange y sh) [r] (exchange y sh') (rolesOf Frame.position y fs)) :
    Handover.Step (exchange x sh) (rolesOf Frame.position x [f]) (exchange x sh')
      (rolesOf Frame.position x fs) :=
  step_of_self .stutter hf hv hr h

theorem handover_newTask (root : Bool) (x : TaskId) (rs : List (Handover.Role V))
    (hsh : sh.Valid) : Handover.Step (exchange x sh) rs (exchange x (sh.newTask root)) rs := by
  rcases eq_or_ne x sh.nextTaskId with rfl | hne
  · have hv : exchange sh.nextTaskId (sh.newTask root)
        = .of true (Task.blank root .scheduled) TaskHist.blank := by
      simp [exchange, Shared.newTask, Shared.Allocated, hsh.next]
    rw [hv]
    exact .create _ _ root (by simp [exchange, Handover.View.of, Shared.Allocated])
  · have hv : exchange x (sh.newTask root) = exchange x sh := by
      have hdec : decide ((sh.newTask root).Allocated x) = decide (sh.Allocated x) :=
        decide_eq_decide.mpr (sh.newTask_allocated_of_ne root hne)
      rw [exchange, hdec]
      simp [exchange, Shared.newTask, hne]
    rw [hv]
    exact .stutter _ _

/-- **Simulation**: for every task, a step of the runtime is a step of the task's handover. -/
theorem Exec.handover (h : Exec i sh f sh' fs) (hsh : sh.Valid) (hf : f.Valid sh) (x : TaskId) :
    Handover.Step (exchange x sh) (rolesOf Frame.position x [f]) (exchange x sh')
      (rolesOf Frame.position x fs) := by
  cases h
  case started y h =>
    have hv : exchange x ((sh.setStatus y .running).modifyHist y fun h =>
        { h with polls := h.polls + 1 }) = exchange x sh := by
      rw [exchange_modifyHist _ _ _ _ rfl, exchange_setStatus]
    rcases eq_or_ne x y with rfl | hne
    · rw [hv, rolesOf_self Frame.position (f := atPoll x .polling) rfl]
      exact .start _ (decide_eq_true (hf (.task x) (by simp [Frame.mentions])))
    · exact handover_stutter hv (rolesOf_of_ne Frame.position hne rfl)
  case retReady y v h =>
    refine handover_of_self rfl (fun hne => exchange_modifyHist_of_ne sh hne _)
      (fun hne => rolesOf_of_ne Frame.position hne rfl) ?_
    rw [exchange_modifyHist_self, rolesOf_self Frame.position rfl]
    exact .ret _ v h
  case retReadyRoot y v h =>
    refine handover_of_self rfl (fun hne => exchange_modifyHist_of_ne sh hne _)
      (fun hne => rolesOf_of_ne Frame.position hne rfl) ?_
    rw [exchange_modifyHist_self, rolesOf_self Frame.position rfl]
    exact .retRoot _ v h
  case retPending y =>
    exact handover_of_self rfl (fun _ => rfl) (fun _ => rfl) (.suspend _)
  case retPanicked y =>
    refine handover_of_self rfl (fun hne => exchange_modifyHist_of_ne sh hne _) (fun _ => rfl) ?_
    rw [exchange_modifyHist_self]
    exact .panic _
  case storeResult y v hl hw =>
    refine handover_of_self rfl (fun hne => exchange_modify_of_ne sh hne _ _)
      (fun hne => rolesOf_of_ne Frame.position hne rfl) ?_
    rw [Shared.resultStored, exchange_modify_self, rolesOf_self Frame.position rfl]
    exact .store _ v
  case storeResultWake y v w hl hw =>
    refine handover_of_self rfl (fun hne => exchange_modify_of_ne sh hne _ _)
      (fun hne => rolesOf_of_ne Frame.position (f := atPoll y .unlock) hne rfl) ?_
    rw [Shared.resultStored, exchange_modify_self]
    change Handover.Step _ _ _ (rolesOf Frame.position y [atPoll y .unlock])
    rw [rolesOf_self Frame.position rfl]
    exact .store _ v
  case unlock y =>
    refine handover_of_self rfl (fun hne => exchange_modify_of_ne sh hne _ _) (fun _ => rfl) ?_
    rw [exchange_modify_self]
    exact .unlock _
  case storeSignal y v =>
    refine handover_of_self rfl (fun hne => exchange_modify_of_ne sh hne _ _)
      (fun hne => rolesOf_of_ne Frame.position hne rfl) ?_
    rw [exchange_modify_self, rolesOf_self Frame.position rfl]
    exact .signal _ v
  case notifySignal y =>
    refine handover_of_self rfl (fun hne => exchange_modifyHist_of_ne sh hne _) (fun _ => rfl) ?_
    rw [exchange_modifyHist_self]
    exact .notify _
  case callSpawn p => exact handover_newTask false x _ hsh
  case callBlockOn p => exact handover_newTask true x _ hsh
  case joinReady p y w v hx hr hl h =>
    rcases eq_or_ne x y with rfl | hne
    · rw [exchange_modify_self]
      exact .yield _ _ p w v hr h
    · exact handover_stutter (exchange_modify_of_ne sh hne _ _) rfl
  case joinPending p y w hx hr hl hw h =>
    rcases eq_or_ne x y with rfl | hne
    · rw [exchange_modify_self]
      exact .pend _ _ p w hr h
    · exact handover_stutter (exchange_modify_of_ne sh hne _ _) rfl
  case signalTaken y v h =>
    rcases eq_or_ne x y with rfl | hne
    · rw [exchange_modify_self]
      exact .take _ _ v h
    · exact handover_stutter (exchange_modify_of_ne sh hne _ _) rfl
  case wakeRunning y b t h =>
    refine handover_stutter ?_ rfl
    rw [wakeReturned, exchange_modifyHist _ _ _ _ rfl]
    exact exchange_setStatus sh x y .notified
  -- the other steps change nothing that the handover shows
  all_goals first
    | exact .stutter _ _
    | exact handover_stutter (exchange_modifyHist _ _ _ _ rfl) rfl
    | exact handover_stutter (exchange_setStatus _ _ _ _) rfl

end Step

/-! ### The handover over all threads -/

/-- A worker with a position is inside the poll. -/
theorem position_role {x : TaskId} {f : Frame V} {r : Handover.Role V}
    (h : f.position = some (x, r)) : f.role = some (x, .runner) := by
  cases f with
  | worker pc =>
    cases pc with
    | pollTask y pc => cases pc <;> simp_all [Frame.position, Frame.role]
    | _ => simp [Frame.position] at h
  | _ => simp [Frame.position] at h

theorem card_allRoles_le (x : TaskId) (F : Multiset (Frame V)) :
    (allRoles Frame.position x F).card ≤ tally x F .runner := by
  induction F using Multiset.induction_on with
  | empty => exact Nat.zero_le _
  | cons f F ih =>
    rw [tally, weigh_cons]
    cases hf : roleOf Frame.position x f with
    | none =>
      rw [allRoles, Multiset.filterMap_cons_none f F hf]
      exact ih.trans (Nat.le_add_left _ _)
    | some r =>
      rw [allRoles, Multiset.filterMap_cons_some _ f F hf, Multiset.card_cons, holds,
        if_pos (position_role (roleOf_eq_some_iff.mp hf)), Nat.add_comm]
      exact Nat.add_le_add_left ih 1

section Run

variable {n m : ℕ} {c : Config (Shared V) (Frame V)}

/-- At the start no worker is inside a poll. -/
theorem positions_start (n m : ℕ) (x : TaskId) :
    allRoles Frame.position x (start V n m).frames = 0 :=
  filterMap_start _ rfl rfl n m

/-- One worker at most is inside the poll, and none after the end of the poll. -/
theorem Reachable.card_positions_le (h : Reachable n m c) (x : TaskId) :
    (allRoles Frame.position x c.frames).card + ind (c.shared.hist x).finished ≤ 1 := by
  have hwork := (h.lifecycle x).workers
  have hle := card_allRoles_le x c.frames
  rw [view_finished] at hwork
  split_ifs at hwork <;> omega

/-- **The handover of every task is kept in every reachable configuration.** -/
theorem Reachable.handover (h : Reachable n m c) (x : TaskId) :
    Handover.Inv (exchange x c.shared) (allRoles Frame.position x c.frames) := by
  refine h.invariant
    (I := fun sh F => Handover.Inv (exchange x sh) (allRoles Frame.position x F)) ?_ ?_
  · rw [positions_start]
    exact Handover.inv_blank _ _ _
  · intro c c' i f fs R hc hc' hF hF' hex hI
    obtain ⟨hsh, hval⟩ := hc.valid
    have hone := hc.card_positions_le x
    have hone' := hc'.card_positions_le x
    rw [hF, allRoles_cons] at hone
    rw [hF', allRoles_add] at hone'
    rw [allRoles_cons] at hI
    rw [allRoles_add]
    exact (hex.handover hsh (hval f (hF ▸ Multiset.mem_cons_self f R)) x).inv _ hone hone' hI

/-! ### Released awaiters -/

/-- The awaiter of the task `x` has been released. -/
abbrev Released (x : TaskId) (sh : Shared V) : Prop := Handover.Released (exchange x sh)

/-- The poll of a task that was removed has ended. -/
theorem Reachable.finished_of_removed (h : Reachable n m c) {x : TaskId}
    (hrem : (c.shared.hist x).removed = true) : (c.shared.hist x).finished = true := by
  have hfin := (h.lifecycle x).removed
  rw [view_removed, hrem, ind_true] at hfin
  exact ind_pos_iff.mp (Nat.lt_of_lt_of_le (by omega) hfin.le)

end Run

section Orderly

variable {i : ℕ} {sh sh' : Shared V} {f : Frame V} {fs : List (Frame V)} {ch : Choice V}

/-- The step lets the future of the task `x` panic. -/
def Panics (x : TaskId) (c : Config (Shared V) (Frame V)) (i : ℕ) : Choice V → Prop
  | .ret .panicked => c.top i = some (atPoll x .polling)
  | _ => False

/-- The step polls the handle of the task `x` although it has yielded the value. -/
def PollsAgain (x : TaskId) (c : Config (Shared V) (Frame V)) : Choice V → Prop
  | .call (.pollJoin y _) => y = x ∧ (c.shared.hist x).yielded ≠ []
  | _ => False

instance [DecidableEq V] (x : TaskId) (c : Config (Shared V) (Frame V)) (i : ℕ) :
    (ch : Choice V) → Decidable (Panics x c i ch)
  | .ret .panicked => inferInstanceAs (Decidable (_ = _))
  | .ret .pending | .ret (.ready _) => isFalse id
  | .go | .spurious | .pick _ | .now _ | .epoll _ _ | .call _ => isFalse id

instance [DecidableEq V] (x : TaskId) (c : Config (Shared V) (Frame V)) :
    (ch : Choice V) → Decidable (PollsAgain x c ch)
  | .call (.pollJoin _ _) => inferInstanceAs (Decidable (_ ∧ _))
  | .call .spawn | .call .blockOn | .call (.sleep _) | .call .shutdown => isFalse id
  | .call (.wake _) | .call (.pollSleep _ _) => isFalse id
  | .go | .spurious | .pick _ | .now _ | .epoll _ _ | .ret _ => isFalse id

/-- The future has panicked, or the handle was polled after it had yielded the value. -/
def strayed (h : TaskHist V) : Bool := h.panicked || h.repolled

theorem strayed_newTask {root : Bool} {x : TaskId}
    (h : strayed ((sh.newTask root).hist x) = true) : strayed (sh.hist x) = true := by
  rcases eq_or_ne x sh.nextTaskId with rfl | hne
  · simp [Shared.newTask, TaskHist.blank, strayed] at h
  · simpa [Shared.newTask, hne] using h

/-- A change of another kind does not set the flags. -/
theorem strayed_modifyHist {x y : TaskId} {g : TaskHist V → TaskHist V}
    (h : strayed ((sh.modifyHist y g).hist x) = true)
    (hg : strayed (g (sh.hist y)) = strayed (sh.hist y)) : strayed (sh.hist x) = true := by
  rwa [Shared.modifyHist_hist strayed _ _ _ _ hg] at h

/-- Only code outside of the runtime can set the flags. -/
theorem Exec.strayed_cases (h : Exec i sh f sh' fs) {x : TaskId}
    (hx : strayed (sh'.hist x) = true) : strayed (sh.hist x) = true ∨ ∃ p, f = baseFrame p := by
  cases h
  case retReady y _ _ | retReadyRoot y _ _ => exact Or.inr ⟨some y, rfl⟩
  case retPending y | retPanicked y => exact Or.inr ⟨some y, rfl⟩
  case callSpawn p | callBlockOn p => exact Or.inr ⟨p, rfl⟩
  case joinReady p _ _ _ _ _ _ _ | joinPending p _ _ _ _ _ _ _ => exact Or.inr ⟨p, rfl⟩
  all_goals first
    | exact Or.inl hx
    | have hold := strayed_modifyHist hx rfl
      exact Or.inl hold

theorem userCall_strayed {p : Option TaskId} {op : Call} (h : userCall sh p op = some (sh', fs))
    {x : TaskId} (hx : strayed (sh'.hist x) = true) :
    strayed (sh.hist x) = true ∨ ((∃ w, op = .pollJoin x w) ∧ (sh.hist x).yielded ≠ []) := by
  cases op with
  | spawn =>
    cases h
    exact Or.inl (strayed_newTask hx)
  | blockOn =>
    cases h
    exact Or.inl (strayed_newTask hx)
  | sleep | shutdown =>
    cases h
    exact Or.inl hx
  | wake | pollSleep =>
    simp only [userCall] at h
    split_ifs at h
    cases h
    exact Or.inl hx
  | pollJoin y w =>
    simp only [userCall] at h
    split_ifs at h
    cases h
    unfold pollJoin at hx
    split at hx
    · have hold := strayed_modifyHist hx rfl
      exact Or.inl hold
    · rcases eq_or_ne x y with rfl | hne
      · simp only [strayed, Shared.modifyHist_hist_self, Shared.modifyTask_hist, ← Bool.or_assoc,
          Bool.or_eq_true] at hx ⊢
        exact hx.imp_right fun hy => ⟨⟨w, rfl⟩, by simpa using hy⟩
      · rw [Shared.modifyHist_hist_of_ne _ hne] at hx
        exact Or.inl hx

/-- The flags are set by a panic of the future and by a poll of the handle after it has
yielded. -/
theorem exec_strayed (h : exec i sh f ch = some (sh', fs)) {x : TaskId}
    (hx : strayed (sh'.hist x) = true) :
    strayed (sh.hist x) = true ∨ (f = atPoll x .polling ∧ ch = .ret .panicked) ∨
      ((∃ w, ch = .call (.pollJoin x w)) ∧ (sh.hist x).yielded ≠ []) := by
  rcases (exec_cases h).strayed_cases hx with hold | ⟨p, rfl⟩
  · exact Or.inl hold
  · cases ch with
    | call op =>
      obtain ⟨gs, hr, -⟩ := exec_call h
      rcases userCall_strayed hr hx with hold | ⟨⟨w, rfl⟩, hy⟩
      · exact Or.inl hold
      · exact Or.inr (Or.inr ⟨⟨w, rfl⟩, hy⟩)
    | ret r =>
      cases p with
      | none => cases h
      | some y =>
        cases r with
        | ready v =>
          cases h
          have hold := strayed_modifyHist hx rfl
          exact Or.inl hold
        | pending =>
          cases h
          exact Or.inl hx
        | panicked =>
          cases h
          rcases eq_or_ne x y with rfl | hne
          · exact Or.inr (Or.inl ⟨rfl, rfl⟩)
          · rw [Shared.modifyHist_hist_of_ne _ hne] at hx
            exact Or.inl hx
    | _ => cases p <;> cases h

/-- A run whose steps all meet the condition sets no flag. -/
theorem not_strayed {n m : ℕ} {c : Config (Shared V) (Frame V)} {x : TaskId}
    (h : (machine V).ReachesVia (fun d i ch => ¬ Panics x d i ch ∧ ¬ PollsAgain x d ch)
      (start V n m) c) : strayed (c.shared.hist x) = false := by
  refine h.frame_invariant (I := fun sh _ => strayed (sh.hist x) = false) rfl ?_
  rintro c c' i ch f fs R - - ⟨hpanic, hagain⟩ htop - - hex hold
  by_contra hx
  rcases exec_strayed hex (by simpa using hx) with hx | ⟨rfl, rfl⟩ | ⟨⟨w, rfl⟩, hy⟩
  · simp [hold] at hx
  · exact hpanic htop
  · exact hagain ⟨rfl, hy⟩

end Orderly

/-- A future that panics is removed, and the caller of `block_on` goes on waiting at an empty
slot. -/
theorem panic_strands_caller : ∃ c : Config (Shared Unit) (Frame Unit), Reachable 1 1 c ∧
    (c.shared.hist 1).removed = true ∧ c.top 1 = some (.blockOn 1 .wait) ∧
      ¬ Released 1 c.shared := by
  obtain ⟨c, hc, hrem, htop, hroot, hsig, hy⟩ := exists_reachable 1 1
    [(1, .call .blockOn), (1, .go), (1, .go), (1, .go), (1, .go), (1, .go), (1, .go),
      (0, .go), (0, .go), (0, .go), (0, .go), (0, .ret .panicked), (0, .go), (0, .go), (0, .go)]
    (fun c : Config (Shared Unit) (Frame Unit) => (c.shared.hist 1).removed = true ∧
      c.top 1 = some (.blockOn 1 .wait) ∧ (c.shared.task 1).root = true ∧
      (c.shared.task 1).signal = none ∧ (c.shared.hist 1).yielded = [])
    (by decide)
  refine ⟨c, hc, hrem, htop, ?_⟩
  simp [Handover.Released, exchange, Handover.View.of, hroot, hsig, hy]

end MiniAsync.MultiThread
