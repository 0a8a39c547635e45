/-
  No wake-up is lost. A wake call that was made after the task's latest poll
  began and that has returned leaves the task NOTIFIED or SCHEDULED, with a
  thread or a queue entry that will see to the next poll; and every poll but the
  first has a wake call of its own.

  The invariant is about the calls under way: whatever `wake_by_ref_impl` has
  read so far, a call that returns has seen or set the mark, and the mark goes
  away only when a poll begins.
-/
import MiniAsync.MultiThread.Inv.TaskLife

namespace MiniAsync.MultiThread

open Interleave

variable {V : Type}

/-- What is known of a wake call in each of its positions. -/
def Frame.WakeOk (sh : Shared V) : Frame V → Prop
  | .wake x b _ .ret => Lifecycle.Settled b (view x sh)
  | .wake x b _ _ => Lifecycle.Begun b (view x sh)
  | _ => True

/-- Every wake call that has returned has had its effect. -/
def WakesSettled (sh : Shared V) : Prop :=
  ∀ x, ∀ b ∈ (sh.hist x).returned, Lifecycle.Settled b (view x sh)

section Step

variable {i : ℕ} {sh sh' : Shared V} {f : Frame V} {fs : List (Frame V)}

theorem mem_returned_newTask {root : Bool} {x : TaskId} {b : ℕ}
    (hb : b ∈ ((sh.newTask root).hist x).returned) : b ∈ (sh.hist x).returned := by
  rcases eq_or_ne x sh.nextTaskId with rfl | hne
  · simp [Shared.newTask, TaskHist.blank] at hb
  · simpa [Shared.newTask, hne] using hb

theorem mem_wakeReturned {x y : TaskId} {b b' : ℕ} {t : Option (ℕ × ℕ)}
    (hb : b ∈ ((wakeReturned sh y b' t).hist x).returned) :
    b ∈ (sh.hist x).returned ∨ (x = y ∧ b = b') := by
  rcases eq_or_ne x y with rfl | hne
  · simpa [wakeReturned, or_comm] using hb
  · simpa [wakeReturned, hne] using hb

/-- A wake call returns from one of its positions, with the mark set. -/
theorem Exec.returned_cases (h : Exec i sh f sh' fs) {x : TaskId} {b : ℕ}
    (hb : b ∈ (sh'.hist x).returned) :
    b ∈ (sh.hist x).returned ∨ (∃ t, f = .wake x b t .ret) ∨
      ∃ t pc, f = .wake x b t pc ∧ pc ≠ .ret ∧ Lifecycle.Woken (sh'.task x).status := by
  cases h
  case callSpawn p => exact Or.inl (mem_returned_newTask hb)
  case callBlockOn p => exact Or.inl (mem_returned_newTask hb)
  case loadWoken y b' t h =>
    rcases mem_wakeReturned hb with hb | ⟨rfl, rfl⟩
    · exact Or.inl hb
    · exact Or.inr (Or.inr ⟨_, _, rfl, by simp, Lifecycle.woken_iff.mpr h⟩)
  case wakeRunning y b' t h =>
    rcases mem_wakeReturned hb with hb | ⟨rfl, rfl⟩
    · exact Or.inl hb
    · refine Or.inr (Or.inr ⟨_, _, rfl, by simp, ?_⟩)
      simp [wakeReturned, Shared.setStatus, Shared.sleepWoken]
  case wakeRet y b' t =>
    rcases mem_wakeReturned hb with hb | ⟨rfl, rfl⟩
    · exact Or.inl hb
    · exact Or.inr (Or.inl ⟨_, rfl⟩)
  -- the other steps do not touch the list
  case storeResult | storeResultWake =>
    rw [Shared.resultStored, Shared.modifyHist_hist TaskHist.returned _ _ _ _ rfl] at hb
    exact Or.inl hb
  all_goals first
    | exact Or.inl hb
    | rw [Shared.modifyHist_hist TaskHist.returned _ _ _ _ rfl] at hb
      exact Or.inl hb

@[simp] theorem wake_ne_baseFrame (x : TaskId) (b : ℕ) (t : Option (ℕ × ℕ)) (pc : WakePc)
    (p : Option TaskId) : (.wake x b t pc : Frame V) ≠ baseFrame p :=
  (baseFrame_ne (by simp) (by simp)).symm

/-- A wake call comes from a call of the waker, or from its own previous position. -/
theorem Exec.wake_mem_cases (h : Exec i sh f sh' fs) {x : TaskId} {b : ℕ} {t : Option (ℕ × ℕ)}
    {pc : WakePc} (hg : .wake x b t pc ∈ fs) :
    (f = .wakerWake (.task x) t ∧ b = (sh.hist x).polls ∧ pc = .load) ∨
      ∃ pc', f = .wake x b t pc' ∧ pc' ≠ .ret ∧
        (pc = .ret → Lifecycle.Woken (sh'.task x).status) := by
  cases h
  case wakeTask y t' =>
    obtain ⟨rfl, rfl, rfl, rfl⟩ : x = y ∧ b = (sh.hist y).polls ∧ t = t' ∧ pc = .load := by
      simpa using hg
    exact Or.inl ⟨rfl, rfl, rfl⟩
  case wakeIdle y b' t' h =>
    obtain ⟨rfl, rfl, rfl, rfl⟩ : x = y ∧ b = b' ∧ t = t' ∧ pc = .ret := by simpa using hg
    exact Or.inr ⟨_, rfl, by simp, fun _ => by simp [Shared.setStatus]⟩
  case loadIdle | loadRunning | retryIdle | retryRunning =>
    simp only [List.mem_singleton, Frame.wake.injEq] at hg
    obtain ⟨rfl, rfl, rfl, rfl⟩ := hg
    exact Or.inr ⟨_, rfl, by simp, by simp⟩
  -- no other step leaves a wake call behind
  all_goals simp at hg

theorem Exec.wakeOk (h : Exec i sh f sh' fs) (hsh : sh.Valid) (hf : f.Valid sh)
    (hok : f.WakeOk sh) : ∀ g ∈ fs, g.WakeOk sh' := by
  intro g hg
  have hlife := h.lifecycle hsh hf
  cases g with
  | wake x b t pc =>
    -- the call is under way in any case, and if it is about to return the mark is set
    have hboth : Lifecycle.Begun b (view x sh') ∧
        (pc = .ret → Lifecycle.Woken (view x sh').status) := by
      rcases h.wake_mem_cases hg with ⟨rfl, rfl, rfl⟩ | ⟨pc', rfl, hne, hret⟩
      · have hb : Lifecycle.Begun (sh.hist x).polls (view x sh) :=
          ⟨decide_eq_true (hf (.task x) (by simp [Frame.mentions])), Nat.le_refl _⟩
        exact ⟨(hlife x).begun hb, by simp⟩
      · have hb : Lifecycle.Begun b (view x sh) := by
          cases pc' <;> first | exact hok | exact absurd rfl hne
        exact ⟨(hlife x).begun hb, hret⟩
    cases pc with
    | ret => exact ⟨hboth.1, Or.inr (hboth.2 rfl)⟩
    | _ => exact hboth.1
  | _ => trivial

end Step

/-- **Returned wake calls have had their effect**, in every reachable configuration. -/
theorem Reachable.wakesSettled {n m : ℕ} {c : Config (Shared V) (Frame V)} (h : Reachable n m c) :
    WakesSettled c.shared ∧ ∀ f ∈ c.frames, f.WakeOk c.shared := by
  refine h.invariant (I := fun sh F => WakesSettled sh ∧ ∀ f ∈ F, f.WakeOk sh) ⟨?_, ?_⟩ ?_
  · intro x b hb
    exact absurd hb (by simp [Shared.new, TaskHist.blank])
  · intro f hf
    rw [start_frames, Multiset.mem_add] at hf
    rcases hf with hf | hf <;> obtain rfl := Multiset.eq_of_mem_replicate hf <;> trivial
  · rintro c c' i f fs R hc - hF - hex ⟨hret, hok⟩
    obtain ⟨hsh, hval⟩ := hc.valid
    have hf := hval f (hF ▸ Multiset.mem_cons_self f R)
    have hfok := hok f (Multiset.mem_cons_self f R)
    have hlife := hex.lifecycle hsh hf
    refine ⟨fun x b hb => ?_, fun g hg => ?_⟩
    · rcases hex.returned_cases hb with hb | ⟨t, rfl⟩ | ⟨t, pc, rfl, hne, hw⟩
      · exact (hlife x).settled (hret x b hb)
      · exact (hlife x).settled hfok
      · have hbegun : Lifecycle.Begun b (view x c.shared) := by
          cases pc <;> first | exact hfok | exact absurd rfl hne
        exact ⟨(hlife x).begun hbegun, Or.inr hw⟩
    · rcases Multiset.mem_add.mp hg with hg | hg
      · exact hex.wakeOk hsh hf hfok g hg
      · -- a call of another thread: what is known of it is stable
        have hgok := hok g (Multiset.mem_cons_of_mem hg)
        cases g with
        | wake x b t pc =>
          cases pc <;> first | exact (hlife x).settled hgok | exact (hlife x).begun hgok
        | _ => trivial

/-! ### No lost wake-up -/

/-- The frame is a worker inside `poll_task` for the task `x`, past the compare-and-swap into
RUNNING and before the end of the poll's aftermath. -/
def Frame.insidePollTask (x : TaskId) : Frame V → Bool
  | .worker (.pollTask y pc) =>
    match pc with
    | .lookup | .casRunning | .remove | .decActive | .notifyAll => false
    | _ => y = x
  | _ => false

theorem insidePollTask_of_role {x : TaskId} {f : Frame V}
    (h : f.role = some (x, .runner) ∨ f.role = some (x, .resched)) :
    f.insidePollTask x = true := by
  cases f with
  | worker pc =>
    cases pc with
    | pollTask y pc => cases pc <;> simp_all [Frame.role, Frame.insidePollTask]
    | _ => simp [Frame.role] at h
  | spawn y pc => cases pc <;> simp [Frame.role] at h
  | enqueue y pc => cases pc <;> simp [Frame.role] at h
  | wake y b t pc => cases pc <;> simp [Frame.role] at h
  | _ => simp [Frame.role] at h

theorem exists_of_tally_pos {x : TaskId} {r : Lifecycle.Role} {F : Multiset (Frame V)}
    (h : 0 < tally x F r) : ∃ f ∈ F, f.role = some (x, r) := by
  obtain ⟨f, hf, hpos⟩ := (weigh_pos_iff _ F).mp h
  refine ⟨f, hf, ?_⟩
  by_contra hne
  rw [holds, if_neg hne] at hpos
  omega

/-- The next poll of the task `x` is provided for: a worker is inside `poll_task` and the state
is NOTIFIED, or the state is SCHEDULED and the id is queued, about to be pushed or dequeued. -/
def PollProvided (x : TaskId) (c : Config (Shared V) (Frame V)) : Prop :=
  ((c.shared.task x).status = .notified ∧ ∃ f ∈ c.frames, f.insidePollTask x = true) ∨
  ((c.shared.task x).status = .scheduled ∧
    (x ∈ c.shared.readyQueue.queue ∨ (∃ f ∈ c.frames, f.aboutToPush x = true) ∨
      ∃ f ∈ c.frames, f.dequeued x = true))

/-- A task whose state is SCHEDULED or NOTIFIED, and that has not ended, will be polled. -/
theorem Reachable.pollProvided {n m : ℕ} {c : Config (Shared V) (Frame V)} (h : Reachable n m c)
    {x : TaskId} (hf : (c.shared.hist x).finished = false)
    (hw : Lifecycle.Woken (c.shared.task x).status) : PollProvided x c := by
  rcases (h.lifecycle x).woken_cases hw hf with ⟨hs, hpos⟩ | ⟨hs, hpos⟩
  · refine Or.inl ⟨hs, ?_⟩
    rcases Nat.add_pos_iff_pos_or_pos.mp hpos with hpos | hpos
    · obtain ⟨f, hfm, hrole⟩ := exists_of_tally_pos hpos
      exact ⟨f, hfm, insidePollTask_of_role (Or.inl hrole)⟩
    · obtain ⟨f, hfm, hrole⟩ := exists_of_tally_pos hpos
      exact ⟨f, hfm, insidePollTask_of_role (Or.inr hrole)⟩
  · refine Or.inr ⟨hs, ?_⟩
    rw [← tokens_eq, tokens, Nat.add_pos_iff_pos_or_pos, Nat.add_pos_iff_pos_or_pos] at hpos
    rcases hpos with (hpos | hpos) | hpos
    · exact Or.inl (List.count_pos_iff.mp hpos)
    · exact Or.inr (Or.inl (Multiset.countP_pos.mp hpos))
    · exact Or.inr (Or.inr (Multiset.countP_pos.mp hpos))

/-- **No lost wake-up.** If a wake call on a task that has not ended was made after the latest
poll of the task began, and has returned, then the next poll is provided for. And over the whole
run there is at most one poll more than wake calls. -/
theorem no_lost_wakeup {n m : ℕ} {c : Config (Shared V) (Frame V)} (h : Reachable n m c)
    (x : TaskId) :
    ((c.shared.hist x).finished = false →
      (∃ b ∈ (c.shared.hist x).returned, b = (c.shared.hist x).polls) → PollProvided x c) ∧
    (c.shared.hist x).polls ≤ 1 + (c.shared.hist x).wakes := by
  constructor
  · rintro hf ⟨b, hb, rfl⟩
    obtain ⟨-, hlt | hw⟩ := h.wakesSettled.1 x _ hb
    · exact absurd hlt (Nat.lt_irrefl _)
    · exact h.pollProvided hf hw
  · have hbud := (h.lifecycle x).budget
    have hle := ind_le_one (view x c.shared).allocated
    rw [view_polls, view_wakes] at hbud
    omega

/-- A wake hits a task while its poll is running and returns. -/
theorem no_lost_wakeup_running : ∃ c : Config (Shared Unit) (Frame Unit), Reachable 1 1 c ∧
    (c.shared.hist 1).returned = [1] ∧ (c.shared.hist 1).polls = 1 ∧
      ((c.shared.hist 1).finished = false →
        (∃ b ∈ (c.shared.hist 1).returned, b = (c.shared.hist 1).polls) → PollProvided 1 c) ∧
      (c.shared.hist 1).polls ≤ 1 + (c.shared.hist 1).wakes := by
  obtain ⟨c, hc, hret, hpolls⟩ := exists_reachable 1 1
    [(1, .call .spawn), (1, .go), (1, .go), (1, .go), (1, .go), (1, .go),
      (0, .go), (0, .go), (0, .go), (0, .go),
      (1, .call (.wake (.task 1))), (1, .go), (1, .go), (1, .go)]
    (fun c : Config (Shared Unit) (Frame Unit) =>
      (c.shared.hist 1).returned = [1] ∧ (c.shared.hist 1).polls = 1)
    (by decide)
  exact ⟨c, hc, hret, hpolls, no_lost_wakeup hc 1⟩

end MiniAsync.MultiThread
