/-
  The counter of live tasks. `spawn` inserts a task into the task map and counts
  it in a second step; `poll_task` removes it and discounts it in a second step. So
  the counter and the size of the map differ by the calls that are between their
  two steps (`Balanced`).

  The counter is not discounted below zero because a task that is inserted and not
  counted yet is still in the map (`Reachable.uncounted_le`), and each task is
  discounted once because it is removed once (`removals_eq`, `decrements_eq`).
-/
import MiniAsync.MultiThread.Inv.TaskLife
import Mathlib.Order.Interval.Finset.Nat

namespace MiniAsync.MultiThread

open Interleave

variable {V : Type}

/-- The task that a `spawn` has inserted and not counted yet. -/
def Frame.uncounted : Frame V → Option TaskId
  | .spawn x .incActive => some x
  | _ => none

/-- The task that a `poll_task` has removed and not discounted yet. -/
def Frame.overcounted : Frame V → Option TaskId
  | .worker (.pollTask x .decActive) => some x
  | _ => none

/-- The next step of the frame takes the task `x` out of the task map. -/
def Frame.removes (x : TaskId) : Frame V → Bool
  | .worker (.pollTask y .remove) => y = x
  | _ => false

/-- The next step of the frame is the `fetch_sub` for the task `x`. -/
def Frame.decrements (x : TaskId) : Frame V → Bool
  | .worker (.pollTask y .decActive) => y = x
  | _ => false

/-- The counter and the task map agree up to the calls that are between their two steps. -/
def Balanced (sh : Shared V) (F : Multiset (Frame V)) : Prop :=
  sh.activeCount + (F.filterMap Frame.uncounted).card
    = sh.tasks.card + (F.filterMap Frame.overcounted).card

theorem count_overcounted (x : TaskId) (f : Frame V) :
    ([f].filterMap Frame.overcounted).count x = ind (f.decrements x) := by
  unfold Frame.overcounted Frame.decrements
  cases f with
  | worker pc =>
    cases pc with
    | pollTask y pc =>
      cases pc with
      | decActive =>
        by_cases hy : y = x
        · simp [hy]
        · simp [hy]
      | _ => rfl
    | _ => rfl
  | _ => rfl

section Step

variable {i : ℕ} {sh sh' : Shared V} {f : Frame V} {fs : List (Frame V)}

/-- A task is marked as removed when it is. -/
theorem Exec.removed_eq (h : Exec i sh f sh' fs) (x : TaskId)
    (hnew : (sh.hist sh.nextTaskId).removed = false)
    (hx : f.removes x = true → (sh.hist x).removed = false) :
    ind (sh'.hist x).removed = ind (sh.hist x).removed + ind (f.removes x) := by
  have hcreate : ∀ root, ((sh.newTask root).hist x).removed = (sh.hist x).removed := by
    intro root
    rcases eq_or_ne x sh.nextTaskId with rfl | hne
    · rw [hnew, Shared.newTask]
      simp [TaskHist.blank]
    · simp [Shared.newTask, hne]
  cases h
  case remove y =>
    rcases eq_or_ne x y with rfl | hne
    · rw [Shared.modifyHist_hist_self, hx (decide_eq_true rfl)]
      simp [Frame.removes]
    · rw [Shared.modifyHist_hist_of_ne _ hne]
      simp [Frame.removes, hne.symm]
  case callSpawn p | callBlockOn p =>
    rw [hcreate]
    cases p <;> rfl
  case callSleep p _ | callShutdown p | callWake p _ _ | callPollSleep p _ _ _ _ =>
    cases p <;> rfl
  case joinReady p y w v _ _ _ _ | joinPending p y w _ _ _ _ _ =>
    rw [Shared.modifyHist_hist TaskHist.removed _ x y _ rfl]
    cases p <;> rfl
  -- the other steps do not touch the mark
  all_goals first
    | rfl
    | exact congrArg ind (Shared.modifyHist_hist TaskHist.removed _ x _ _ rfl)

/-- A task is to be discounted when it is removed. -/
theorem Exec.overcounted_eq (h : Exec i sh f sh' fs) (x : TaskId) :
    (fs.filterMap Frame.overcounted).count x = ind (f.removes x) := by
  cases h
  case remove y => exact count_overcounted x (atPoll y .decActive)
  case callSpawn p | callBlockOn p | callShutdown p => cases p <;> rfl
  case callSleep p _ | callWake p _ _ | callPollSleep p _ _ _ _ => cases p <;> rfl
  case joinReady p _ _ _ _ _ _ _ | joinPending p _ _ _ _ _ _ _ => cases p <;> rfl
  all_goals rfl

/-- **One step keeps the balance**, if what is inserted is new, what is removed is there and the
counter is not zero when it is decremented. -/
theorem Exec.balanced (h : Exec i sh f sh' fs) {R : Multiset (Frame V)}
    (hins : ∀ x, f = .spawn x .insert → x ∉ sh.tasks)
    (hrem : ∀ x, f = atPoll x .remove → x ∈ sh.tasks)
    (hle : ((f ::ₘ R).filterMap Frame.uncounted).card ≤ sh.tasks.card)
    (hI : Balanced sh (f ::ₘ R)) : Balanced sh' (↑fs + R) := by
  rw [filterMap_cons, Multiset.card_add, Multiset.coe_card] at hle
  rw [Balanced, filterMap_cons, filterMap_cons, Multiset.card_add, Multiset.card_add,
    Multiset.coe_card, Multiset.coe_card] at hI
  rw [Balanced, filterMap_coe_add, filterMap_coe_add, Multiset.card_add, Multiset.card_add,
    Multiset.coe_card, Multiset.coe_card]
  generalize (R.filterMap Frame.uncounted).card = u at hI hle ⊢
  generalize (R.filterMap Frame.overcounted).card = o at hI ⊢
  cases h
  case insert x =>
    have hcard := Finset.card_insert_of_notMem (hins x rfl)
    change sh.activeCount + (1 + u) = (Insert.insert x sh.tasks).card + (0 + o)
    change sh.activeCount + (0 + u) = sh.tasks.card + (0 + o) at hI
    omega
  case incActive x =>
    change sh.activeCount + 1 + (0 + u) = sh.tasks.card + (0 + o)
    change sh.activeCount + (1 + u) = sh.tasks.card + (0 + o) at hI
    omega
  case remove x =>
    have hcard := Finset.card_erase_add_one (hrem x rfl)
    change sh.activeCount + (0 + u) = (sh.tasks.erase x).card + (1 + o)
    change sh.activeCount + (0 + u) = sh.tasks.card + (0 + o) at hI
    omega
  case decActive x =>
    change sh.decActive.activeCount + (0 + u) = sh.tasks.card + (0 + o)
    change sh.activeCount + (0 + u) = sh.tasks.card + (1 + o) at hI
    change 0 + u ≤ sh.tasks.card at hle
    have hpos : sh.activeCount ≠ 0 := by omega
    have hdec : sh.decActive.activeCount = sh.activeCount - 1 := if_neg hpos
    omega
  case callSpawn p | callBlockOn p | callShutdown p => cases p <;> exact hI
  case callSleep p _ | callWake p _ _ | callPollSleep p _ _ _ _ => cases p <;> exact hI
  all_goals exact hI

end Step

section Run

variable {n m : ℕ} {c : Config (Shared V) (Frame V)}

/-- A task that is not counted yet is in the task map, and it waits for one call only. -/
theorem Reachable.uncounted_le (h : Reachable n m c) (x : TaskId) :
    (c.frames.filterMap Frame.uncounted).count x ≤ if x ∈ c.shared.tasks then 1 else 0 := by
  have hI := h.lifecycle x
  have hle : (c.frames.filterMap Frame.uncounted).count x ≤ tally x c.frames .pushing := by
    rw [count_filterMap]
    refine weigh_le_weigh (fun f => ?_) c.frames
    cases f with
    | spawn y pc => cases pc <;> simp [Frame.uncounted, holds, Frame.role]
    | _ => exact Nat.zero_le _
  have htok := hI.tokens
  rcases Nat.eq_zero_or_pos (tally x c.frames .pushing) with hzero | hpos
  · omega
  · rw [if_pos (of_decide_eq_true (hI.listed_of_token (by omega)))]
    split_ifs at htok <;> omega

theorem Reachable.card_uncounted_le (h : Reachable n m c) :
    (c.frames.filterMap Frame.uncounted).card ≤ c.shared.tasks.card :=
  card_filterMap_le h.uncounted_le

/-- What the frame that is executed knows of its task. -/
theorem Reachable.role_pos (h : Reachable n m c) {f : Frame V} {R : Multiset (Frame V)} {x : TaskId}
    {r : Lifecycle.Role} (hF : c.frames = f ::ₘ R) (hf : f.role = some (x, r)) :
    Lifecycle.Inv (view x c.shared) (tally x c.frames) ∧ 0 < tally x c.frames r := by
  refine ⟨h.lifecycle x, ?_⟩
  rw [hF, tally, weigh_cons, holds, if_pos hf]
  omega

theorem Reachable.balanced (h : Reachable n m c) : Balanced c.shared c.frames := by
  refine h.invariant (I := Balanced) ?_ ?_
  · rw [Balanced, filterMap_start _ rfl rfl, filterMap_start _ rfl rfl]
    rfl
  · intro c c' i f fs R hc _ hF _ hex hI
    refine hex.balanced (fun x hf => ?_) (fun x hf => ?_) (hF ▸ hc.card_uncounted_le) hI
    · obtain ⟨hlife, hpos⟩ := hc.role_pos (x := x) (r := .inserting) hF (by rw [hf]; rfl)
      exact of_decide_eq_false (hlife.not_listed_of_inserting hpos)
    · obtain ⟨hlife, hpos⟩ := hc.role_pos (x := x) (r := .completing) hF (by rw [hf]; rfl)
      exact of_decide_eq_true (hlife.listed_of_completing hpos).1

/-- A task is removed at most once. -/
theorem Reachable.removed_step (h : Reachable n m c) {i : ℕ} {f : Frame V} {fs : List (Frame V)}
    {R : Multiset (Frame V)} {sh' : Shared V} (hF : c.frames = f ::ₘ R)
    (hex : Exec i c.shared f sh' fs) (x : TaskId) :
    ind (sh'.hist x).removed = ind (c.shared.hist x).removed + ind (f.removes x) := by
  refine hex.removed_eq x ?_ fun hf => ?_
  · refine (h.lifecycle c.shared.nextTaskId).not_removed_of_fresh (decide_eq_false ?_)
    exact fun hal => Nat.lt_irrefl _ hal.2
  · have hrole : f.role = some (x, .completing) := by
      unfold Frame.removes at hf
      split at hf
      · rw [of_decide_eq_true hf]
        rfl
      · cases hf
    obtain ⟨hlife, hpos⟩ := h.role_pos hF hrole
    exact (hlife.listed_of_completing hpos).2

theorem removals_eq {x : TaskId} {k : ℕ}
    (h : (machine V).Counts (Frame.removes x) (start V n m) k c) :
    k = ind (c.shared.hist x).removed := by
  refine h.frame_invariant (I := fun k sh _ => k = ind (sh.hist x).removed) rfl ?_
  intro k c c' i ch f fs R hc hF hex hI
  rw [Reachable.removed_step hc hF (exec_cases hex) x, hI]

theorem decrements_eq {x : TaskId} {k : ℕ}
    (h : (machine V).Counts (Frame.decrements x) (start V n m) k c) :
    k + (c.frames.filterMap Frame.overcounted).count x = ind (c.shared.hist x).removed := by
  refine h.frame_invariant (I := fun k sh F =>
    k + (F.filterMap Frame.overcounted).count x = ind (sh.hist x).removed) ?_ ?_
  · rw [filterMap_start _ rfl rfl]
    rfl
  · intro k c c' i ch f fs R hc hF hex hI
    have hex := exec_cases hex
    rw [filterMap_cons, Multiset.count_add, Multiset.coe_count, count_overcounted] at hI
    rw [filterMap_coe_add, Multiset.count_add, Multiset.coe_count, hex.overcounted_eq,
      Reachable.removed_step hc hF hex]
    omega

/-- Every id that is counted or still to be discounted was given out. -/
theorem Reachable.card_tasks_add_lt (h : Reachable n m c) :
    c.shared.tasks.card + (c.frames.filterMap Frame.overcounted).card < c.shared.nextTaskId := by
  have hle : c.shared.tasks.val + c.frames.filterMap Frame.overcounted
      ≤ (Finset.Ico 1 c.shared.nextTaskId).val := by
    refine Multiset.le_iff_count.mpr fun x => ?_
    obtain ⟨k, hk⟩ := Machine.Reaches.exists_counts h (Frame.decrements x)
    have hdec := decrements_eq hk
    have hlist : ind (decide (x ∈ c.shared.tasks)) + tally x c.frames .inserting
        + ind (c.shared.hist x).removed = ind (decide (c.shared.Allocated x)) :=
      (h.lifecycle x).listed
    have htasks : c.shared.tasks.val.count x = ind (decide (x ∈ c.shared.tasks)) := by
      rw [Multiset.count_eq_of_nodup c.shared.tasks.nodup, ind_decide]
      rfl
    have hids : (Finset.Ico 1 c.shared.nextTaskId).val.count x
        = ind (decide (c.shared.Allocated x)) := by
      have hmem : x ∈ Finset.Ico 1 c.shared.nextTaskId ↔ c.shared.Allocated x := Finset.mem_Ico
      rw [Multiset.count_eq_of_nodup (Finset.nodup _), ind_decide]
      exact if_congr hmem rfl rfl
    rw [Multiset.count_add, htasks, hids]
    omega
  have hcard := Multiset.card_le_card hle
  rw [Multiset.card_add, Finset.card_val, Finset.card_val, Nat.card_Ico] at hcard
  exact (Nat.le_sub_one_iff_lt h.valid.1.next).mp hcard

/-- **The counter of live tasks.** In every reachable configuration the counter and the spawns that
have inserted their task and not counted it are together as many as the tasks in the task map and
the calls of `poll_task` that have removed their task and not discounted it. A counter that is going
to be decremented is not zero; it stays below the next id, so it overflows no sooner than the ids
do. In every run each task is removed at most once and discounted at most once. -/
theorem live_tasks_counted (h : Reachable n m c) :
    c.shared.activeCount + (c.frames.filterMap Frame.uncounted).card
        = c.shared.tasks.card + (c.frames.filterMap Frame.overcounted).card ∧
      (∀ x, atPoll x .decActive ∈ c.frames → 0 < c.shared.activeCount) ∧
      c.shared.activeCount < c.shared.nextTaskId ∧
      ∀ x k, ((machine V).Counts (Frame.removes x) (start V n m) k c → k ≤ 1) ∧
        ((machine V).Counts (Frame.decrements x) (start V n m) k c → k ≤ 1) := by
  have hbal : c.shared.activeCount + _ = _ := h.balanced
  have hle := h.card_uncounted_le
  have hlt := h.card_tasks_add_lt
  refine ⟨hbal, fun x hx => ?_, by omega, fun x k => ⟨fun hk => ?_, fun hk => ?_⟩⟩
  · have hpos : 0 < (c.frames.filterMap Frame.overcounted).card :=
      Multiset.card_pos_iff_exists_mem.mpr ⟨x, (Multiset.mem_filterMap _ _).mpr ⟨_, hx, rfl⟩⟩
    omega
  · rw [removals_eq hk]
    exact ind_le_one _
  · have hdec := decrements_eq hk
    have hone := ind_le_one (c.shared.hist x).removed
    omega

/-- The task `1` is removed and not discounted, the task `2` is inserted and not counted. -/
theorem live_tasks_counted_between : ∃ c : Config (Shared Unit) (Frame Unit),
    c.top 0 = some (atPoll 1 .decActive) ∧ c.top 1 = some (.spawn 2 .incActive) ∧
      c.shared.tasks = {2} ∧ 0 < c.shared.activeCount ∧
      c.shared.activeCount + (c.frames.filterMap Frame.uncounted).card
        = c.shared.tasks.card + (c.frames.filterMap Frame.overcounted).card := by
  obtain ⟨c, hc, hpoll, hspawn, htasks⟩ := exists_reachable 1 1
    [(1, .call .spawn), (1, .go), (1, .go), (1, .go), (1, .go), (1, .go),
      (0, .go), (0, .go), (0, .go), (0, .go), (0, .ret (.ready ())), (0, .go), (0, .go), (0, .go),
      (1, .call .spawn), (1, .go)]
    (fun c : Config (Shared Unit) (Frame Unit) => c.top 0 = some (atPoll 1 .decActive) ∧
      c.top 1 = some (.spawn 2 .incActive) ∧ c.shared.tasks = {2})
    (by decide)
  obtain ⟨hbal, hpos, -⟩ := live_tasks_counted hc
  exact ⟨c, hpoll, hspawn, htasks, hpos 1 (mem_frames_of_top hpoll), hbal⟩

end Run

end MiniAsync.MultiThread
