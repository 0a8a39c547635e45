/-
  Who waits for whom on a stack. A frame that is not the topmost one of its
  stack has made a call, and the call tells where it stands: a worker below a
  call of `enqueue_task` has just rescheduled its task, one below a call of a
  waker is in the middle of a poll or of `drive_io`. In all other positions a
  frame is on top of its stack, so its thread is about to act there; and what a
  worker thread still has to do is a stack of calls above one `worker` frame.
-/
import MiniAsync.Interleave.Stack
import MiniAsync.MultiThread.Inv.Workers

namespace MiniAsync.MultiThread

open Interleave

variable {V : Type}

/-! ### Calls -/

/-- What a frame is a call of; `own` is the code of a thread itself, and `user` are the calls that
only code outside of the runtime makes. -/
inductive CallKind where
  | own
  | wake
  | enqueue
  | spawn
  | fire
  | user
deriving DecidableEq

def Frame.kind : Frame V → CallKind
  | .worker _ | .external => .own
  | .wakerWake _ _ | .wake _ _ _ _ => .wake
  | .enqueue _ _ => .enqueue
  | .spawn _ _ => .spawn
  | .fire _ _ => .fire
  | .blockOn _ _ | .sleep _ | .pollSleep _ _ _ | .shutdown _ => .user

/-- The frame may wait for the return of a call of this kind. A call of `spawn` goes over into one
of `enqueue_task`, and the firing of a timer into the call of its waker. -/
def Frame.awaits : Frame V → CallKind → Bool
  | .external, k | .worker (.pollTask _ .polling), k => k != .own && k != .fire
  | .blockOn _ .park, k => k == .spawn || k == .enqueue
  | .wake _ _ _ .ret, k | .worker .top, k => k == .enqueue
  | .worker (.pollTask _ .unlock), k | .worker (.driveIo (.wakeAll _)), k => k == .wake
  | .worker (.driveIo (.process _ (.fired _ _ _))), k => k == .fire || k == .wake
  | _, _ => false

/-- The frame `f` waits for what is directly above it. -/
def Below (o : Option (Frame V)) (f : Frame V) : Prop := ∀ g ∈ o, f.awaits g.kind = true

theorem Frame.awaits_own (f : Frame V) : f.awaits .own = false := by
  unfold Frame.awaits
  split <;> rfl

theorem Frame.awaits_enqueue {f : Frame V} (h : f.awaits .spawn = true) :
    f.awaits .enqueue = true := by
  unfold Frame.awaits at h ⊢
  split at h <;> first | rfl | cases h

theorem Frame.awaits_wake {f : Frame V} (h : f.awaits .fire = true) : f.awaits .wake = true := by
  unfold Frame.awaits at h ⊢
  split at h <;> first | rfl | cases h

/-- Code outside of the runtime is all that makes the calls that only it may make. -/
theorem Frame.eq_baseFrame {f : Frame V} (h : f.awaits .user = true) : ∃ p, f = baseFrame p := by
  unfold Frame.awaits at h
  split at h
  · exact ⟨none, rfl⟩
  · exact ⟨some _, rfl⟩
  all_goals cases h

section Step

variable {i : ℕ} {sh sh' : Shared V} {f : Frame V} {fs : List (Frame V)}

/-- The frames of a step wait for each other. -/
theorem Exec.awaited (h : Exec i sh f sh' fs) : Linked Below none fs := by
  cases h
  case callSpawn p | callBlockOn p | callShutdown p =>
    cases p <;> simp [Linked, Below, Frame.awaits, Frame.kind, baseFrame]
  case callSleep p _ | callWake p _ _ | callPollSleep p _ _ _ _ =>
    cases p <;> simp [Linked, Below, Frame.awaits, Frame.kind, baseFrame]
  all_goals simp [Linked, Below, Frame.awaits, Frame.kind]

/-- A call stays a call of its kind, up to the two changes. -/
theorem Exec.kind_getLast (h : Exec i sh f sh' fs) (hown : f.kind ≠ .own) :
    ∀ l ∈ fs.getLast?, l.kind = f.kind ∨ (f.kind = .spawn ∧ l.kind = .enqueue) ∨
      (f.kind = .fire ∧ l.kind = .wake) := by
  have hbase : ∀ p : Option TaskId, (baseFrame p : Frame V).kind = .own := by
    intro p
    cases p <;> rfl
  intro l hl
  cases h
  case callSpawn p | callBlockOn p | callShutdown p => exact absurd (hbase p) hown
  case callSleep p _ | callWake p _ _ | callPollSleep p _ _ _ _ => exact absurd (hbase p) hown
  case joinReady p _ _ _ _ _ _ _ | joinPending p _ _ _ _ _ _ _ => exact absurd (hbase p) hown
  case incActive | fireWake =>
    obtain rfl : _ = l := by simpa using hl
    simp [Frame.kind]
  all_goals first
    | exact absurd rfl hown
    | obtain rfl : _ = l := by simpa using hl
      exact Or.inl rfl
    | simp at hl

/-- Who waits for a call also waits for what the call goes over into. -/
theorem Exec.awaits_getLast (h : Exec i sh f sh' fs) {g : Frame V}
    (hg : g.awaits f.kind = true) : Below fs.getLast? g := by
  intro l hl
  have hown : f.kind ≠ .own := by
    intro heq
    rw [heq, g.awaits_own] at hg
    cases hg
  rcases h.kind_getLast hown l hl with hk | ⟨hf, hk⟩ | ⟨hf, hk⟩
  · rw [hk]
    exact hg
  · rw [hf] at hg
    rw [hk]
    exact Frame.awaits_enqueue hg
  · rw [hf] at hg
    rw [hk]
    exact Frame.awaits_wake hg

end Step

section Run

variable {n m : ℕ} {c : Config (Shared V) (Frame V)}

/-- **Every frame waits for what is above it**, in every reachable configuration. -/
theorem Reachable.awaited (h : Reachable n m c) : ∀ st ∈ c.threads, Linked Below none st := by
  refine Machine.ReachesVia.stack_invariant (A := fun _ => Below) h ?_ ?_
  · intro st hst
    have hone : ∃ f, st = [f] := by
      rcases List.mem_append.mp hst with hst | hst
      · exact ⟨_, List.eq_of_mem_replicate hst⟩
      · exact ⟨_, List.eq_of_mem_replicate hst⟩
    obtain ⟨f, rfl⟩ := hone
    exact ⟨fun g hg => (nomatch hg), trivial⟩
  · intro c c' i x f fs R _ _ _ _ _ hex _
    have hex := exec_cases hex
    exact ⟨hex.awaited, fun g _ hg => hex.awaits_getLast (hg f rfl), fun _ _ _ hg => hg⟩

/-- A frame that waits for no call is on top of its stack. -/
theorem Reachable.exists_top (h : Reachable n m c) {f : Frame V} (hf : f ∈ c.frames)
    (hawaits : ∀ k, f.awaits k = false) : ∃ i, c.top i = some f := by
  obtain ⟨st, hst, hmem⟩ := List.mem_flatten.mp (Multiset.mem_coe.mp hf)
  obtain ⟨i, hi⟩ := List.getElem?_of_mem hst
  refine ⟨i, ?_⟩
  rcases (h.awaited st hst).mem_cases hmem with hhead | ⟨g, hg⟩
  · rw [Config.top, hi]
    exact hhead
  · have hk := hg g rfl
    rw [hawaits] at hk
    cases hk

/-- There is nothing below a thread's own code. -/
theorem linked_own {o : Option (Frame V)} {f : Frame V} {st : List (Frame V)}
    (h : Linked Below o (f :: st)) (hf : f.kind = .own) : st = [] := by
  cases st with
  | nil => rfl
  | cons g st =>
    have hg := h.2.1 f rfl
    rw [hf, g.awaits_own] at hg
    cases hg

end Run

/-! ### The bottom of a stack -/

section Bottom

variable {i : ℕ} {sh sh' : Shared V} {f : Frame V} {fs : List (Frame V)}

/-- The frame may be at the bottom of the stack of thread `i`: threads `0, …, n - 1` are the
workers. -/
def Frame.IsBottom (n i : ℕ) : Frame V → Prop
  | .worker _ => i < n
  | .external => n ≤ i
  | _ => False

theorem Frame.IsBottom.kind {n i : ℕ} {f : Frame V} (h : f.IsBottom n i) : f.kind = .own := by
  unfold Frame.IsBottom at h
  split at h
  · rfl
  · rfl
  · cases h

/-- A thread's own code stays below its calls. -/
theorem Exec.bottom (h : Exec i sh f sh' fs) {n j : ℕ} (hf : f.IsBottom n j) :
    ∀ l ∈ fs.getLast?, l.IsBottom n j := by
  intro l hl
  cases h
  case callSpawn p | callBlockOn p | callShutdown p =>
    obtain rfl : baseFrame p = l := by simpa using hl
    exact hf
  case callSleep p _ | callWake p _ _ | callPollSleep p _ _ _ _ =>
    obtain rfl : baseFrame p = l := by simpa using hl
    exact hf
  case joinReady p _ _ _ _ _ _ _ | joinPending p _ _ _ _ _ _ _ =>
    obtain rfl : baseFrame p = l := by simpa using hl
    exact hf
  all_goals first
    | obtain rfl : _ = l := by simpa using hl
      exact hf
    | simp at hl

variable {n m : ℕ} {c : Config (Shared V) (Frame V)}

/-- **The bottom of every stack is the thread's own code.** -/
theorem Reachable.bottom (h : Reachable n m c) : ∀ (i : ℕ) (st : List (Frame V)),
    c.threads[i]? = some st → ∀ l ∈ st.getLast?, l.IsBottom n i := by
  refine Machine.ReachesVia.invariant (I := fun c => ∀ (i : ℕ) (st : List (Frame V)),
    c.threads[i]? = some st → ∀ l ∈ st.getLast?, l.IsBottom n i) h ?_ ?_
  · intro i st hst l hl
    simp only [start] at hst
    by_cases hi : i < n
    · rw [List.getElem?_append_left (by simpa using hi), List.getElem?_replicate, if_pos hi] at hst
      obtain rfl := Option.some.inj hst
      obtain rfl := Option.some.inj hl
      exact hi
    · rw [List.getElem?_append_right (by simpa using hi)] at hst
      rw [List.eq_of_mem_replicate (List.mem_of_getElem? hst)] at hl
      obtain rfl := Option.some.inj hl
      exact Nat.le_of_not_lt hi
  · intro c c' i x _ _ hs hI j st hst l hl
    obtain ⟨f, k, fs, R, hi, hex, hthreads, -, -⟩ := Machine.step_cases hs
    rw [hthreads] at hst
    rcases Machine.threads_set_cases hst with ⟨rfl, rfl⟩ | ⟨-, hst⟩
    · have hold := hI j _ hi
      cases k with
      | nil =>
        rw [List.append_nil] at hl
        exact (exec_cases hex).bottom (hold f rfl) l hl
      | cons g k =>
        refine hold l ?_
        rw [List.getLast?_append] at hl
        rw [List.getLast?_cons_cons]
        cases hlast : (g :: k).getLast? with
        | none => simp at hlast
        | some l' =>
          rw [hlast] at hl
          exact hl
    · exact hI j st hst l hl

end Bottom

section Workers

variable {i : ℕ} {sh sh' : Shared V} {f : Frame V} {fs : List (Frame V)}

/-- A worker stays one until it has seen `shutdown`. -/
theorem Exec.worker_frames (h : Exec i sh f sh' fs) {pc : WorkerPc V} (hf : f = .worker pc) :
    (fs = [] ∧ sh'.shutdown = true) ∨ ∃ k pc', fs = k ++ [.worker pc'] := by
  have hbase : ∀ (k : List (Frame V)) (p : Option TaskId), baseFrame p = Frame.worker pc →
      ∃ k' pc', k ++ [baseFrame p] = k' ++ [Frame.worker pc'] :=
    fun k p hp => ⟨k, pc, by rw [hp]⟩
  cases h
  case topExit h | sleepExit h => exact Or.inl ⟨rfl, h⟩
  case callSpawn p | callShutdown p => exact Or.inr (hbase [_] p hf)
  case callBlockOn p => exact Or.inr (hbase [_, _] p hf)
  case callSleep p _ | callWake p _ _ | callPollSleep p _ _ _ _ => exact Or.inr (hbase [_] p hf)
  case joinReady p _ _ _ _ _ _ _ | joinPending p _ _ _ _ _ _ _ => exact Or.inr (hbase [] p hf)
  case storeResultWake | storeScheduled | complete | wakeAllNext => exact Or.inr ⟨[_], _, rfl⟩
  all_goals first | exact Or.inr ⟨[], _, rfl⟩ | cases hf

variable {n m : ℕ} {c : Config (Shared V) (Frame V)}

/-- **A worker thread** is a stack of calls above one `worker` frame, or has ended after
`shutdown` was set. -/
theorem Reachable.worker_stack (h : Reachable n m c) {i : ℕ} (hi : i < n) :
    (∃ k pc, c.threads[i]? = some (k ++ [.worker pc])) ∨
      (c.shared.shutdown = true ∧ c.threads[i]? = some []) := by
  refine Machine.ReachesVia.invariant (I := fun c =>
    (∃ k pc, c.threads[i]? = some (k ++ [.worker pc])) ∨
      (c.shared.shutdown = true ∧ c.threads[i]? = some [])) h ?_ ?_
  · refine Or.inl ⟨[], .top, ?_⟩
    simp only [start]
    rw [List.getElem?_append_left (by simpa using hi), List.getElem?_replicate, if_pos hi]
    rfl
  · intro c c' j x _ _ hs hI
    obtain ⟨f, k, fs, R, hj, hex, hthreads, -, -⟩ := Machine.step_cases hs
    have hex := exec_cases hex
    by_cases hij : i = j
    · subst hij
      have hlt := (List.getElem?_eq_some_iff.mp hj).1
      rw [hthreads, List.getElem?_set_self hlt]
      rcases hI with ⟨k', pc, hst⟩ | ⟨-, hst⟩
      · have heq : f :: k = k' ++ [.worker pc] := Option.some.inj (hj.symm.trans hst)
        cases k' with
        | nil =>
          -- the worker's own code
          obtain ⟨rfl, rfl⟩ := List.cons.inj heq
          rcases hex.worker_frames rfl with ⟨rfl, hsd⟩ | ⟨k₂, pc', rfl⟩
          · exact Or.inr ⟨hsd, rfl⟩
          · exact Or.inl ⟨k₂, pc', by rw [List.append_nil]⟩
        | cons g k' =>
          rw [List.cons_append] at heq
          obtain ⟨-, rfl⟩ := List.cons.inj heq
          exact Or.inl ⟨fs ++ k', pc, by rw [List.append_assoc]⟩
      · rw [hj] at hst
        cases hst
    · rw [hthreads, List.getElem?_set_ne (Ne.symm hij)]
      rcases hI with hI | ⟨hsd, hst⟩
      · exact Or.inl hI
      · exact Or.inr ⟨hex.shutdown_mono hsd, hst⟩

/-- A worker takes itself off `workers_alive` as it ends, and no other step ends a thread. -/
theorem Exec.workersAlive_cases (h : Exec i sh f sh' fs) :
    (sh'.workersAlive = sh.workersAlive ∧ (f.kind = .own → fs ≠ [])) ∨
      (sh'.workersAlive = sh.workersAlive.erase i ∧ f.kind = .own ∧ fs = []) := by
  cases h
  case topExit | sleepExit => exact Or.inr ⟨rfl, rfl, rfl⟩
  all_goals exact Or.inl ⟨rfl, fun hown => by
    first | exact List.cons_ne_nil _ _ | cases hown⟩

/-- **Who can be joined has ended**: a thread is one of the workers that are alive exactly if it is
a worker that still has something to do. -/
theorem Reachable.mem_workersAlive (h : Reachable n m c) {j : ℕ} :
    j ∈ c.shared.workersAlive ↔ j < n ∧ ∃ f, c.top j = some f := by
  refine Machine.ReachesVia.invariant (I := fun c =>
    j ∈ c.shared.workersAlive ↔ j < n ∧ ∃ f, c.top j = some f) h ?_ ?_
  · rw [show (start V n m).shared.workersAlive = Finset.range n from rfl, Finset.mem_range]
    refine ⟨fun hj => ⟨hj, .worker .top, ?_⟩, And.left⟩
    rw [Config.top]
    simp only [start]
    rw [List.getElem?_append_left (by simpa using hj), List.getElem?_replicate, if_pos hj]
    rfl
  · intro c c' i x hc _ hs hI
    obtain ⟨f, k, fs, R, hi, hex, hthreads, -, -⟩ := Machine.step_cases hs
    have hstack := Reachable.awaited hc _ (List.mem_of_getElem? hi)
    have hbottom := Reachable.bottom hc i _ hi
    by_cases hij : j = i
    · subst hij
      have htop : c.top j = some f := by rw [Config.top, hi]; rfl
      have htop' := Machine.top_eq_self hthreads hi
      rcases (exec_cases hex).workersAlive_cases with ⟨heq, hne⟩ | ⟨heq, hown, rfl⟩
      · -- something is left of the stack, if not of the call then below it
        have hsome : ∃ g, c'.top j = some g := by
          rw [htop']
          cases fs with
          | cons g fs => exact ⟨g, rfl⟩
          | nil =>
            cases k with
            | cons g k => exact ⟨g, rfl⟩
            | nil => exact absurd rfl (hne (hbottom f rfl).kind)
        rw [heq, hI]
        exact ⟨fun hj => ⟨hj.1, hsome⟩, fun hj => ⟨hj.1, f, htop⟩⟩
      · have hk := linked_own hstack hown
        subst hk
        rw [heq, htop']
        simp
    · have halive : j ∈ c'.shared.workersAlive ↔ j ∈ c.shared.workersAlive := by
        rcases (exec_cases hex).workersAlive_cases with ⟨heq, -⟩ | ⟨heq, -, -⟩
        · rw [heq]
        · rw [heq, Finset.mem_erase]
          exact and_iff_right hij
      rw [halive, hI, Machine.top_eq_of_ne hthreads hij]

end Workers

end MiniAsync.MultiThread
