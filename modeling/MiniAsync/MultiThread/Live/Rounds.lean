/-
  The rounds of a worker in a fair run.

  A run is fair here when a thread that can go on again and again does so, and
  when the polls of the futures, and the calls that a worker makes, return. Nothing
  is assumed of timeouts: a worker on the condvar that nobody notifies, or a driver
  in `epoll_wait` with an empty eventfd, may stay there for ever.

  On its way through the loop of `run_worker` a worker passes positions of smaller
  and smaller rank until it is back at the top (`Exec.rank`). The rank is a pair:
  the firing loop of `TimerWheel::process` is as long as the heap, and the heap is
  read when the loop begins. So a worker comes back to the top of its loop, or it
  ends, or it stays at rest for ever (`worker_round`).
-/
import MiniAsync.Interleave.Fair
import MiniAsync.MultiThread.Inv.Rest
import MiniAsync.MultiThread.Inv.Timers
import Mathlib.Data.Prod.Lex

namespace MiniAsync.MultiThread

open Interleave Trace

variable {V : Type}

/-! ### Fair runs -/

/-- Thread `i` can go on, without anything new. -/
def CanGoOn (d : Config (Shared V) (Frame V)) (i : ℕ) : Prop :=
  ¬ Rests d i ∧ ∃ ch d', (machine V).step d i ch = some d'

/-- Thread `i` is in its own code: in no call, and not in the poll of a future. -/
def InOwnCode (d : Config (Shared V) (Frame V)) (i : ℕ) : Prop :=
  ∃ st, d.threads[i]? = some st ∧ st.length ≤ 1 ∧ ∀ x, atPoll x .polling ∉ st

/-- A fair run of a runtime with `n` workers: a thread that can go on again and again does so, and
what a worker calls returns. -/
structure FairRun (n m : ℕ) (c : ℕ → Config (Shared V) (Frame V)) (a : ℕ → ℕ × Choice V) :
    Prop where
  run : Infinite (machine V).system (start V n m) c a
  fair : Fair CanGoOn c a
  returns : ∀ i < n, ∀ k, ∃ l, k ≤ l ∧ InOwnCode (c l) i

section Acts

variable {n m : ℕ} {c : ℕ → Config (Shared V) (Frame V)} {a : ℕ → ℕ × Choice V}
  (h : FairRun n m c a)
include h

theorem FairRun.reachable (k : ℕ) : Reachable n m (c k) := reaches_of_infinite h.run k

/-- The move of a thread, read off the table. -/
theorem FairRun.exec_of_move {i k : ℕ} {f : Frame V} {st : List (Frame V)} (hi : (a k).1 = i)
    (hst : (c k).threads[i]? = some (f :: st)) :
    ∃ fs, Exec i (c k).shared f (c (k + 1)).shared fs ∧
      (c (k + 1)).threads[i]? = some (fs ++ st) := by
  have hs := step_of_infinite h.run k
  rw [hi] at hs
  obtain ⟨g, rest, fs, R, hg, hex, hthreads, -, -⟩ := Machine.step_cases hs
  obtain ⟨rfl, rfl⟩ := List.cons.inj (Option.some.inj (hg.symm.trans hst))
  refine ⟨fs, exec_cases hex, ?_⟩
  rw [hthreads, List.getElem?_set_self (List.getElem?_eq_some_iff.mp hg).1]

/-- A thread at a position where it never rests, and which needs no mutex, goes on. -/
theorem FairRun.acts {i k : ℕ} {f : Frame V} {st : List (Frame V)}
    (hst : (c k).threads[i]? = some (f :: st)) (hr : ∀ sh, ¬ f.Rests sh i)
    (hq : f.needsQueue = false) :
    ∃ l fs, k ≤ l ∧ Exec i (c l).shared f (c (l + 1)).shared fs ∧
      (c (l + 1)).threads[i]? = some (fs ++ st) := by
  have hmove := h.fair.moves h.run hst (fun hstay l hl => by
    have htop : (c l).top i = some f := by simp [Config.top, hstay l hl]
    have hfree : f.needsQueue = true → (c l).shared.queueLocked = false := fun hneeds => by
      rw [hq] at hneeds
      cases hneeds
    exact ⟨l, Nat.le_refl l, fun hrests => hr _ (hrests f htop),
      (h.reachable l).exists_step htop (hr _) hfree⟩)
  obtain ⟨l, hl, hi, hst'⟩ := hmove
  obtain ⟨fs, hex, hnext⟩ := h.exec_of_move hi hst'
  exact ⟨l, fs, hl, hex, hnext⟩

/-- **The queue mutex is free again and again.** -/
theorem FairRun.unlocked (k : ℕ) : ∃ l, k ≤ l ∧ (c l).shared.queueLocked = false := by
  -- a worker that is about to wait releases the mutex
  have hwait : ∀ j k, (c k).top j = some (.worker .wait) →
      ∃ l, k ≤ l ∧ (c l).shared.queueLocked = false := by
    intro j k htop
    obtain ⟨st, hst⟩ := exists_stack_of_top htop
    obtain ⟨l, fs, hl, hex, -⟩ := h.acts hst (fun _ => id) rfl
    refine ⟨l + 1, Nat.le_succ_of_le hl, ?_⟩
    generalize (c (l + 1)).shared = sh' at hex
    generalize hf : Frame.worker .wait = f at hex
    cases hex <;> first | rfl | cases hf | exact absurd hf.symm (baseFrame_ne (by simp) (by simp))
  by_cases hl : (c k).shared.queueLocked = true
  · obtain ⟨j, hj | hj⟩ := (h.reachable k).exists_holder hl
    · obtain ⟨st, hst⟩ := exists_stack_of_top hj
      obtain ⟨l, fs, hkl, hex, hnext⟩ := h.acts hst (fun _ => id) rfl
      have hgo : (c (l + 1)).shared.queueLocked = false ∨ fs = [.worker .wait] := by
        generalize (c (l + 1)).shared = sh' at hex
        generalize hf : Frame.worker .checkShutdown = f at hex
        cases hex
        case sleepExit => exact Or.inl rfl
        case sleepGo => exact Or.inr rfl
        all_goals first | cases hf | exact absurd hf.symm (baseFrame_ne (by simp) (by simp))
      rcases hgo with hfree | rfl
      · exact ⟨l + 1, Nat.le_succ_of_le hkl, hfree⟩
      · have htop : (c (l + 1)).top j = some (.worker .wait) := by simp [Config.top, hnext]
        obtain ⟨l', hl', hfree⟩ := hwait j (l + 1) htop
        exact ⟨l', (Nat.le_succ_of_le hkl).trans hl', hfree⟩
    · exact hwait j k hj
  · exact ⟨k, Nat.le_refl k, by simpa using hl⟩

end Acts

/-! ### The rank of a position -/

/-- In `TimerWheel::process`, which begins at the rank `base + 2`. The firing loop takes an entry
out of the heap and comes back by way of two more positions. -/
def ProcessPc.rank (base heap : ℕ) : ProcessPc → ℕ ×ₗ ℕ
  | .drain => toLex (base + 2, 0)
  | .now _ => toLex (base + 1, 0)
  | .loop _ _ => toLex (base, 3 * heap)
  | .complete _ _ _ => toLex (base, 3 * heap + 2)
  | .fired _ _ _ => toLex (base, 3 * heap + 1)

def DrivePc.rank (heap : ℕ) : DrivePc → ℕ ×ₗ ℕ
  | .process false pc => pc.rank 10 heap
  | .hasPending _ _ => toLex (9, 0)
  | .epollWait _ _ => toLex (8, 0)
  | .collect _ _ => toLex (7, 0)
  | .wakeAll ws => toLex (6, ws.length)
  | .process true pc => pc.rank 3 heap

def PollPc.rank : PollPc V → ℕ
  | .lookup => 8
  | .casRunning => 7
  | .polling => 6
  | .storeResult _ | .storeSignal _ => 5
  | .unlock | .notifySignal => 4
  | .remove => 3
  | .decActive | .casIdle => 2
  | .notifyAll | .storeScheduled => 1

/-- How far the worker is from the top of its loop, with `heap` entries in the heap. -/
def WorkerPc.rank (heap : ℕ) : WorkerPc V → ℕ ×ₗ ℕ
  | .dequeue => toLex (15, 0)
  | .casToken => toLex (14, 0)
  | .recheck => toLex (13, 0)
  | .driveIo pc => pc.rank heap
  | .pollTask _ pc => toLex (pc.rank, 0)
  | .lockQueue => toLex (5, 0)
  | .checkShutdown => toLex (4, 0)
  | .wait => toLex (3, 0)
  | .waiting => toLex (2, 0)
  | .release | .reacquire => toLex (1, 0)
  | .top => toLex (0, 0)

/-- The rank depends on the heap only for a driver. -/
theorem WorkerPc.rank_eq {pc : WorkerPc V} (h : drives (.worker pc) = 0) (heap heap' : ℕ) :
    pc.rank heap = pc.rank heap' := by
  cases pc with
  | driveIo pc => cases h
  | _ => rfl

section Step

variable {i : ℕ} {sh sh' : Shared V} {f : Frame V} {fs : List (Frame V)}

/-- **A worker comes nearer to the top of its loop with every step of its own code**, the calls of
a future that it polls apart. -/
theorem Exec.rank (h : Exec i sh f sh' fs) {pc : WorkerPc V} (hf : f = .worker pc)
    (htop : pc ≠ .top) :
    fs = [] ∨ ∃ k pc', fs = k ++ [.worker pc'] ∧
      (pc'.rank sh'.heap.length < pc.rank sh.heap.length ∨
        pc' = pc ∧ ∃ x, pc = .pollTask x .polling) := by
  have hbase : ∀ (k : List (Frame V)) (p : Option TaskId), baseFrame p = Frame.worker pc →
      ∃ k' pc', k ++ [baseFrame p] = k' ++ [Frame.worker pc'] ∧
        (pc'.rank sh'.heap.length < pc.rank sh.heap.length ∨
          pc' = pc ∧ ∃ x, pc = .pollTask x .polling) := by
    intro k p hp
    cases p with
    | none => cases hp
    | some x =>
      cases hp
      exact ⟨k, _, rfl, Or.inr ⟨rfl, x, rfl⟩⟩
  cases h
  case topExit | topGo =>
    cases hf
    exact absurd rfl htop
  case sleepExit => exact Or.inl rfl
  case callSpawn p | callShutdown p => exact Or.inr (hbase [_] p hf)
  case callBlockOn p => exact Or.inr (hbase [_, _] p hf)
  case callSleep p _ | callWake p _ _ | callPollSleep p _ _ _ _ => exact Or.inr (hbase [_] p hf)
  case joinReady p _ _ _ _ _ _ _ | joinPending p _ _ _ _ _ _ _ => exact Or.inr (hbase [] p hf)
  case storeResultWake | storeScheduled =>
    cases hf
    refine Or.inr ⟨[_], _, rfl, Or.inl ?_⟩
    simp [WorkerPc.rank, PollPc.rank, Prod.Lex.toLex_lt_toLex]
  case wakeAllNext =>
    cases hf
    refine Or.inr ⟨[_], _, rfl, Or.inl ?_⟩
    simp [WorkerPc.rank, DrivePc.rank, Prod.Lex.toLex_lt_toLex]
  case complete again _ _ _ =>
    cases hf
    refine Or.inr ⟨[_], _, rfl, Or.inl ?_⟩
    cases again <;>
      simp [WorkerPc.rank, DrivePc.rank, ProcessPc.rank, Prod.Lex.toLex_lt_toLex]
  case drain again | readClock again _ _ _ | fired again _ _ _ =>
    cases hf
    refine Or.inr ⟨[], _, rfl, Or.inl ?_⟩
    cases again <;>
      simp [WorkerPc.rank, DrivePc.rank, ProcessPc.rank, Prod.Lex.toLex_lt_toLex]
  case popped again known now j e hj hmin hnow =>
    cases hf
    refine Or.inr ⟨[], _, rfl, Or.inl ?_⟩
    have hlt := (List.getElem?_eq_some_iff.mp hj).1
    have hlen : (sh.heap.eraseIdx j).length = sh.heap.length - 1 :=
      List.length_eraseIdx_of_lt hlt
    cases again <;>
      simp [WorkerPc.rank, DrivePc.rank, ProcessPc.rank, Prod.Lex.toLex_lt_toLex, hlen] <;> omega
  all_goals first
    | cases hf
      refine Or.inr ⟨[], _, rfl, Or.inl ?_⟩
      simp [WorkerPc.rank, DrivePc.rank, ProcessPc.rank, PollPc.rank, Prod.Lex.toLex_lt_toLex]
    | cases hf

end Step

/-! ### Back to the top -/

/-- The worker `i` stands at `pc`, below the calls it has made. -/
def Stands (d : Config (Shared V) (Frame V)) (i : ℕ) (pc : WorkerPc V) : Prop :=
  ∃ k, d.threads[i]? = some (k ++ [.worker pc])

/-- The worker `i` is at the top of its loop, or has ended. -/
def RoundDone (d : Config (Shared V) (Frame V)) (i : ℕ) : Prop :=
  d.threads[i]? = some [.worker .top] ∨ d.threads[i]? = some []

section Round

variable {n m : ℕ} {d d' : Config (Shared V) (Frame V)} {i j : ℕ} {pc : WorkerPc V}

/-- A step of another thread, or of a call, leaves the rank of a worker. -/
theorem Reachable.rank_eq (hd : Reachable n m d) {f : Frame V} {fs : List (Frame V)}
    {R : Multiset (Frame V)} (hF : d.frames = f ::ₘ R) (hex : Exec j d.shared f d'.shared fs)
    (hmem : .worker pc ∈ R) : pc.rank d'.shared.heap.length = pc.rank d.shared.heap.length := by
  by_cases hdrives : drives (.worker pc) = 0
  · exact WorkerPc.rank_eq hdrives _ _
  · have hone := hd.drives_le_one hF hmem
    rw [(hex.wheel_of_not_drives (by omega)).1]

/-- **The rank of a worker does not rise** before it is back at the top. -/
theorem Stands.step (hd : Reachable n m d) {ch : Choice V}
    (hs : (machine V).step d j ch = some d') (h : Stands d i pc) :
    RoundDone d i ∨ RoundDone d' i ∨
      ∃ pc', Stands d' i pc' ∧ pc'.rank d'.shared.heap.length ≤ pc.rank d.shared.heap.length := by
  obtain ⟨k, hk⟩ := h
  obtain ⟨f, rest, fs, R, hj, hex, hthreads, hF, -⟩ := Machine.step_cases hs
  have hex := exec_cases hex
  obtain ⟨hbelow, hother⟩ := Machine.mem_rest hj hF
  by_cases hji : i = j
  · subst hji
    have hnext : d'.threads[i]? = some (fs ++ rest) := by
      rw [hthreads, List.getElem?_set_self (List.getElem?_eq_some_iff.mp hj).1]
    have heq : f :: rest = k ++ [.worker pc] := Option.some.inj (hj.symm.trans hk)
    cases k with
    | nil =>
      obtain ⟨rfl, rfl⟩ := List.cons.inj heq
      rw [List.append_nil] at hnext
      by_cases htop : pc = .top
      · subst htop
        exact Or.inl (Or.inl hk)
      · rcases hex.rank rfl htop with rfl | ⟨k', pc', rfl, hlt | ⟨rfl, x, rfl⟩⟩
        · exact Or.inr (Or.inl (Or.inr hnext))
        · exact Or.inr (Or.inr ⟨pc', ⟨k', hnext⟩, le_of_lt hlt⟩)
        · exact Or.inr (Or.inr ⟨_, ⟨k', hnext⟩, le_of_eq rfl⟩)
    | cons g k =>
      rw [List.cons_append] at heq
      obtain ⟨-, rfl⟩ := List.cons.inj heq
      have hmem : Frame.worker pc ∈ R := hbelow _ (by simp)
      refine Or.inr (Or.inr ⟨pc, ⟨fs ++ k, ?_⟩, le_of_eq (hd.rank_eq hF hex hmem)⟩)
      rw [hnext, List.append_assoc]
  · have hmem : Frame.worker pc ∈ R := hother i _ hji hk _ (by simp)
    refine Or.inr (Or.inr ⟨pc, ⟨k, ?_⟩, le_of_eq (hd.rank_eq hF hex hmem)⟩)
    rw [hthreads, List.getElem?_set_ne (Ne.symm hji), hk]

variable {c : ℕ → Config (Shared V) (Frame V)} {a : ℕ → ℕ × Choice V}

theorem FairRun.rank_le (h : FairRun n m c a) {k l : ℕ} (hkl : k ≤ l)
    (hst : Stands (c k) i pc) :
    (∃ j, k ≤ j ∧ RoundDone (c j) i) ∨
      ∃ pc', Stands (c l) i pc' ∧
        pc'.rank (c l).shared.heap.length ≤ pc.rank (c k).shared.heap.length := by
  induction l, hkl using Nat.le_induction with
  | base => exact Or.inr ⟨pc, hst, le_refl _⟩
  | succ l hkl ih =>
    rcases ih with hdone | ⟨pc', hst', hle⟩
    · exact Or.inl hdone
    · rcases hst'.step (h.reachable l) (step_of_infinite h.run l) with hl | hl | ⟨pc₂, hst₂, hle₂⟩
      · exact Or.inl ⟨l, hkl, hl⟩
      · exact Or.inl ⟨l + 1, Nat.le_succ_of_le hkl, hl⟩
      · exact Or.inr ⟨pc₂, hst₂, hle₂.trans hle⟩

/-- From the place `l` on the worker `i` stays where it is, at rest. -/
def StaysAtRest (c : ℕ → Config (Shared V) (Frame V)) (i l : ℕ) : Prop :=
  ∃ pc, ∀ l', l ≤ l' → (c l').threads[i]? = some [.worker pc] ∧
    (Frame.worker pc).Rests (c l').shared i

/-- A worker that does not move any more is at rest from some time on. -/
theorem FairRun.staysAtRest (h : FairRun n m c a) {k : ℕ}
    (hst : (c k).threads[i]? = some [.worker pc]) (hno : ∀ l, k ≤ l → (a l).1 ≠ i) :
    ∃ l, k ≤ l ∧ StaysAtRest c i l := by
  have hstay : ∀ l, k ≤ l → (c l).threads[i]? = some [.worker pc] := fun l hl =>
    (threads_of_not_moved h.run hl fun j hj _ => hno j hj).trans hst
  -- otherwise it would be at no rest again and again, and then go on
  by_contra hrest
  have hagain : ∀ l, k ≤ l → ∃ l', l ≤ l' ∧ ¬ (Frame.worker pc).Rests (c l').shared i := by
    intro l hl
    by_contra hall
    push Not at hall
    exact hrest ⟨l, hl, pc, fun l' hl' => ⟨hstay l' (hl.trans hl'), hall l' hl'⟩⟩
  have hcan : ∀ l, ∃ l', l ≤ l' ∧ CanGoOn (c l') i := by
    intro l
    obtain ⟨l₁, hl₁, hr₁⟩ := hagain (max k l) (Nat.le_max_left k l)
    have hkl₁ : k ≤ l₁ := (Nat.le_max_left k l).trans hl₁
    have hll₁ : l ≤ l₁ := (Nat.le_max_right k l).trans hl₁
    by_cases hq : (Frame.worker pc).needsQueue = true
    · -- a position that takes the mutex is not one of rest
      obtain ⟨l₂, hl₂, hfree⟩ := h.unlocked l₁
      have hr₂ : ¬ (Frame.worker pc).Rests (c l₂).shared i := by
        intro hr
        cases pc with
        | dequeue | recheck | lockQueue | reacquire => exact hr
        | _ => cases hq
      have htop : (c l₂).top i = some (.worker pc) := by
        simp [Config.top, hstay l₂ (hkl₁.trans hl₂)]
      exact ⟨l₂, hll₁.trans hl₂, fun hrests => hr₂ (hrests _ htop),
        (h.reachable l₂).exists_step htop hr₂ fun _ => hfree⟩
    · have htop : (c l₁).top i = some (.worker pc) := by simp [Config.top, hstay l₁ hkl₁]
      exact ⟨l₁, hll₁, fun hrests => hr₁ (hrests _ htop),
        (h.reachable l₁).exists_step htop hr₁ fun hq' => absurd hq' hq⟩
  obtain ⟨l, hl, hi⟩ := h.fair i hcan k
  exact hno l hl hi

/-- A worker in its own code, and not at the top, goes on to a position of smaller rank, unless it
ends or stays at rest for ever. -/
theorem FairRun.rank_lt_of_own (h : FairRun n m c a) {k : ℕ}
    (hst : (c k).threads[i]? = some [.worker pc]) (htop : pc ≠ .top)
    (hpolling : ∀ x, pc ≠ .pollTask x .polling) :
    (∃ l, k ≤ l ∧ (RoundDone (c l) i ∨ StaysAtRest c i l)) ∨
      ∃ l pc', k ≤ l ∧ Stands (c l) i pc' ∧
        pc'.rank (c l).shared.heap.length < pc.rank (c k).shared.heap.length := by
  by_cases hmove : ∃ l, k ≤ l ∧ (a l).1 = i
  · obtain ⟨l, hl, hi, hfirst⟩ := exists_first_move hmove
    have hstl := (threads_of_not_moved h.run hl hfirst).trans hst
    rcases h.rank_le hl ⟨[], hst⟩ with ⟨j, hj, hdone⟩ | ⟨pc', ⟨k', hst'⟩, hle⟩
    · exact Or.inl ⟨j, hj, Or.inl hdone⟩
    have hpc : pc' = pc := by
      have heq := congrArg List.getLast? (Option.some.inj (hst'.symm.trans hstl))
      simpa using heq
    subst hpc
    obtain ⟨fs, hex, hnext⟩ := h.exec_of_move hi hstl
    rw [List.append_nil] at hnext
    have hkl : k ≤ l + 1 := Nat.le_succ_of_le hl
    rcases hex.rank rfl htop with rfl | ⟨k₂, pc₂, rfl, hlt | ⟨-, x, rfl⟩⟩
    · exact Or.inl ⟨l + 1, hkl, Or.inl (Or.inr hnext)⟩
    · exact Or.inr ⟨l + 1, pc₂, hkl, ⟨k₂, hnext⟩, lt_of_lt_of_le hlt hle⟩
    · exact absurd rfl (hpolling x)
  · push Not at hmove
    obtain ⟨l, hl, hrest⟩ := h.staysAtRest hst hmove
    exact Or.inl ⟨l, hl, Or.inr hrest⟩

/-- A worker goes on to a position of smaller rank until it is back at the top, unless it ends or
stays at rest for ever. -/
theorem FairRun.rank_lt (h : FairRun n m c a) (hi : i < n) {k : ℕ} (hst : Stands (c k) i pc) :
    (∃ l, k ≤ l ∧ (RoundDone (c l) i ∨ StaysAtRest c i l)) ∨
      ∃ l pc', k ≤ l ∧ Stands (c l) i pc' ∧
        pc'.rank (c l).shared.heap.length < pc.rank (c k).shared.heap.length := by
  -- the calls of the worker return
  obtain ⟨l, hkl, st, hown, hlen, hpolling⟩ := h.returns i hi k
  rcases h.rank_le hkl hst with ⟨j, hj, hdone⟩ | ⟨pc₁, ⟨k₁, hst₁⟩, hle₁⟩
  · exact Or.inl ⟨j, hj, Or.inl hdone⟩
  obtain rfl := Option.some.inj (hown.symm.trans hst₁)
  have hnil : k₁ = [] := by
    rw [List.length_append, List.length_singleton] at hlen
    exact List.eq_nil_of_length_eq_zero (by omega)
  subst hnil
  rw [List.nil_append] at hst₁ hpolling
  by_cases htop : pc₁ = .top
  · subst htop
    exact Or.inl ⟨l, hkl, Or.inl (Or.inl hst₁)⟩
  have hpoll : ∀ x, pc₁ ≠ .pollTask x .polling := by
    rintro x rfl
    exact hpolling x (List.mem_singleton_self _)
  rcases h.rank_lt_of_own hst₁ htop hpoll with ⟨l', hl', hdone⟩ | ⟨l', pc', hl', hst', hlt⟩
  · exact Or.inl ⟨l', hkl.trans hl', hdone⟩
  · exact Or.inr ⟨l', pc', hkl.trans hl', hst', lt_of_lt_of_le hlt hle₁⟩

/-- **A worker comes back to the top of its loop**, unless it ends or stays at rest for ever. -/
theorem worker_round (h : FairRun n m c a) (hi : i < n) (k : ℕ) :
    ∃ l, k ≤ l ∧ (RoundDone (c l) i ∨ StaysAtRest c i l) := by
  rcases (h.reachable k).worker_stack hi with ⟨k₀, pc, hst⟩ | ⟨-, hended⟩
  · have hst : Stands (c k) i pc := ⟨k₀, hst⟩
    generalize hrank : pc.rank (c k).shared.heap.length = r
    induction r using WellFoundedLT.induction generalizing k k₀ pc with
    | _ r ih =>
      rcases h.rank_lt hi hst with hdone | ⟨l, pc', hkl, ⟨k', hst'⟩, hlt⟩
      · exact hdone
      · obtain ⟨l', hl', hdone⟩ := ih _ (hrank ▸ hlt) l k' pc' hst' ⟨k', hst'⟩ rfl
        exact ⟨l', hkl.trans hl', hdone⟩
  · exact ⟨k, Nat.le_refl k, Or.inl (Or.inr hended)⟩

end Round

/-! ### A worker without work -/

/-- The positions that a worker passes when it is alone and there is no task, no timer and no event:
it becomes the driver, and its `epoll_wait` times out. -/
inductive Unemployed (sh : Shared V) : WorkerPc V → Prop
  | top (h : sh.driverToken = false) : Unemployed sh .top
  | dequeue (h : sh.driverToken = false) : Unemployed sh .dequeue
  | casToken (h : sh.driverToken = false) : Unemployed sh .casToken
  | recheck : Unemployed sh .recheck
  | drain (again : Bool) : Unemployed sh (.driveIo (.process again .drain))
  | now (again : Bool) (known : ℕ) : Unemployed sh (.driveIo (.process again (.now known)))
  | loop (again : Bool) (known t : ℕ) :
      Unemployed sh (.driveIo (.process again (.loop known t)))
  | hasPending (t : ℕ) (next : Option ℕ) : Unemployed sh (.driveIo (.hasPending t next))
  | epollWait (t timeout : ℕ) : Unemployed sh (.driveIo (.epollWait t timeout))
  | collect : Unemployed sh (.driveIo (.collect false []))
  | wakeAll : Unemployed sh (.driveIo (.wakeAll []))
  | release : Unemployed sh .release

/-- There is nothing to do. -/
structure NoWork (sh : Shared V) : Prop where
  shutdown : sh.shutdown = false
  queueLocked : sh.queueLocked = false
  readyQueue : sh.readyQueue = ReadyQueue.new
  heap : sh.heap = []
  inbox : sh.inbox = []

/-- The one worker of a runtime with nothing to do. -/
def Alone (d : Config (Shared V) (Frame V)) : Prop :=
  ∃ pc, d.threads = [[.worker pc]] ∧ Unemployed d.shared pc ∧ NoWork d.shared

section Alone

variable {d : Config (Shared V) (Frame V)}

/-- A worker without work goes round its loop. -/
theorem exists_round {sh : Shared V} {pc : WorkerPc V} (h : Unemployed sh pc)
    (hno : NoWork sh) : ∃ ch sh' pc', runWorker 0 sh pc ch = some (sh', [.worker pc']) ∧
      Unemployed sh' pc' ∧ NoWork sh' := by
  obtain ⟨hshut, hlocked, hqueue, hheap, hinbox⟩ := id hno
  cases h with
  | top h =>
    exact ⟨.go, sh, .dequeue, by simp [runWorker, hshut], .dequeue h, hno⟩
  | dequeue h =>
    have hempty : sh.readyQueue.dequeue = (none, sh.readyQueue) := by rw [hqueue]; rfl
    have hfree : ¬ sh.queueLocked = true := by simp [hlocked]
    exact ⟨.go, sh, .casToken, by rw [runWorker, if_neg hfree, hempty], .casToken h, hno⟩
  | casToken h =>
    exact ⟨.go, { sh with driverToken := true }, .recheck, by simp [runWorker, h], .recheck,
      ⟨hshut, hlocked, hqueue, hheap, hinbox⟩⟩
  | recheck =>
    exact ⟨.go, sh, _, by simp [runWorker, hlocked, hqueue], .drain false, hno⟩
  | drain again =>
    exact ⟨.go, _, _, rfl, .now again _, ⟨hshut, hlocked, hqueue, by simp [hheap, hinbox], rfl⟩⟩
  | now again known =>
    exact ⟨.now sh.clock, sh, _, if_pos (Nat.le_refl _), .loop again known sh.clock, hno⟩
  | loop again known t =>
    have hret : runWorker 0 sh (.driveIo (.process again (.loop known t))) .go =
        processReturn sh again known t none := by simp [runWorker, driveIo, process, hheap]
    have hno' : NoWork (sh.processed known t) := ⟨hshut, hlocked, hqueue, hheap, hinbox⟩
    cases again with
    | false => exact ⟨.go, _, _, hret, .hasPending t none, hno'⟩
    | true => exact ⟨.go, _, _, hret, .release, hno'⟩
  | hasPending t next => exact ⟨.go, _, _, rfl, .epollWait t _, hno⟩
  | epollWait t timeout =>
    exact ⟨.epoll false [], _, _, by simp [runWorker, driveIo], .collect, hno⟩
  | collect => exact ⟨.go, sh, _, rfl, .wakeAll, hno⟩
  | wakeAll => exact ⟨.go, _, _, rfl, .drain true, hno⟩
  | release => exact ⟨.go, _, _, rfl, .top rfl, ⟨hshut, hlocked, hqueue, hheap, hinbox⟩⟩

theorem Alone.exists_next (h : Alone d) :
    ∃ a r d', (machine V).system d a r d' ∧ Alone d' := by
  obtain ⟨pc, hthreads, hpc, hno⟩ := h
  obtain ⟨ch, sh', pc', hstep, hpc', hno'⟩ := exists_round hpc hno
  refine ⟨(0, ch), (), ⟨sh', [[.worker pc']]⟩, ?_, pc', rfl, hpc', hno'⟩
  show (machine V).step d 0 ch = some ⟨sh', [[.worker pc']]⟩
  have hexec : (machine V).exec 0 d.shared (.worker pc) ch = some (sh', [.worker pc']) := hstep
  simp [Machine.step, hthreads, hexec]

theorem Alone.eq_zero {i : ℕ} {ch : Choice V} {d' : Config (Shared V) (Frame V)} (h : Alone d)
    (hs : (machine V).step d i ch = some d') : i = 0 := by
  obtain ⟨pc, hthreads, -, -⟩ := h
  obtain ⟨f, rest, fs, R, hi, -⟩ := Machine.step_cases hs
  have hlt : i < d.threads.length := (List.getElem?_eq_some_iff.mp hi).1
  rw [hthreads, List.length_singleton] at hlt
  omega

/-- **There is a fair run**: the one worker goes round its loop for ever. -/
theorem exists_fairRun_alone (V : Type) :
    ∃ (c : ℕ → Config (Shared V) (Frame V)) (a : ℕ → ℕ × Choice V), FairRun 1 0 c a := by
  have hstart : Alone (start V 1 0) := ⟨.top, rfl, .top rfl, rfl, rfl, rfl, rfl, rfl⟩
  obtain ⟨c, a, hrun, halone⟩ :=
    exists_infinite (T := (machine V).system) (P := Alone) (fun d hd => hd.exists_next) hstart
  refine ⟨c, a, hrun, fun i hcan k => ⟨k, Nat.le_refl k, ?_⟩,
    fun i hi k => ⟨k, Nat.le_refl k, ?_⟩⟩
  · obtain ⟨l, -, -, ch, d', hs⟩ := hcan k
    rw [(halone l).eq_zero hs, (halone k).eq_zero (step_of_infinite hrun k)]
  · obtain ⟨pc, hthreads, hpc, -⟩ := halone k
    have hzero : i = 0 := by omega
    refine ⟨[.worker pc], by rw [hthreads, hzero]; rfl, Nat.le_refl 1, fun x hmem => ?_⟩
    have hpoll : pc = .pollTask x .polling := by simpa using (List.mem_singleton.mp hmem).symm
    rw [hpoll] at hpc
    cases hpc

end Alone

/-- The run of a runtime with one worker and no task. -/
theorem worker_round_alone :
    ∃ (c : ℕ → Config (Shared Unit) (Frame Unit)) (a : ℕ → ℕ × Choice Unit), FairRun 1 0 c a ∧
      ∀ k, ∃ l, k ≤ l ∧ (RoundDone (c l) 0 ∨ StaysAtRest c 0 l) := by
  obtain ⟨c, a, h⟩ := exists_fairRun_alone Unit
  exact ⟨c, a, h, worker_round h Nat.zero_lt_one⟩

end MiniAsync.MultiThread
