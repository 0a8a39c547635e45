/-
  The channel delivers every accepted value once and in order, and ends when all
  of them are delivered and no sender is left.

  Everything is read off the history of the calls: `handedOut`, `accepted`,
  `stored` and `woken` say what a call gave to the receiver, took from a sender,
  stored as waker and woke. The invariant `Inv` ties the shared record to the
  history; `channel_delivers` and `channel_wakes` are the results about whole
  runs. The second one rests on what happens after a `Pending` poll
  (`wakes_after_pending`): the receiver keeps waiting, or its waker is called once
  and the slot is empty.
-/
import MiniAsync.Channel.Basic
import Mathlib.Data.List.Count

namespace MiniAsync.Channel

open MultiThread (Poll)
open Trace

variable {T W : Type}

/-- The history of a channel. -/
abbrev History (T W : Type) := List (Op T W × Result T W)

/-- The value that a call hands out. -/
def handedOut : Op T W × Result T W → Option T
  | (_, .polled (.ready v)) => v
  | (_, .tried v) => v
  | _ => none

/-- The value that a call of `send` accepts. -/
def accepted : Op T W × Result T W → Option T
  | (.send _ v, .sent _) => some v
  | _ => none

/-- The waker that a `Pending` poll stores. -/
def stored : Op T W × Result T W → Option W
  | (.poll w, .polled .pending) => some w
  | _ => none

/-- The waker that a call wakes. -/
def woken : Op T W × Result T W → Option W
  | (_, .sent w) => w
  | (_, .dropped w) => w
  | _ => none

/-! ### Counting the senders -/

/-- The counter is the number of live `Sender`s, whose handles are all different. -/
structure World.Counted (s : World T W) : Prop where
  count : s.inner.senderCount = s.senders.card
  fresh : ∀ i ∈ s.senders, i < s.nextSender

section Step

variable {s s' : World T W} {op : Op T W} {res : Result T W} {h : History T W}

theorem World.Counted.unbounded : (World.unbounded : World T W).Counted :=
  ⟨rfl, fun i hi => by rw [Finset.mem_singleton.mp hi]; exact Nat.zero_lt_one⟩

theorem World.Counted.erase (hc : s.Counted) {i n : ℕ} (hi : i ∈ s.senders)
    (hcount : s.inner.senderCount = n + 1) : n = (s.senders.erase i).card := by
  rw [Finset.card_erase_of_mem hi, ← hc.count, hcount, Nat.add_sub_cancel]

theorem World.Counted.step (hc : s.Counted) (hs : World.Step s op res s') :
    s'.Counted ∧ res ≠ .underflow := by
  cases hs with
  | clone hi =>
    -- handles are not given out twice
    have hnew : s.nextSender ∉ s.senders := fun hmem => Nat.lt_irrefl _ (hc.fresh _ hmem)
    refine ⟨⟨?_, fun i hmem => ?_⟩, by simp⟩
    · rw [Finset.card_insert_of_notMem hnew, ← hc.count]
    · rcases Finset.mem_insert.mp hmem with rfl | hmem
      · exact Nat.lt_succ_self _
      · exact Nat.lt_succ_of_lt (hc.fresh i hmem)
  | underflow hi hcount =>
    -- the `Sender` that is dropped has been counted
    rw [hc.count, Finset.card_eq_zero] at hcount
    rw [hcount] at hi
    cases hi
  | droppedLast hi hcount =>
    exact ⟨⟨hc.erase hi hcount, fun i hmem => hc.fresh i (Finset.mem_of_mem_erase hmem)⟩, by simp⟩
  | dropped hi hcount =>
    exact ⟨⟨hc.erase hi hcount, fun i hmem => hc.fresh i (Finset.mem_of_mem_erase hmem)⟩, by simp⟩
  | refused _ _ => exact ⟨hc, by simp⟩
  | sent _ _ => exact ⟨⟨hc.count, hc.fresh⟩, by simp⟩
  | received _ _ => exact ⟨⟨hc.count, hc.fresh⟩, by simp⟩
  | ended _ _ _ => exact ⟨hc, by simp⟩
  | waits _ _ _ => exact ⟨⟨hc.count, hc.fresh⟩, by simp⟩
  | tried _ _ => exact ⟨⟨hc.count, hc.fresh⟩, by simp⟩
  | triedEmpty _ _ => exact ⟨hc, by simp⟩
  | closed _ => exact ⟨⟨hc.count, hc.fresh⟩, by simp⟩

/-! ### The record and the history -/

/-- What the shared record says about the calls so far. -/
structure Inv (h : History T W) (s : World T W) : Prop where
  counted : s.Counted
  underflow : ∀ e ∈ h, e.2 ≠ .underflow
  fifo : h.filterMap handedOut ++ s.inner.queue = h.filterMap accepted
  closed : s.inner.rxClosed = true ↔ ∃ e ∈ h, e.1 = .dropReceiver

/-- A call hands out the front of the queue and accepts at its back. -/
theorem queue_step (hs : World.Step s op res s') :
    (handedOut (op, res)).toList ++ s'.inner.queue =
      s.inner.queue ++ (accepted (op, res)).toList := by
  cases hs with
  | received _ hqueue => rw [hqueue]; exact (List.append_nil _).symm
  | tried _ hqueue => rw [hqueue]; exact (List.append_nil _).symm
  | sent _ _ => rfl
  | clone _ | refused _ _ | underflow _ _ | droppedLast _ _ | dropped _ _ | ended _ _ _
  | waits _ _ _ | triedEmpty _ _ | closed _ => exact (List.append_nil _).symm

theorem rxClosed_step (hs : World.Step s op res s') :
    s'.inner.rxClosed = true ↔ s.inner.rxClosed = true ∨ op = .dropReceiver := by
  cases hs <;> simp

theorem Inv.step (hi : Inv h s) (hs : World.Step s op res s') : Inv (h ++ [(op, res)]) s' := by
  obtain ⟨hcounted, hres⟩ := hi.counted.step hs
  refine ⟨hcounted, ?_, ?_, ?_⟩
  · intro e he
    rcases List.mem_append.mp he with he | he
    · exact hi.underflow e he
    · rw [List.mem_singleton.mp he]
      exact hres
  · rw [filterMap_snoc, filterMap_snoc, List.append_assoc, queue_step hs, ← List.append_assoc,
      hi.fifo]
  · rw [rxClosed_step hs, hi.closed]
    simp [or_and_right, exists_or]

theorem run_inv (hr : Run (World.system T W) .unbounded h s) : Inv h s :=
  hr.invariant ⟨World.Counted.unbounded, by simp, rfl, by simp [World.unbounded, Inner.unbounded]⟩
    fun _ _ _ _ _ _ hi hs => hi.step (World.step_cases hs)

/-! ### The end of the channel -/

/-- Every accepted value has been handed out and no `Sender` is alive. -/
def World.Ended (s : World T W) : Prop := s.inner.queue = [] ∧ s.senders = ∅

theorem World.Ended.step (he : s.Ended) (hc : s.Counted) (hs : World.Step s op res s') :
    s'.Ended ∧ ∀ w, op = .poll w → res = .polled (.ready none) := by
  obtain ⟨hqueue, hsenders⟩ := he
  -- without a `Sender` only the `Receiver` can be used
  have hnone : ∀ i, i ∉ s.senders := fun i => hsenders ▸ Finset.notMem_empty i
  cases hs with
  | clone hi => exact absurd hi (hnone _)
  | refused hi _ => exact absurd hi (hnone _)
  | sent hi _ => exact absurd hi (hnone _)
  | underflow hi _ => exact absurd hi (hnone _)
  | droppedLast hi _ => exact absurd hi (hnone _)
  | dropped hi _ => exact absurd hi (hnone _)
  | received _ hq => exact absurd (hqueue.symm.trans hq) (by simp)
  | ended _ _ _ => exact ⟨⟨hqueue, hsenders⟩, fun _ _ => rfl⟩
  | waits _ _ hcount =>
    rw [hc.count, hsenders] at hcount
    exact absurd Finset.card_empty hcount
  | tried _ hq => exact absurd (hqueue.symm.trans hq) (by simp)
  | triedEmpty _ _ => exact ⟨⟨hqueue, hsenders⟩, by simp⟩
  | closed _ => exact ⟨⟨hqueue, hsenders⟩, by simp⟩

/-- After the end every poll says so. -/
theorem polls_after_end {s₀ : World T W} (he : s₀.Ended) (hc : s₀.Counted)
    (hr : Run (World.system T W) s₀ h s) :
    ∀ e ∈ h, ∀ w, e.1 = .poll w → e.2 = .polled (.ready none) := by
  have hinv := hr.invariant (I := fun h s => (s.Ended ∧ s.Counted) ∧
    ∀ e ∈ h, ∀ w, e.1 = .poll w → e.2 = .polled (.ready none)) ⟨⟨he, hc⟩, by simp⟩ ?_
  · exact hinv.2
  · rintro h s op res s' - ⟨⟨he, hc⟩, hall⟩ hs
    have hstep := World.step_cases hs
    obtain ⟨he', hres⟩ := he.step hc hstep
    refine ⟨⟨he', (hc.step hstep).1⟩, fun e hmem w hop => ?_⟩
    rcases List.mem_append.mp hmem with hmem | hmem
    · exact hall e hmem w hop
    · rw [List.mem_singleton.mp hmem] at hop ⊢
      exact hres w hop

theorem poll_eq_ready_none {w : W} {p : Poll (Option T)} (hc : s.Counted)
    (hs : World.Step s (.poll w) (.polled p) s') : p = .ready none ↔ s.Ended := by
  cases hs with
  | received _ hqueue => simp [World.Ended, hqueue]
  | ended _ hqueue hcount =>
    rw [hc.count, Finset.card_eq_zero] at hcount
    exact ⟨fun _ => ⟨hqueue, hcount⟩, fun _ => rfl⟩
  | waits _ hqueue hcount =>
    rw [hc.count, Finset.card_ne_zero, Finset.nonempty_iff_ne_empty] at hcount
    simp [World.Ended, hcount]

theorem send_refused {i : ℕ} {v : T} (hs : World.Step s (.send i v) res s') :
    ((∃ x, res = .refused x) ↔ s.inner.rxClosed = true) ∧
      ∀ x, res = .refused x → x = v ∧ s' = s := by
  cases hs with
  | refused _ hclosed =>
    refine ⟨⟨fun _ => hclosed, fun _ => ⟨v, rfl⟩⟩, fun x hx => ?_⟩
    cases hx
    exact ⟨rfl, rfl⟩
  | sent _ hopen => simp [hopen]

/-- **Every value once, in order, and an end exactly at the end.** After any calls on a channel: the
counter is the number of live `Sender`s and has never underflowed; the values handed out, followed
by the buffer, are the values accepted; `send` fails exactly if the `Receiver` has been dropped,
gives the value back and changes nothing; `Recv::poll` returns `Ready(None)` exactly if every
accepted value has been handed out and no `Sender` is alive, and then ever after. -/
theorem channel_delivers (hr : Run (World.system T W) .unbounded h s) :
    (s.inner.senderCount = s.senders.card ∧ ∀ e ∈ h, e.2 ≠ .underflow) ∧
    h.filterMap handedOut ++ s.inner.queue = h.filterMap accepted ∧
    (∀ i v res s', s.step (.send i v) = some (res, s') →
      ((∃ x, res = .refused x) ↔ ∃ e ∈ h, e.1 = .dropReceiver) ∧
        ∀ x, res = .refused x → x = v ∧ s' = s) ∧
    (∀ w p s', s.step (.poll w) = some (.polled p, s') →
      (p = .ready none ↔ h.filterMap handedOut = h.filterMap accepted ∧ s.senders = ∅)) ∧
    ∀ h₁ w h₂, h = h₁ ++ (.poll w, .polled (.ready none)) :: h₂ →
      ∀ e ∈ h₂, ∀ w', e.1 = .poll w' → e.2 = .polled (.ready none) := by
  have hi := run_inv hr
  refine ⟨⟨hi.counted.count, hi.underflow⟩, hi.fifo, fun i v res s' hs => ?_,
    fun w p s' hs => ?_, fun h₁ w h₂ heq => ?_⟩
  · rw [← hi.closed]
    exact send_refused (World.step_cases hs)
  · rw [poll_eq_ready_none hi.counted (World.step_cases hs), ← hi.fifo, List.self_eq_append_right]
    rfl
  · rw [heq] at hr
    obtain ⟨s₁, s₂, hr₁, hpoll, hr₂⟩ := hr.exists_of_append_cons
    have hc := (run_inv hr₁).counted
    have hstep := World.step_cases hpoll
    have hended : s₁.Ended := (poll_eq_ready_none hc hstep).mp rfl
    exact polls_after_end (hended.step hc hstep).1 (hc.step hstep).1 hr₂

/-- Two senders, three values, and the end after both are dropped. -/
theorem channel_delivers_two_senders :
    ∃ (h : History ℕ ℕ) (s : World ℕ ℕ), Run (World.system ℕ ℕ) .unbounded h s ∧
      h.filterMap accepted = [5, 6, 7] ∧ s.inner.queue = [] ∧ s.senders = ∅ ∧
      h.filterMap handedOut ++ s.inner.queue = h.filterMap accepted := by
  obtain ⟨h, s, hr, hp⟩ := exists_run_of_exec (f := World.step) (s := World.unbounded)
    [.clone 0, .send 0 5, .poll 1, .poll 1, .send 1 6, .dropSender 0, .send 1 7, .tryRecv,
      .poll 2, .dropSender 1, .poll 2, .poll 3]
    (fun p : History ℕ ℕ × World ℕ ℕ =>
      p.1.filterMap accepted = [5, 6, 7] ∧ p.2.inner.queue = [] ∧ p.2.senders = ∅) (by decide)
  exact ⟨h, s, hr, hp.1, hp.2.1, hp.2.2, (channel_delivers hr).2.1⟩

/-! ### The receiver's waker -/

/-- A call stores a waker, leaves the slot alone, or empties it and wakes what was in it. -/
theorem slot_step (hs : World.Step s op res s') :
    (stored (op, res) = s'.inner.rxWaker ∧ (stored (op, res)).isSome = true ∧
      woken (op, res) = none) ∨
    (stored (op, res) = none ∧ s'.inner.rxWaker = s.inner.rxWaker ∧ woken (op, res) = none) ∨
    (stored (op, res) = none ∧ s'.inner.rxWaker = none ∧ woken (op, res) = s.inner.rxWaker) := by
  cases hs with
  | waits _ _ _ => exact Or.inl ⟨rfl, rfl, rfl⟩
  | sent _ _ | droppedLast _ _ => exact Or.inr (Or.inr ⟨rfl, rfl, rfl⟩)
  | clone _ | refused _ _ | underflow _ _ | dropped _ _ | received _ _ | ended _ _ _ | tried _ _
  | triedEmpty _ _ | closed _ => exact Or.inr (Or.inl ⟨rfl, rfl, rfl⟩)

/-- The receiver waits with the waker `w`. -/
structure World.Waiting (s : World T W) (w : W) : Prop where
  queue : s.inner.queue = []
  count : s.inner.senderCount ≠ 0
  slot : s.inner.rxWaker = some w

/-- A receiver that waits goes on waiting until it is woken or polled. -/
theorem World.Waiting.step {w : W} (hw : s.Waiting w) (hs : World.Step s op res s')
    (hstored : stored (op, res) = none) :
    (woken (op, res) = none ∧ s'.Waiting w) ∨
      (woken (op, res) = some w ∧ s'.inner.rxWaker = none) := by
  cases hs with
  | clone _ => exact Or.inl ⟨rfl, hw.queue, Nat.succ_ne_zero _, hw.slot⟩
  | refused _ _ => exact Or.inl ⟨rfl, hw⟩
  | sent _ _ => exact Or.inr ⟨hw.slot, rfl⟩
  | underflow _ hcount => exact absurd hcount hw.count
  | droppedLast _ _ => exact Or.inr ⟨hw.slot, rfl⟩
  | dropped _ _ => exact Or.inl ⟨rfl, hw.queue, Nat.succ_ne_zero _, hw.slot⟩
  | received _ hqueue => exact absurd (hw.queue.symm.trans hqueue) (by simp)
  | ended _ _ hcount => exact absurd hcount hw.count
  | waits _ _ _ => cases hstored
  | tried _ hqueue => exact absurd (hw.queue.symm.trans hqueue) (by simp)
  | triedEmpty _ _ => exact Or.inl ⟨rfl, hw⟩
  | closed _ => exact Or.inl ⟨rfl, hw.queue, hw.count, hw.slot⟩

/-- Until the next `Pending` poll the receiver waits unwoken, or it has been woken once and the slot
is empty. -/
theorem wakes_after_pending {s₀ : World T W} {w : W} (hw : s₀.Waiting w)
    (hr : Run (World.system T W) s₀ h s) (hstored : h.filterMap stored = []) :
    (h.filterMap woken = [] ∧ s.Waiting w) ∨
      (h.filterMap woken = [w] ∧ s.inner.rxWaker = none) := by
  revert hstored
  refine hr.invariant (I := fun h s => h.filterMap stored = [] →
    (h.filterMap woken = [] ∧ s.Waiting w) ∨
      (h.filterMap woken = [w] ∧ s.inner.rxWaker = none)) (fun _ => Or.inl ⟨rfl, hw⟩) ?_
  intro h s op res s' _ ih hs hstored
  have hstep := World.step_cases hs
  rw [filterMap_snoc, List.append_eq_nil_iff, Option.toList_eq_nil_iff] at hstored
  rw [filterMap_snoc]
  -- a waiting receiver is woken by this call or not; an empty slot stays empty
  rcases ih hstored.1 with ⟨hwoken, hw⟩ | ⟨hwoken, hslot⟩
  · rcases hw.step hstep hstored.2 with ⟨hnone, hw'⟩ | ⟨hsome, hslot'⟩
    · exact Or.inl ⟨by rw [hwoken, hnone]; rfl, hw'⟩
    · exact Or.inr ⟨by rw [hwoken, hsome]; rfl, hslot'⟩
  · refine Or.inr ?_
    rw [hwoken]
    rcases slot_step hstep with ⟨-, hsome, -⟩ | ⟨-, hslot', hnone⟩ | ⟨-, hslot', hnone⟩
    · rw [hstored.2] at hsome
      cases hsome
    · rw [hnone]
      exact ⟨rfl, hslot'.trans hslot⟩
    · rw [hnone, hslot]
      exact ⟨rfl, hslot'⟩

theorem waiting_of_pending {w : W} (hs : World.Step s (.poll w) (.polled .pending) s') :
    s'.Waiting w := by
  cases hs with
  | waits _ hqueue hcount => exact ⟨hqueue, hcount, rfl⟩

/-- Each `Pending` poll pays for at most one wake-up of its waker. -/
theorem count_woken_le [DecidableEq W] (hr : Run (World.system T W) .unbounded h s) (w : W) :
    (h.filterMap woken).count w + s.inner.rxWaker.toList.count w ≤
      (h.filterMap stored).count w := by
  -- a waker in the slot counts as a wake-up that is still to come
  refine hr.invariant (I := fun h s => (h.filterMap woken).count w +
    s.inner.rxWaker.toList.count w ≤ (h.filterMap stored).count w) (Nat.le_refl 0) ?_
  intro h s op res s' _ ih hs
  rw [filterMap_snoc, filterMap_snoc, List.count_append, List.count_append]
  rcases slot_step (World.step_cases hs) with ⟨hst, -, hwk⟩ | ⟨hst, hslot, hwk⟩ | ⟨hst, hslot, hwk⟩
  · rw [hst, hwk, Option.toList_none, List.count_nil]
    omega
  · rw [hst, hwk, hslot, Option.toList_none, List.count_nil]
    omega
  · rw [hst, hwk, hslot, Option.toList_none, List.count_nil]
    omega

/-- **The receiver's wake-up is never lost.** After any calls on a channel: if the latest
`Recv::poll` returned `Pending` with the waker `w` and `w` has not been woken since, then the buffer
is empty, a `Sender` is alive and `rx_waker` holds `w`. From a `Pending` poll to the next nothing is
woken, or its waker and this once; so no waker is woken more often than it has been stored. -/
theorem channel_wakes [DecidableEq W] (hr : Run (World.system T W) .unbounded h s) :
    (∀ h₁ w h₂, h = h₁ ++ (.poll w, .polled .pending) :: h₂ →
      (∀ e ∈ h₂, ∀ w', e.1 ≠ .poll w') → w ∉ h₂.filterMap woken →
      s.inner.queue = [] ∧ s.senders.Nonempty ∧ s.inner.rxWaker = some w) ∧
    (∀ h₁ w h₂, h = h₁ ++ (.poll w, .polled .pending) :: h₂ → h₂.filterMap stored = [] →
      h₂.filterMap woken = [] ∨ h₂.filterMap woken = [w]) ∧
    ∀ w, (h.filterMap woken).count w ≤ (h.filterMap stored).count w := by
  have hafter : ∀ h₁ w h₂, h = h₁ ++ (.poll w, .polled .pending) :: h₂ →
      h₂.filterMap stored = [] → (h₂.filterMap woken = [] ∧ s.Waiting w) ∨
        (h₂.filterMap woken = [w] ∧ s.inner.rxWaker = none) := by
    intro h₁ w h₂ heq hstored
    rw [heq] at hr
    obtain ⟨s₁, s₂, -, hpoll, hr₂⟩ := hr.exists_of_append_cons
    exact wakes_after_pending (waiting_of_pending (World.step_cases hpoll)) hr₂ hstored
  refine ⟨fun h₁ w h₂ heq hlatest hunwoken => ?_, fun h₁ w h₂ heq hstored => ?_, fun w => ?_⟩
  · have hstored : h₂.filterMap stored = [] := by
      rw [List.filterMap_eq_nil_iff]
      rintro ⟨op, res⟩ he
      cases op with
      | poll w' => exact absurd rfl (hlatest _ he w')
      | clone _ | send _ _ | dropSender _ | tryRecv | dropReceiver => rfl
    rcases hafter h₁ w h₂ heq hstored with ⟨-, hw⟩ | ⟨hwoken, -⟩
    · refine ⟨hw.queue, ?_, hw.slot⟩
      rw [← Finset.card_ne_zero, ← (run_inv hr).counted.count]
      exact hw.count
    · rw [hwoken] at hunwoken
      exact absurd (List.mem_singleton_self w) hunwoken
  · exact (hafter h₁ w h₂ heq hstored).imp And.left And.left
  · exact (Nat.le_add_right _ _).trans (count_woken_le hr w)

/-- A poll stores a waker, a second one replaces it, and the receiver still waits after a `try_recv`
and the drop of one of two senders. -/
theorem channel_wakes_replaced :
    ∃ (h₁ h₂ : History ℕ ℕ) (s : World ℕ ℕ),
      Run (World.system ℕ ℕ) .unbounded (h₁ ++ (.poll 9, .polled .pending) :: h₂) s ∧
      s.inner.queue = [] ∧ s.senders.Nonempty ∧ s.inner.rxWaker = some 9 := by
  obtain ⟨h, s, hr, hh, hno, hun⟩ := exists_run_of_exec (f := World.step) (s := World.unbounded)
    [.clone 0, .poll 8, .poll 9, .tryRecv, .dropSender 0]
    (fun p : History ℕ ℕ × World ℕ ℕ =>
      p.1 = p.1.take 2 ++ (.poll 9, .polled .pending) :: p.1.drop 3 ∧
      p.1.drop 3 = [(.tryRecv, .tried none), (.dropSender 0, .dropped none)] ∧
      9 ∉ (p.1.drop 3).filterMap woken) (by decide)
  dsimp only at hh hno hun
  refine ⟨h.take 2, h.drop 3, s, hh ▸ hr, ?_⟩
  refine (channel_wakes hr).1 _ 9 _ hh ?_ hun
  rw [hno]
  simp

end Step

end MiniAsync.Channel
