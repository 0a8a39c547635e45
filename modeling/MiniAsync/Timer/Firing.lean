/-
  The heap of a timer wheel and the timers that it stands for.

  Both wheels of the repository keep a `TimerEntry` for every timer that has not
  fired, in a `BinaryHeap` whose order is reversed, and `process` pops entries as
  long as the top one is due. `Holds` says that some entries are those of the timers
  that wait. `Holds.processed` says that popping them does what `process` should,
  for any correct heap.
-/
import MiniAsync.Heap.MaxHeap
import MiniAsync.MultiThread.State
import MiniAsync.Timer.Spec

namespace MiniAsync.Timer

open Heap MultiThread

variable {W : Type}

/-- `Ord for TimerEntry`, in `timer.rs` and in `multi_thread/timer.rs`. -/
def cmp (self other : TimerEntry) : Ordering := compare other.deadline self.deadline

theorem cmp_isLE {e e' : TimerEntry} : (cmp e' e).isLE = true ↔ e.deadline ≤ e'.deadline :=
  Nat.isLE_compare

instance : Std.TransCmp cmp where
  eq_swap {e e'} := by
    show compare e'.deadline e.deadline = (compare e.deadline e'.deadline).swap
    exact Std.OrientedCmp.eq_swap
  isLE_trans h h' := cmp_isLE.mpr ((cmp_isLE.mp h').trans (cmp_isLE.mp h))

/-- The entry's timer fires when the clock reads `now`. -/
def due (now : ℕ) (e : TimerEntry) : Bool := decide (e.deadline ≤ now)

section Drain

variable (Q : MaxHeap cmp) {h : Q.Carrier} {n now : ℕ} {e : TimerEntry}

/-- Nothing that is due is left. -/
theorem due_of_mem_drain (hn : Q.len h ≤ n) :
    ∀ e ∈ Q.elems (Q.drain (due now) n h).2, due now e = false := by
  refine Q.drain_rest (fun e e' hle hdue => ?_) n h hn
  exact decide_eq_true ((cmp_isLE.mp hle).trans (of_decide_eq_true hdue))

theorem mem_drain_of_due (hn : Q.len h ≤ n) (he : e ∈ Q.elems h) (hd : e.deadline ≤ now) :
    e ∈ (Q.drain (due now) n h).1 := by
  rw [← Q.drain_elems (due now) n h] at he
  rcases Multiset.mem_add.mp he with he | he
  · exact Multiset.mem_coe.mp he
  · have hnot := due_of_mem_drain Q hn e he
    rw [due, decide_eq_true hd] at hnot
    cases hnot

end Drain

/-- The entries are those of the timers that wait. -/
structure Holds (m : Multiset TimerEntry) (a : Timers W) : Prop where
  nodup : m.Nodup
  mem : ∀ e, e ∈ m ↔ a.Waiting e.id ∧ e.deadline = a.deadline e.id

namespace Holds

variable {m : Multiset TimerEntry} {a : Timers W} {now : ℕ}

theorem init : Holds 0 (Timers.init : Timers W) :=
  ⟨Multiset.nodup_zero, fun e => by simp [Timers.Waiting, Timers.init]⟩

theorem mem_of_waiting (hm : Holds m a) {k : ℕ} (hk : a.Waiting k) : ⟨a.deadline k, k⟩ ∈ m :=
  (hm.mem _).mpr ⟨hk, rfl⟩

/-- An entry is determined by its timer. -/
theorem eq_of_id_eq (hm : Holds m a) {e e' : TimerEntry} (he : e ∈ m) (he' : e' ∈ m)
    (hid : e.id = e'.id) : e = e' := by
  have hd : e.deadline = e'.deadline := by
    rw [((hm.mem e).mp he).2, ((hm.mem e').mp he').2, hid]
  cases e
  cases e'
  cases hid
  cases hd
  rfl

theorem add (hm : Holds m a) (d : ℕ) : Holds (⟨d, a.deadlines.length⟩ ::ₘ m) (a.add d) := by
  refine ⟨Multiset.nodup_cons.mpr ⟨fun hmem => ?_, hm.nodup⟩, fun e => ?_⟩
  · exact Nat.lt_irrefl _ ((hm.mem _).mp hmem).1.1
  · rw [Multiset.mem_cons, hm.mem]
    constructor
    · rintro (rfl | ⟨hwaiting, hd⟩)
      · refine ⟨⟨?_, (a.fresh _ (Nat.le_refl _)).1⟩, (Timers.deadline_add_length a d).symm⟩
        rw [Timers.length_add]
        exact Nat.lt_succ_self _
      · refine ⟨⟨?_, hwaiting.2⟩, hd.trans (Timers.deadline_add_of_lt a d hwaiting.1).symm⟩
        rw [Timers.length_add]
        exact Nat.lt_succ_of_lt hwaiting.1
    · -- a timer that waits was there before, or is the new one
      rintro ⟨⟨hlt, hfired⟩, hd⟩
      rw [Timers.length_add] at hlt
      rcases Nat.lt_succ_iff_lt_or_eq.mp hlt with hlt | heq
      · rw [Timers.deadline_add_of_lt a d hlt] at hd
        exact Or.inr ⟨⟨hlt, hfired⟩, hd⟩
      · rw [heq, Timers.deadline_add_length] at hd
        cases e
        cases heq
        cases hd
        exact Or.inl rfl

theorem setWaker (hm : Holds m a) {k : ℕ} (w : W) (hk : k < a.deadlines.length) :
    Holds m (a.setWaker k w hk) :=
  ⟨hm.nodup, hm.mem⟩

theorem eq_zero_iff (hm : Holds m a) : m = 0 ↔ ∀ k, ¬ a.Waiting k := by
  constructor
  · rintro rfl k hk
    exact absurd (hm.mem_of_waiting hk) (Multiset.notMem_zero _)
  · intro hnone
    exact Multiset.eq_zero_of_forall_notMem fun e he => hnone e.id ((hm.mem e).mp he).1

/-- What is left of the entries when those that are due have been taken out. -/
theorem rest (hm : Holds m a) {l : List TimerEntry} {m' : Multiset TimerEntry}
    (hsum : (l : Multiset TimerEntry) + m' = m) (hdue : ∀ e ∈ l, due now e = true)
    (hrest : ∀ e ∈ m', due now e = false) : Holds m' (a.fire now) := by
  have hnodup : ((l : Multiset TimerEntry) + m').Nodup := hsum ▸ hm.nodup
  refine ⟨(Multiset.nodup_add.mp hnodup).2.1, fun e => ?_⟩
  have hmem : e ∈ m ↔ e ∈ l ∨ e ∈ m' := by rw [← hsum, Multiset.mem_add, Multiset.mem_coe]
  constructor
  · intro he
    have hlate : now < e.deadline := by simpa [due] using hrest e he
    obtain ⟨⟨hlt, hfired⟩, hd⟩ := (hm.mem e).mp (hmem.mpr (Or.inr he))
    refine ⟨⟨hlt, ?_⟩, hd⟩
    have hnot : ¬ a.Due now e.id := fun hdue => by
      rw [hd] at hlate
      exact Nat.not_lt.mpr hdue.2 hlate
    simp [Timers.fire, hfired, hnot]
  · rintro ⟨⟨hlt, hfired⟩, hd⟩
    have hsplit : a.fired e.id = false ∧ ¬ a.Due now e.id := by simpa [Timers.fire] using hfired
    have he : e ∈ m := (hm.mem e).mpr ⟨⟨hlt, hsplit.1⟩, hd⟩
    -- had it been taken out, it would have been due
    refine (hmem.mp he).resolve_left fun hl => hsplit.2 ⟨⟨hlt, hsplit.1⟩, ?_⟩
    have hle : e.deadline ≤ now := of_decide_eq_true (hdue e hl)
    rw [hd] at hle
    exact hle

variable (Q : MaxHeap cmp) {h : Q.Carrier} {n : ℕ}

theorem drain (hm : Holds (Q.elems h) a) (hn : Q.len h ≤ n) :
    Holds (Q.elems (Q.drain (due now) n h).2) (a.fire now) :=
  hm.rest (Q.drain_elems _ n h) (Q.drain_test n h) (due_of_mem_drain Q hn)

/-- The time to the top of what is left is the time to the first timer that is left. -/
theorem next_some (hm : Holds (Q.elems h) (a.fire now)) {e : TimerEntry} (he : Q.peek h = some e) :
    0 < e.deadline - now ∧ (∃ k, a.Left now k ∧ a.deadline k = now + (e.deadline - now)) ∧
      ∀ k, a.Left now k → now + (e.deadline - now) ≤ a.deadline k := by
  obtain ⟨hwaiting, hd⟩ := (hm.mem e).mp (Q.mem_of_peek he)
  have hleft := (Timers.waiting_fire a now e.id).mp hwaiting
  have hsum : now + (e.deadline - now) = e.deadline := by
    have hlate : now < a.deadline e.id := hleft.2
    have hd' : e.deadline = a.deadline e.id := hd
    omega
  rw [hsum]
  refine ⟨?_, ⟨e.id, hleft, hd.symm⟩, fun k hk => ?_⟩
  · have hlate : now < e.deadline := hd ▸ hleft.2
    omega
  · have hmem := hm.mem_of_waiting ((Timers.waiting_fire a now k).mpr hk)
    exact cmp_isLE.mp (Q.peek_max h e he _ hmem)

theorem next_none (hm : Holds (Q.elems h) (a.fire now)) :
    Q.peek h = none ↔ ∀ k, ¬ a.Left now k := by
  rw [Q.peek_eq_none_iff, hm.eq_zero_iff]
  simp only [Timers.waiting_fire]

/-- **Popping the entries that are due is what `process` should do.** -/
theorem processed (hm : Holds (Q.elems h) a) (hn : Q.len h ≤ n) :
    a.Processed now ((Q.drain (due now) n h).1.map TimerEntry.id)
      (((Q.drain (due now) n h).1.map TimerEntry.id).filterMap a.waker)
      ((Q.peek (Q.drain (due now) n h).2).map (·.deadline - now)) := by
  have hsum := Q.drain_elems (due now) n h
  have hrest : Holds (Q.elems (Q.drain (due now) n h).2) (a.fire now) := hm.drain Q hn
  generalize hd : Q.drain (due now) n h = d at hsum hrest ⊢
  have hmem : ∀ e, e ∈ d.1 → e ∈ Q.elems h := fun e he => by
    rw [← hsum]
    exact Multiset.mem_add.mpr (Or.inl he)
  have hnodup : (d.1 : Multiset TimerEntry).Nodup := by
    have := hm.nodup
    rw [← hsum] at this
    exact (Multiset.nodup_add.mp this).1
  refine ⟨?_, fun k => ?_, ?_, rfl, ?_, ?_⟩
  · -- different entries are of different timers
    refine (Multiset.coe_nodup.mp hnodup).map_on fun e he e' he' hid => ?_
    exact hm.eq_of_id_eq (hmem e he) (hmem e' he') hid
  · rw [List.mem_map]
    constructor
    · rintro ⟨e, he, rfl⟩
      obtain ⟨hwaiting, hdl⟩ := (hm.mem e).mp (hmem e he)
      have hdue : due now e = true := Q.drain_test n h e (hd ▸ he)
      exact ⟨hwaiting, hdl ▸ of_decide_eq_true hdue⟩
    · intro hdue
      have he : (⟨a.deadline k, k⟩ : TimerEntry) ∈ Q.elems h := hm.mem_of_waiting hdue.1
      rw [← hsum, Multiset.mem_add] at he
      refine ⟨_, he.resolve_right fun hr => ?_, rfl⟩
      have hleft := (Timers.waiting_fire a now k).mp ((hrest.mem _).mp hr).1
      exact Nat.not_lt.mpr hdue.2 hleft.2
  · rw [List.pairwise_map]
    have hsorted := Q.drain_sorted (due now) n h
    rw [hd] at hsorted
    refine hsorted.imp_of_mem fun {e e'} he he' hle => ?_
    rw [← ((hm.mem e).mp (hmem e he)).2, ← ((hm.mem e').mp (hmem e' he')).2]
    exact cmp_isLE.mp hle
  · rw [Option.map_eq_none_iff]
    exact hrest.next_none Q
  · intro t ht
    obtain ⟨e, he, rfl⟩ := Option.map_eq_some_iff.mp ht
    exact hrest.next_some Q he

end Holds

end MiniAsync.Timer
