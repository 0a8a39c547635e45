/-
  What a timer wheel is for.

  `Timers` is the abstract state of a wheel: the deadlines of the timers in the
  order of their registration, which of them have fired, and the waker that waits
  for each. `Step` says what the operations of a wheel may do to it. It leaves open
  the order in which timers of one deadline fire, and nothing else (`Step.agree`).

  `Told` reads the abstract state off the history of the calls: `registration`,
  `firings` and `pendingPoll` are what a call says about deadlines, fired timers
  and wakers. `fired_iff` says from the history alone which timers have fired.
-/
import MiniAsync.MultiThread.AtomicWaker
import MiniAsync.Trace.System
import Mathlib.Data.List.GetD
import Mathlib.Data.List.Perm.Basic

namespace MiniAsync.Timer

open MultiThread (Poll)
open Trace

variable {W : Type}

inductive Op (W : Type) where
  | register (deadline : ℕ)
  | poll (k : ℕ) (w : W)
  /-- `process`, with its reading of the clock. -/
  | process (now : ℕ)
  | hasPending
deriving DecidableEq

inductive Result (W : Type) where
  | registered (k : ℕ)
  | polled (p : Poll Unit)
  /-- The timers that `process` has fired, the wakers that it has called and what it returns. -/
  | processed (fired : List ℕ) (woken : List W) (next : Option ℕ)
  | pending (b : Bool)
deriving DecidableEq

abbrev History (W : Type) := List (Op W × Result W)

@[ext]
structure Timers (W : Type) where
  deadlines : List ℕ
  fired : ℕ → Bool
  waker : ℕ → Option W
  /-- Nothing has happened to a timer that is not registered yet. -/
  fresh : ∀ k, deadlines.length ≤ k → fired k = false ∧ waker k = none

namespace Timers

def init : Timers W := ⟨[], fun _ => false, fun _ => none, fun _ _ => ⟨rfl, rfl⟩⟩

def deadline (a : Timers W) (k : ℕ) : ℕ := a.deadlines.getD k 0

/-- The timer is registered and has not fired. -/
def Waiting (a : Timers W) (k : ℕ) : Prop := k < a.deadlines.length ∧ a.fired k = false

/-- The timer fires when the clock reads `now`. -/
def Due (a : Timers W) (now k : ℕ) : Prop := a.Waiting k ∧ a.deadline k ≤ now

/-- The timer is left when the clock reads `now`. -/
def Left (a : Timers W) (now k : ℕ) : Prop := a.Waiting k ∧ now < a.deadline k

instance (a : Timers W) (now k : ℕ) : Decidable (a.Due now k) :=
  inferInstanceAs (Decidable ((_ ∧ _) ∧ _))

def add (a : Timers W) (d : ℕ) : Timers W :=
  { a with
    deadlines := a.deadlines ++ [d]
    fresh := fun k hk => a.fresh k (by rw [List.length_append] at hk; omega) }

def setWaker (a : Timers W) (k : ℕ) (w : W) (hk : k < a.deadlines.length) : Timers W :=
  { a with
    waker := Function.update a.waker k (some w)
    fresh := fun j hj => by
      rw [Function.update_of_ne (Nat.ne_of_gt (Nat.lt_of_lt_of_le hk hj))]
      exact a.fresh j hj }

/-- All timers that are due have fired. -/
def fire (a : Timers W) (now : ℕ) : Timers W where
  deadlines := a.deadlines
  fired k := a.fired k || decide (a.Due now k)
  waker k := if a.Due now k then none else a.waker k
  fresh k hk := by
    have hnot : ¬ a.Due now k := fun hdue => absurd hdue.1.1 (Nat.not_lt.mpr hk)
    rw [if_neg hnot, decide_eq_false hnot, Bool.or_false]
    exact a.fresh k hk

theorem setWaker_waker_self (a : Timers W) {k : ℕ} (w : W) (hk : k < a.deadlines.length) :
    (a.setWaker k w hk).waker k = some w :=
  Function.update_self _ _ _

theorem setWaker_waker_of_ne (a : Timers W) {j k : ℕ} (w : W) (hk : k < a.deadlines.length)
    (hne : j ≠ k) : (a.setWaker k w hk).waker j = a.waker j :=
  Function.update_of_ne hne _ _

theorem length_add (a : Timers W) (d : ℕ) :
    (a.add d).deadlines.length = a.deadlines.length + 1 :=
  List.length_append

theorem deadline_add_of_lt (a : Timers W) (d : ℕ) {k : ℕ} (hk : k < a.deadlines.length) :
    (a.add d).deadline k = a.deadline k :=
  List.getD_append _ _ _ _ hk

theorem deadline_add_length (a : Timers W) (d : ℕ) :
    (a.add d).deadline a.deadlines.length = d := by
  rw [deadline, add, List.getD_append_right _ _ _ _ (Nat.le_refl _), Nat.sub_self]
  rfl

theorem waiting_fire (a : Timers W) (now k : ℕ) : (a.fire now).Waiting k ↔ a.Left now k := by
  have hfired : (a.fire now).fired k = (a.fired k || decide (a.Due now k)) := rfl
  rw [Waiting, hfired, Bool.or_eq_false_iff, decide_eq_false_iff_not]
  constructor
  · rintro ⟨hk, hf, hnot⟩
    exact ⟨⟨hk, hf⟩, Nat.not_le.mp fun hle => hnot ⟨⟨hk, hf⟩, hle⟩⟩
  · rintro ⟨⟨hk, hf⟩, hlate⟩
    exact ⟨hk, hf, fun hdue => Nat.not_le.mpr hlate hdue.2⟩

/-- What `process` does when the clock reads `now`: the timers that are due fire, the earlier ones
first, each calls its waker, and the time to the first of the others is returned. -/
structure Processed (a : Timers W) (now : ℕ) (fired : List ℕ) (woken : List W)
    (next : Option ℕ) : Prop where
  nodup : fired.Nodup
  mem : ∀ k, k ∈ fired ↔ a.Due now k
  sorted : fired.Pairwise fun j k => a.deadline j ≤ a.deadline k
  woken_eq : woken = fired.filterMap a.waker
  next_none : next = none ↔ ∀ k, ¬ a.Left now k
  next_some : ∀ d, next = some d → 0 < d ∧ (∃ k, a.Left now k ∧ a.deadline k = now + d) ∧
    ∀ k, a.Left now k → now + d ≤ a.deadline k

/-- The operations of a timer wheel. -/
inductive Step (a : Timers W) : Op W → Result W → Timers W → Prop
  | register (d : ℕ) : Step a (.register d) (.registered a.deadlines.length) (a.add d)
  | ready {k : ℕ} {w : W} (hk : k < a.deadlines.length) (hfired : a.fired k = true) :
      Step a (.poll k w) (.polled (.ready ())) a
  | waits {k : ℕ} {w : W} (hk : k < a.deadlines.length) (hfired : a.fired k = false) :
      Step a (.poll k w) (.polled .pending) (a.setWaker k w hk)
  | process {now : ℕ} {fired : List ℕ} {woken : List W} {next : Option ℕ}
      (hp : a.Processed now fired woken next) :
      Step a (.process now) (.processed fired woken next) (a.fire now)
  | hasPending {b : Bool} (hb : b = true ↔ ∃ k, a.Waiting k) : Step a .hasPending (.pending b) a

/-! ### How far the operations are determined -/

/-- Two results are the same up to the order in which timers have fired. -/
def Agree : Result W → Result W → Prop
  | .processed fired woken next, .processed fired' woken' next' =>
    fired.Perm fired' ∧ woken.Perm woken' ∧ next = next'
  | r, r' => r = r'

variable {a a' : Timers W} {now k : ℕ} {op : Op W} {res : Result W}

theorem Processed.next_le {fired fired' : List ℕ} {woken woken' : List W} {d d' : ℕ}
    (h : a.Processed now fired woken (some d)) (h' : a.Processed now fired' woken' (some d')) :
    d ≤ d' := by
  obtain ⟨-, ⟨k, hleft, hd⟩, -⟩ := h'.next_some d' rfl
  have hle := (h.next_some d rfl).2.2 k hleft
  rw [hd] at hle
  exact Nat.le_of_add_le_add_left hle

theorem Processed.agree {fired fired' : List ℕ} {woken woken' : List W} {next next' : Option ℕ}
    (h : a.Processed now fired woken next) (h' : a.Processed now fired' woken' next') :
    fired.Perm fired' ∧ woken.Perm woken' ∧ next = next' := by
  have hperm : fired.Perm fired' := by
    rw [List.perm_ext_iff_of_nodup h.nodup h'.nodup]
    exact fun k => (h.mem k).trans (h'.mem k).symm
  refine ⟨hperm, ?_, ?_⟩
  · rw [h.woken_eq, h'.woken_eq]
    exact hperm.filterMap _
  · cases next with
    | none => exact (h'.next_none.mpr (h.next_none.mp rfl)).symm
    | some d =>
      cases next' with
      | none => exact h.next_none.mpr (h'.next_none.mp rfl)
      | some d' => rw [Nat.le_antisymm (h.next_le h') (h'.next_le h)]

/-- An operation determines the state it leads to, and its result up to the order of firing. -/
theorem Step.agree {res' : Result W} {a₁ a₂ : Timers W} (h : Step a op res a₁)
    (h' : Step a op res' a₂) : Agree res res' ∧ a₁ = a₂ := by
  cases h with
  | register d =>
    cases h'
    exact ⟨rfl, rfl⟩
  | ready hk hfired =>
    cases h' with
    | ready _ _ => exact ⟨rfl, rfl⟩
    | waits _ hfired' => exact absurd (hfired.symm.trans hfired') (by simp)
  | waits hk hfired =>
    cases h' with
    | ready _ hfired' => exact absurd (hfired.symm.trans hfired') (by simp)
    | waits _ _ => exact ⟨rfl, rfl⟩
  | process hp =>
    cases h' with
    | process hp' => exact ⟨hp.agree hp', rfl⟩
  | hasPending hb =>
    cases h' with
    | hasPending hb' =>
      exact ⟨congrArg Result.pending (Bool.eq_iff_iff.mpr (hb.trans hb'.symm)), rfl⟩

/-! ### The state that a history tells -/

end Timers

/-- The deadline that a call registers. -/
def registration : Op W × Result W → Option ℕ
  | (.register d, _) => some d
  | _ => none

/-- The timers that a call fires. -/
def firings : Op W × Result W → List ℕ
  | (_, .processed fired _ _) => fired
  | _ => []

/-- The waker that a call stores for the timer `k`. -/
def pendingPoll (k : ℕ) : Op W × Result W → Option W
  | (.poll k' w, .polled .pending) => if k' = k then some w else none
  | _ => none

/-- The deadline of the timer `k`. -/
def deadlineOf (h : History W) (k : ℕ) : ℕ := (h.filterMap registration).getD k 0

/-- The timer `k` is registered and no `process` has fired it. -/
def Unfired (h : History W) (k : ℕ) : Prop :=
  k < (h.filterMap registration).length ∧ k ∉ h.flatMap firings

/-- The waker of the latest `Pending` poll of the timer `k`. -/
def lastPending (h : History W) (k : ℕ) : Option W := (h.filterMap (pendingPoll k)).getLast?

namespace Timers

/-- The abstract state as the history tells it. -/
structure Told (h : History W) (a : Timers W) : Prop where
  deadlines : a.deadlines = h.filterMap registration
  fired : ∀ k, k ∈ h.flatMap firings ↔ a.fired k = true
  waker : ∀ k, a.fired k = false → a.waker k = lastPending h k

variable {a a' : Timers W} {now k : ℕ} {op : Op W} {res : Result W} {h : History W}

theorem lastPending_snoc (h : History W) (e : Op W × Result W) (k : ℕ) :
    lastPending (h ++ [e]) k = (pendingPoll k e).or (lastPending h k) := by
  rw [lastPending, filterMap_snoc, List.getLast?_append, lastPending]
  cases pendingPoll k e <;> rfl

theorem deadlines_step (hs : Step a op res a') :
    a'.deadlines = a.deadlines ++ (registration (op, res)).toList := by
  cases hs with
  | register d => rfl
  | ready _ _ | waits _ _ | process _ | hasPending _ => exact (List.append_nil _).symm

theorem fired_step (hs : Step a op res a') (k : ℕ) :
    a'.fired k = true ↔ a.fired k = true ∨ k ∈ firings (op, res) := by
  cases hs with
  | process hp =>
    rw [firings, hp.mem]
    simp only [fire, Bool.or_eq_true, decide_eq_true_eq]
  | register _ | ready _ _ | waits _ _ | hasPending _ =>
    exact ⟨Or.inl, fun hk => hk.resolve_right (List.not_mem_nil)⟩

theorem waker_step (hs : Step a op res a') {k : ℕ} (hk : a'.fired k = false) :
    a'.waker k = (pendingPoll k (op, res)).or (a.waker k) := by
  cases hs with
  | @waits j w hj hfired =>
    rcases eq_or_ne k j with rfl | hne
    · rw [setWaker_waker_self, pendingPoll, if_pos rfl, Option.some_or]
    · rw [setWaker_waker_of_ne _ _ _ hne, pendingPoll, if_neg hne.symm, Option.none_or]
  | @process now _ _ _ hp =>
    have hnot : ¬ a.Due now k := by
      intro hdue
      simp [fire, hdue] at hk
    exact if_neg hnot
  | register _ | ready _ _ | hasPending _ => rfl

theorem Told.init : Told [] (init : Timers W) :=
  ⟨rfl, by simp [Timers.init], fun _ _ => rfl⟩

theorem Told.step (ht : Told h a) (hs : Step a op res a') : Told (h ++ [(op, res)]) a' := by
  refine ⟨?_, fun k => ?_, fun k hk => ?_⟩
  · rw [filterMap_snoc, ← ht.deadlines]
    exact deadlines_step hs
  · rw [List.flatMap_append, List.flatMap_singleton, List.mem_append, ht.fired, fired_step hs]
  · have hk' : a.fired k = false := by
      rw [Bool.eq_false_iff] at hk ⊢
      exact fun hf => hk ((fired_step hs k).mpr (Or.inl hf))
    rw [lastPending_snoc, ← ht.waker k hk']
    exact waker_step hs hk

theorem Told.waiting_iff (ht : Told h a) : a.Waiting k ↔ Unfired h k := by
  rw [Waiting, Unfired, ht.fired, ht.deadlines, Bool.not_eq_true]

theorem Told.deadline_eq (ht : Told h a) (k : ℕ) : a.deadline k = deadlineOf h k := by
  rw [deadline, ht.deadlines, deadlineOf]

theorem run_told (hr : Run Step init h a) : Told h a :=
  hr.invariant Told.init fun _ _ _ _ _ _ ht hs => ht.step hs

/-! ### Which timers have fired -/

theorem length_le_step (hs : Step a op res a') : a.deadlines.length ≤ a'.deadlines.length := by
  rw [deadlines_step hs, List.length_append]
  exact Nat.le_add_right _ _

theorem deadline_step (hs : Step a op res a') (hk : k < a.deadlines.length) :
    a'.deadline k = a.deadline k := by
  rw [deadline, deadlines_step hs, List.getD_append _ _ _ _ hk, deadline]

/-- A registered timer fires in a `process` whose clock reading has reached its deadline. -/
theorem fired_step_iff (hs : Step a op res a') (hk : k < a.deadlines.length) :
    a'.fired k = true ↔ a.fired k = true ∨ ∃ now, op = .process now ∧ a.deadline k ≤ now := by
  cases hs with
  | @process now _ _ _ hp =>
    simp only [fire, Bool.or_eq_true, decide_eq_true_eq]
    constructor
    · exact Or.imp_right fun hdue => ⟨now, rfl, hdue.2⟩
    · rintro (hf | ⟨_, ⟨⟩, hle⟩)
      · exact Or.inl hf
      · cases hf : a.fired k with
        | true => exact Or.inl rfl
        | false => exact Or.inr ⟨⟨hk, hf⟩, hle⟩
  | register _ | ready _ _ | waits _ _ | hasPending _ => exact ⟨Or.inl, by simp [add, setWaker]⟩

/-- A timer has fired if a `process` has read a clock at or after its deadline. -/
theorem fired_after {a₀ : Timers W} (hr : Run Step a₀ h a) (hk : k < a₀.deadlines.length)
    (hfired : a₀.fired k = false) :
    a.fired k = true ↔ ∃ e ∈ h, ∃ now, e.1 = .process now ∧ a₀.deadline k ≤ now := by
  have hinv := hr.invariant (I := fun h a => (k < a.deadlines.length ∧
    a.deadline k = a₀.deadline k) ∧ (a.fired k = true ↔
      ∃ e ∈ h, ∃ now, e.1 = .process now ∧ a₀.deadline k ≤ now)) ⟨⟨hk, rfl⟩, by simp [hfired]⟩ ?_
  · exact hinv.2
  · rintro h a op res a' - ⟨⟨hk, hd⟩, hiff⟩ hs
    refine ⟨⟨Nat.lt_of_lt_of_le hk (length_le_step hs), (deadline_step hs hk).trans hd⟩, ?_⟩
    rw [fired_step_iff hs hk, hiff, hd]
    simp only [List.mem_append, List.mem_singleton, or_and_right, exists_or, exists_eq_left]

/-- Timers that fire together fire in the order of their deadlines. -/
theorem firings_sorted (hr : Run Step init h a) :
    ∀ e ∈ h, (firings e).Pairwise fun j k => deadlineOf h j ≤ deadlineOf h k := by
  have hinv := hr.invariant (I := fun h a => ∀ e ∈ h, (∀ k ∈ firings e, k < a.deadlines.length) ∧
    (firings e).Pairwise fun j k => a.deadline j ≤ a.deadline k) (by simp) ?_
  · intro e he
    have hsorted := (hinv e he).2
    simp only [(run_told hr).deadline_eq] at hsorted
    exact hsorted
  · intro h a op res a' _ ih hs e he
    -- later registrations do not change the deadlines of these timers
    suffices hold : (∀ k ∈ firings e, k < a.deadlines.length) ∧
        (firings e).Pairwise fun j k => a.deadline j ≤ a.deadline k by
      refine ⟨fun k hk => Nat.lt_of_lt_of_le (hold.1 k hk) (length_le_step hs), ?_⟩
      refine hold.2.imp_of_mem fun hj hk hle => ?_
      rw [deadline_step hs (hold.1 _ hj), deadline_step hs (hold.1 _ hk)]
      exact hle
    rcases List.mem_append.mp he with he | he
    · exact ih e he
    · rw [List.mem_singleton.mp he]
      cases hs with
      | process hp => exact ⟨fun k hk => ((hp.mem k).mp hk).1.1, hp.sorted⟩
      | register _ | ready _ _ | waits _ _ | hasPending _ => simp [firings]

/-- Every registered timer has its registration in the history. -/
theorem exists_registration (hr : Run Step init h a) (hk : k < a.deadlines.length) :
    ∃ h₁ d h₂, h = h₁ ++ (.register d, .registered k) :: h₂ := by
  revert hk
  refine hr.invariant (I := fun h a => k < a.deadlines.length →
    ∃ h₁ d h₂, h = h₁ ++ (.register d, .registered k) :: h₂)
    (fun hk => absurd hk (by simp [init])) ?_
  intro h a op res a' _ ih hs hk
  by_cases hold : k < a.deadlines.length
  · obtain ⟨h₁, d, h₂, rfl⟩ := ih hold
    exact ⟨h₁, d, h₂ ++ [(op, res)], by simp⟩
  · rw [deadlines_step hs] at hk
    cases hs with
    | register d =>
      have hk' : k = a.deadlines.length := by
        simp [registration] at hk
        omega
      exact ⟨h, d, [], by rw [hk']⟩
    | ready _ _ | waits _ _ | process _ | hasPending _ => simp [registration] at hk; omega

/-- **A timer has fired exactly if a `process` since its registration has read a clock at or after
its deadline.** -/
theorem fired_iff (hr : Run Step init h a) (hk : k < a.deadlines.length) :
    a.fired k = true ↔ ∃ h₁ d h₂, h = h₁ ++ (.register d, .registered k) :: h₂ ∧
      ∃ e ∈ h₂, ∃ now, e.1 = .process now ∧ d ≤ now := by
  have hsplit : ∀ h₁ d h₂, h = h₁ ++ (.register d, .registered k) :: h₂ →
      (a.fired k = true ↔ ∃ e ∈ h₂, ∃ now, e.1 = .process now ∧ d ≤ now) := by
    intro h₁ d h₂ heq
    rw [heq] at hr
    obtain ⟨a₁, a₂, -, hreg, hr₂⟩ := hr.exists_of_append_cons
    cases hreg
    have hlt : a₁.deadlines.length < (a₁.add d).deadlines.length := by
      rw [length_add]
      exact Nat.lt_succ_self _
    rw [fired_after hr₂ hlt (a₁.fresh _ (Nat.le_refl _)).1, deadline_add_length]
  constructor
  · intro hf
    obtain ⟨h₁, d, h₂, heq⟩ := exists_registration hr hk
    exact ⟨h₁, d, h₂, heq, (hsplit h₁ d h₂ heq).mp hf⟩
  · rintro ⟨h₁, d, h₂, heq, hnow⟩
    exact (hsplit h₁ d h₂ heq).mpr hnow

end Timers

end MiniAsync.Timer
