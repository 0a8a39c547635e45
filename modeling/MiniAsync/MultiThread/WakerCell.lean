/-
  The `AtomicWaker` under any number of threads.

  The timer wheel calls `register` from one thread and `wake` from another. The type is declared
  `Sync`, however, so that nothing keeps more threads from calling both at any time. `Moves` says
  what one access can do; from it follow

  * `Guarded`: between the compare-and-swap that claims the cell and the store that releases it
    there is at most one call, and the state is `WAKER_WAKING` exactly during this time;
  * `waker_cell_linearizable`: callers cannot tell the cell from a place for one waker in which
    `register` puts its waker and from which `wake` takes what is there, each in one step;
  * `waker_cell_returns`: a call that spins waits for another call, which is about to return.
-/
import MiniAsync.Interleave.Linearize
import MiniAsync.MultiThread.AtomicWaker
import MiniAsync.Resource.Holders
import MiniAsync.Trace.Solo

namespace MiniAsync.MultiThread.WakerCell

open Interleave Trace Resource

variable {W : Type}

/-- The operations of an `AtomicWaker`. -/
inductive Op (W : Type) where
  | register (w : W)
  | wake
deriving DecidableEq

/-- The position of a call. -/
inductive Pc (W : Type) where
  | register (w : W) (pc : AtomicWaker.RegisterPc)
  | wake (pc : AtomicWaker.WakePc W)
deriving DecidableEq

/-- What a call returns; `wake` wakes the waker that it has taken after it has left the cell. -/
inductive Reply (W : Type) where
  | registered
  | taken (w : Option W)
deriving DecidableEq

/-- One access of a call. -/
def access (cell : AtomicWaker W) (spurious : Bool) : Pc W → AtomicWaker W × (Pc W ⊕ Reply W)
  | .register w pc =>
    match cell.register w spurious pc with
    | (cell', some pc') => (cell', .inl (.register w pc'))
    | (cell', none) => (cell', .inr .registered)
  | .wake pc =>
    match cell.wake spurious pc with
    | (cell', .inl pc') => (cell', .inl (.wake pc'))
    | (cell', .inr w) => (cell', .inr (.taken w))

/-- The `AtomicWaker` as an object that threads share. -/
def object (W : Type) : Object (AtomicWaker W) (Op W) (Pc W) (Reply W) Bool where
  start
    | .register w => .register w .casEmpty
    | .wake => .wake .cas
  step cell pc spurious := access cell spurious pc

/-- What the cell is for: a place for one waker. -/
def slot : Option W → Op W → Reply W × Option W
  | _, .register w => (.registered, some w)
  | o, .wake => (.taken o, none)

/-- The call has claimed the cell, and accesses the waker in it. -/
def Pc.claims : Pc W → Bool
  | .register _ .write | .register _ .store | .wake .take | .wake (.store _) => true
  | .register _ .casEmpty | .register _ .casStored | .wake .cas => false

/-- What a call that has claimed the cell knows of the waker in it. -/
def Pc.Holds (o : Option W) : Pc W → Prop
  | .register _ .write => True
  | .register w .store => o = some w
  | .wake .take => o ≠ none
  | .wake (.store _) => o = none
  | _ => False

/-- The cell when it is not claimed. -/
structure Free (cell : AtomicWaker W) : Prop where
  state : cell.state ≠ .waking
  empty : cell.state = .empty → cell.waker = none
  stored : cell.state = .stored → cell.waker ≠ none

/-- What an access can do. -/
inductive Moves (cell : AtomicWaker W) (pc : Pc W) : AtomicWaker W → Pc W ⊕ Reply W → Prop
  /-- A compare-and-swap fails. -/
  | spin {pc' : Pc W} (hpc : pc.claims = false) (hpc' : pc'.claims = false) :
      Moves cell pc cell (.inl pc')
  /-- `wake` finds nothing. -/
  | nothing (hpc : pc.claims = false) (hempty : cell.state = .empty) :
      Moves cell pc cell (.inr (.taken none))
  | claim {pc' : Pc W} (hpc : pc.claims = false) (hstate : cell.state ≠ .waking)
      (hholds : (cell.state = .stored → cell.waker ≠ none) → pc'.Holds cell.waker) :
      Moves cell pc { cell with state := .waking } (.inl pc')
  | work {pc' : Pc W} {o : Option W} (hpc : pc.claims = true) (hholds : pc'.Holds o) :
      Moves cell pc { cell with waker := o } (.inl pc')
  | release {s : WakerState} {r : Reply W} (hpc : pc.claims = true)
      (hfree : pc.Holds cell.waker → Free { cell with state := s }) :
      Moves cell pc { cell with state := s } (.inr r)

theorem Pc.Holds.claims {o : Option W} {pc : Pc W} (h : pc.Holds o) : pc.claims = true := by
  cases pc with
  | register w pc => cases pc <;> first | rfl | exact h.elim
  | wake pc => cases pc <;> first | rfl | exact h.elim

theorem moves_register (cell : AtomicWaker W) (spurious : Bool) (w : W)
    (pc : AtomicWaker.RegisterPc) :
    Moves cell (.register w pc) (access cell spurious (.register w pc)).1
      (access cell spurious (.register w pc)).2 := by
  cases pc with
  | casEmpty =>
    simp only [access, AtomicWaker.register]
    cases hs : cell.state with
    | empty =>
      cases spurious
      · exact .claim rfl (by rw [hs]; decide) fun _ => trivial
      · exact .spin rfl rfl
    | stored => exact .spin rfl rfl
    | waking => exact .spin rfl rfl
  | casStored =>
    simp only [access, AtomicWaker.register]
    by_cases hcas : cell.state = .stored ∧ spurious = false
    · rw [if_pos hcas]
      exact .claim rfl (by rw [hcas.1]; decide) fun _ => trivial
    · rw [if_neg hcas]
      exact .spin rfl rfl
  | write => exact .work rfl rfl
  | store =>
    refine .release rfl fun hw => ⟨by simp, by simp, fun _ => ?_⟩
    rw [show cell.waker = some w from hw]
    exact Option.some_ne_none w

theorem moves_wake (cell : AtomicWaker W) (spurious : Bool) (pc : AtomicWaker.WakePc W) :
    Moves cell (.wake pc) (access cell spurious (.wake pc)).1
      (access cell spurious (.wake pc)).2 := by
  cases pc with
  | cas =>
    simp only [access, AtomicWaker.wake]
    cases hs : cell.state with
    | empty => exact .nothing rfl hs
    | stored =>
      cases spurious
      · exact .claim rfl (by rw [hs]; decide) fun hsome => hsome hs
      · exact .spin rfl rfl
    | waking => exact .spin rfl rfl
  | take => exact .work rfl rfl
  | store w => exact .release rfl fun hw => ⟨by simp, fun _ => hw, by simp⟩

theorem moves_access (cell : AtomicWaker W) (spurious : Bool) (pc : Pc W) :
    Moves cell pc (access cell spurious pc).1 (access cell spurious pc).2 := by
  cases pc with
  | register w pc => exact moves_register cell spurious w pc
  | wake pc => exact moves_wake cell spurious pc

/-! ### The claim -/

/-- At most one call has claimed the cell, and it is claimed exactly if its state says so. -/
inductive Guarded (c : Calls (AtomicWaker W) (Pc W)) : Prop
  | free (hfree : Free c.shared) (hnone : ∀ j q, c.calls j = some q → q.claims = false)
  | held {i : ℕ} {pc : Pc W} (hstate : c.shared.state = .waking) (hi : c.calls i = some pc)
      (hholds : pc.Holds c.shared.waker)
      (hothers : ∀ j q, j ≠ i → c.calls j = some q → q.claims = false)

section Guarded

variable {c : Calls (AtomicWaker W) (Pc W)} {i j : ℕ} {p q : Pc W}

/-- Two calls that have claimed the cell are the same. -/
theorem Guarded.eq (h : Guarded c) (hi : c.calls i = some p) (hp : p.claims = true)
    (hj : c.calls j = some q) (hq : q.claims = true) : i = j := by
  cases h with
  | free hfree hnone =>
    rw [hnone i p hi] at hp
    cases hp
  | @held k pc hstate hk hholds hothers =>
    have hself : ∀ l q, c.calls l = some q → q.claims = true → l = k := by
      intro l q hl hq
      by_contra hne
      rw [hothers l q hne hl] at hq
      cases hq
    rw [hself i p hi hp, hself j q hj hq]

/-- A position that has not claimed the cell makes no difference. -/
theorem Guarded.update (h : Guarded c) {next : Option (Pc W)}
    (hi : ∀ p, c.calls i = some p → p.claims = false)
    (hnext : ∀ q, next = some q → q.claims = false) :
    Guarded ⟨c.shared, Function.update c.calls i next⟩ := by
  cases h with
  | free hfree hnone =>
    refine .free hfree fun j q hj => ?_
    rcases update_eq_some hj with ⟨-, hq⟩ | ⟨-, hq⟩
    · exact hnext q hq
    · exact hnone j q hq
  | @held k pc hstate hk hholds hothers =>
    have hki : k ≠ i := by
      intro heq
      subst heq
      have hclaims := hholds.claims
      rw [hi pc hk] at hclaims
      cases hclaims
    refine .held hstate ((Function.update_of_ne hki ..).trans hk) hholds fun j q hjk hj => ?_
    rcases update_eq_some hj with ⟨-, hq⟩ | ⟨-, hq⟩
    · exact hnext q hq
    · exact hothers j q hjk hq

/-- The call that has claimed the cell is the one of the claim. -/
theorem Guarded.of_claims (h : Guarded c) (hi : c.calls i = some p) (hp : p.claims = true) :
    c.shared.state = .waking ∧ p.Holds c.shared.waker ∧
      ∀ j q, j ≠ i → c.calls j = some q → q.claims = false := by
  have hothers : ∀ j q, j ≠ i → c.calls j = some q → q.claims = false := by
    intro j q hji hj
    by_contra hq
    exact hji (h.eq hj (eq_true_of_ne_false hq) hi hp)
  cases h with
  | free hfree hnone =>
    rw [hnone i p hi] at hp
    cases hp
  | @held k pc hstate hk hholds hothers' =>
    obtain rfl : k = i := by
      by_contra hne
      rw [hothers' i p (Ne.symm hne) hi] at hp
      cases hp
    obtain rfl : pc = p := Option.some.inj (hk.symm.trans hi)
    exact ⟨hstate, hholds, hothers⟩

/-- If the state is not `WAKER_WAKING`, the cell is free. -/
theorem Guarded.of_state_ne (h : Guarded c) (hstate : c.shared.state ≠ .waking) :
    Free c.shared ∧ ∀ j q, c.calls j = some q → q.claims = false := by
  cases h with
  | free hfree hnone => exact ⟨hfree, hnone⟩
  | held hwaking => exact absurd hwaking hstate

/-- Where a call goes after an access. -/
def next : Pc W ⊕ Reply W → Option (Pc W) := Sum.elim some fun _ => none

theorem Guarded.access (h : Guarded c) {cell : AtomicWaker W} {out : Pc W ⊕ Reply W}
    (hi : c.calls i = some p) (hm : Moves c.shared p cell out) :
    Guarded ⟨cell, Function.update c.calls i (next out)⟩ := by
  have hquiet (hp : p.claims = false) : ∀ q, c.calls i = some q → q.claims = false := by
    intro q hq
    rw [← Option.some.inj (hi.symm.trans hq)]
    exact hp
  cases hm with
  | @spin pc' hpc hpc' =>
    apply h.update (hquiet hpc)
    intro q hq
    rw [← Option.some.inj hq]
    exact hpc'
  | nothing hpc hempty =>
    apply h.update (hquiet hpc)
    intro q hq
    cases hq
  | @claim pc' hpc hstate hholds =>
    obtain ⟨hfree, hnone⟩ := h.of_state_ne hstate
    refine .held rfl (Function.update_self ..) (hholds hfree.stored) fun j q hji hj => ?_
    rcases update_eq_some hj with ⟨heq, -⟩ | ⟨-, hq⟩
    · exact absurd heq hji
    · exact hnone j q hq
  | @work pc' o hpc hholds =>
    obtain ⟨hstate, -, hothers⟩ := h.of_claims hi hpc
    refine .held hstate (Function.update_self ..) hholds fun j q hji hj => ?_
    rcases update_eq_some hj with ⟨heq, -⟩ | ⟨-, hq⟩
    · exact absurd heq hji
    · exact hothers j q hji hq
  | release hpc hfree =>
    obtain ⟨-, hholds, hothers⟩ := h.of_claims hi hpc
    refine .free (hfree hholds) fun j q hj => ?_
    rcases update_eq_some hj with ⟨-, hnone⟩ | ⟨hji, hq⟩
    · cases hnone
    · exact hothers j q hji hq

/-- What the threads do keeps the claim. -/
theorem Guarded.act (h : Guarded c) {a : Act (Op W) Bool} {r : Option (Reply W)}
    {c' : Calls (AtomicWaker W) (Pc W)} (ha : (object W).act c a = some (r, c')) : Guarded c' := by
  cases a with
  | call i o =>
    simp only [Object.act] at ha
    split at ha
    · rename_i hidle
      cases ha
      apply h.update
      · intro p hp
        rw [hidle] at hp
        cases hp
      · intro q hq
        rw [← Option.some.inj hq]
        cases o <;> rfl
    · cases ha
  | go i x =>
    simp only [Object.act] at ha
    split at ha
    · cases ha
    · rename_i p hi
      have hguarded := h.access hi (moves_access c.shared x p)
      split at ha
      all_goals
        rename_i cell out hstep
        cases ha
        rw [show WakerCell.access c.shared x p = _ from hstep] at hguarded
        exact hguarded

theorem run_guarded {h : List (Act (Op W) Bool × Option (Reply W))}
    (hr : Run (ofFn (object W).act) (.init .new) h c) : Guarded c := by
  induction hr with
  | nil =>
    refine .free ⟨fun hs => ?_, fun _ => rfl, fun hs => ?_⟩ fun j q hj => ?_
    · cases hs
    · cases hs
    · cases hj
  | snoc _ hs ih => exact ih.act hs

end Guarded

/-! ### Linearizability -/

/-- The operation of a call. -/
def Pc.op : Pc W → Op W
  | .register w _ => .register w
  | .wake _ => .wake

/-- A call takes effect when it accesses the waker in the cell. -/
def Pc.result : Pc W → Option (Reply W)
  | .register _ .store => some .registered
  | .wake (.store w) => some (.taken w)
  | _ => none

/-- Until the access to the waker in the cell an operation has no effect, and afterwards neither. -/
theorem passes_access {cell : AtomicWaker W} (hfree : cell.state = .empty → cell.waker = none)
    (spurious : Bool) (pc : Pc W) :
    Passes slot pc.op cell.waker pc.result (access cell spurious pc).1.waker
      ((access cell spurious pc).2.elim Pc.result some) := by
  cases pc with
  | register w pc =>
    cases pc with
    | casEmpty =>
      simp only [access, AtomicWaker.register]
      cases cell.state with
      | empty => cases spurious <;> exact .skip _ _
      | stored => exact .skip _ _
      | waking => exact .skip _ _
    | casStored =>
      simp only [access, AtomicWaker.register]
      split_ifs
      · exact .skip _ _
      · exact .skip _ _
    | write => exact .effect rfl
    | store => exact .skip _ _
  | wake pc =>
    cases pc with
    | cas =>
      simp only [access, AtomicWaker.wake]
      cases hs : cell.state with
      | empty =>
        -- nothing is taken, since there is nothing
        apply Passes.effect
        show (Reply.taken cell.waker, none) = (Reply.taken none, cell.waker)
        rw [hfree hs]
      | stored => cases spurious <;> exact .skip _ _
      | waking => exact .skip _ _
    | take => exact .effect rfl
    | store w => exact .skip _ _

theorem op_access {cell cell' : AtomicWaker W} {spurious : Bool} {pc pc' : Pc W}
    (hs : access cell spurious pc = (cell', .inl pc')) : pc'.op = pc.op := by
  cases pc with
  | register w pc =>
    simp only [access] at hs
    split at hs
    · cases hs
      rfl
    · cases hs
  | wake pc =>
    simp only [access] at hs
    split at hs
    · cases hs
      rfl
    · cases hs

/-- The points at which the calls take effect. -/
def points (W : Type) : Points (object W) slot Guarded where
  abs := AtomicWaker.waker
  op := Pc.op
  result := Pc.result
  op_start o := by cases o <;> rfl
  result_start o := by cases o <;> rfl
  op_step _ _ _ _ _ hs := op_access hs
  step c i p x hc hi := by
    apply passes_access
    intro hempty
    exact (hc.of_state_ne (by rw [hempty]; decide)).1.empty hempty

/-- **The cell is a place for one waker, for any number of threads.** Callers cannot tell it from
one in which an operation is a single step, and no two calls are ever at the accesses to the
waker. -/
theorem waker_cell_linearizable :
    (object W).Linearizable .new slot none ∧
      ∀ h c, Run (ofFn (object W).act) (.init .new) h c → ∀ i j p q,
        c.calls i = some p → p.claims = true → c.calls j = some q → q.claims = true → i = j := by
  constructor
  · exact (points W).linearizable fun h c hr => run_guarded hr
  · intro h c hr i j p q hi hp hj hq
    exact (run_guarded hr).eq hi hp hj hq

/-! ### Progress -/

/-- The rest of a call that is alone, and whose compare-and-swaps do not fail spuriously. -/
def finish (cell : AtomicWaker W) (p : Pc W) (n : ℕ) : Option (Reply W × AtomicWaker W) :=
  solo access (List.replicate n false) cell p

/-- A call that has claimed the cell returns after at most two accesses. -/
theorem finish_of_claims (cell : AtomicWaker W) {p : Pc W} (hp : p.claims = true) (n : ℕ) :
    (finish cell p (n + 2)).isSome = true := by
  cases p with
  | register w pc => cases pc <;> first | rfl | cases hp
  | wake pc => cases pc <;> first | rfl | cases hp

/-- A call that finds the cell free returns after at most four accesses. -/
theorem finish_of_free {cell : AtomicWaker W} (hfree : cell.state ≠ .waking) (p : Pc W) :
    (finish cell p 4).isSome = true := by
  obtain ⟨state, waker⟩ := cell
  cases state with
  | waking => exact absurd rfl hfree
  | empty =>
    cases p with
    | register w pc => cases pc <;> rfl
    | wake pc => cases pc <;> rfl
  | stored =>
    cases p with
    | register w pc => cases pc <;> rfl
    | wake pc => cases pc <;> rfl

/-- **A call that spins waits for a call that is about to return.** Every call returns after at most
four accesses that it makes alone, unless another call has claimed the cell; and this one returns
after at most two. -/
theorem waker_cell_returns {h : List (Act (Op W) Bool × Option (Reply W))}
    {c : Calls (AtomicWaker W) (Pc W)} (hr : Run (ofFn (object W).act) (.init .new) h c) {i : ℕ}
    {p : Pc W} (hi : c.calls i = some p) :
    (finish c.shared p 4).isSome = true ∨
      ∃ j q, j ≠ i ∧ c.calls j = some q ∧ q.claims = true ∧
        (finish c.shared q 2).isSome = true := by
  cases run_guarded hr with
  | free hfree hnone => exact .inl (finish_of_free hfree.state p)
  | @held j q hstate hj hholds hothers =>
    have hq := hholds.claims
    by_cases hji : j = i
    · subst hji
      obtain rfl : q = p := Option.some.inj (hj.symm.trans hi)
      exact .inl (finish_of_claims c.shared hq 2)
    · exact .inr ⟨j, q, hji, hj, hq, finish_of_claims c.shared hq 0⟩

/-- One thread replaces the waker while another one spins in `wake`. -/
theorem waker_cell_returns_spin :
    ∃ h c, Run (ofFn (object ℕ).act) (.init .new) h c ∧ c.calls 1 = some (.wake .cas) ∧
      ∃ j q, j ≠ 1 ∧ c.calls j = some q ∧ (finish c.shared q 2).isSome = true := by
  obtain ⟨h, c, hr, hcalls, hspin⟩ := exists_run_of_exec (f := (object ℕ).act)
    (s := Calls.init .new)
    [.call 0 (.register 7), .call 1 .wake, .go 0 false, .go 1 false]
    (fun e => e.2.calls 1 = some (.wake .cas) ∧ (finish e.2.shared (.wake .cas) 4).isSome = false)
    (by decide)
  refine ⟨h, c, hr, hcalls, ?_⟩
  rcases waker_cell_returns hr hcalls with hret | ⟨j, q, hj, hq, -, hret⟩
  · rw [hspin] at hret
    cases hret
  · exact ⟨j, q, hj, hq, hret⟩

end MiniAsync.MultiThread.WakerCell
