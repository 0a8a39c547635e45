/-
  Linearizability.

  An `Object` has operations that are carried out in several atomic steps. Any number of threads
  call them, and the steps of the calls interleave. What the callers see of a run is the order in
  which calls begin and return (`events`).

  The `atomic` object has the same callers, but a call takes effect in one step, somewhere between
  its beginning and its return. An object is `Linearizable` if its callers cannot tell it from the
  atomic one: whatever they see of it they could have seen of the atomic object.

  `Points` is the way to show this. It names the step at which a call takes effect, by telling for
  each position in the code whether the call has taken effect, and with which result.
-/
import Mathlib.Logic.Function.Basic
import MiniAsync.Trace.System

namespace MiniAsync.Interleave

open Trace

variable {σ τ ο π ρ χ : Type*}

/-- Operations `ο` that are carried out in atomic steps on a shared state `σ`. A call is at a
position `π`; a step takes it to the next one or returns a result `ρ`. The freedom that a step has
is resolved by `χ`. -/
structure Object (σ ο π ρ χ : Type*) where
  start : ο → π
  step : σ → π → χ → σ × (π ⊕ ρ)

/-- The shared state, and the calls that are under way. -/
structure Calls (σ π : Type*) where
  shared : σ
  calls : ℕ → Option π

def Calls.init (s : σ) : Calls σ π := ⟨s, fun _ => none⟩

/-- What can happen next: the thread `i` calls an operation, or its call takes a step. -/
inductive Act (ο χ : Type*) where
  | call (i : ℕ) (o : ο)
  | go (i : ℕ) (x : χ)
deriving DecidableEq

/-- The calls of all threads interleave. A step that returns has the result as its outcome. -/
def Object.act (O : Object σ ο π ρ χ) (c : Calls σ π) : Act ο χ → Option (Option ρ × Calls σ π)
  | .call i o =>
    match c.calls i with
    | none => some (none, { c with calls := Function.update c.calls i (some (O.start o)) })
    | some _ => none
  | .go i x =>
    match c.calls i with
    | none => none
    | some p =>
      match O.step c.shared p x with
      | (s, .inl p') => some (none, ⟨s, Function.update c.calls i (some p')⟩)
      | (s, .inr r) => some (some r, ⟨s, Function.update c.calls i none⟩)

/-- What callers see. -/
inductive Event (ο ρ : Type*) where
  | inv (i : ℕ) (o : ο)
  | ret (i : ℕ) (r : ρ)
deriving DecidableEq

def eventOf : Act ο χ × Option ρ → Option (Event ο ρ)
  | (.call i o, _) => some (.inv i o)
  | (.go i _, some r) => some (.ret i r)
  | (.go _ _, none) => none

/-- The beginnings and the returns of the calls of a history. -/
def events (h : List (Act ο χ × Option ρ)) : List (Event ο ρ) := h.filterMap eventOf

/-! ### The atomic object -/

/-- A call of the atomic object: it has begun, or it has taken effect. -/
inductive Status (ο ρ : Type*) where
  | idle
  | called (o : ο)
  | done (r : ρ)

/-- The value of the atomic object, and the calls that are under way. -/
structure Atomic (τ ο ρ : Type*) where
  val : τ
  status : ℕ → Status ο ρ

def Atomic.init (t : τ) : Atomic τ ο ρ := ⟨t, fun _ => .idle⟩

/-- What happens to the atomic object. Only the callers' part of it is an event. -/
inductive Mark (ο ρ : Type*) where
  | event (e : Event ο ρ)
  | effect (i : ℕ) (o : ο) (r : ρ)

def Mark.event? : Mark ο ρ → Option (Event ο ρ)
  | .event e => some e
  | .effect _ _ _ => none

/-- The atomic object whose operations do what `spec` says. -/
inductive Atomic.Step (spec : τ → ο → ρ × τ) : System (Atomic τ ο ρ) (Mark ο ρ) Unit
  | inv {a : Atomic τ ο ρ} {i : ℕ} (o : ο) (hi : a.status i = .idle) :
      Step spec a (.event (.inv i o)) ()
        { a with status := Function.update a.status i (.called o) }
  | effect {a : Atomic τ ο ρ} {i : ℕ} {o : ο} {r : ρ} {t : τ} (hi : a.status i = .called o)
      (hspec : spec a.val o = (r, t)) :
      Step spec a (.effect i o r) () ⟨t, Function.update a.status i (.done r)⟩
  | ret {a : Atomic τ ο ρ} {i : ℕ} {r : ρ} (hi : a.status i = .done r) :
      Step spec a (.event (.ret i r)) ()
        { a with status := Function.update a.status i .idle }

/-- The events that callers of the atomic object see. -/
def seen (g : List (Mark ο ρ × Unit)) : List (Event ο ρ) := g.filterMap fun m => m.1.event?

/-- Every history of the object is one of the atomic object, as far as callers can see. -/
def Object.Linearizable (O : Object σ ο π ρ χ) (s₀ : σ) (spec : τ → ο → ρ × τ) (t₀ : τ) : Prop :=
  ∀ h c, Run (ofFn O.act) (.init s₀) h c →
    ∃ g a, Run (Atomic.Step spec) (.init t₀) g a ∧ seen g = events h

/-! ### Points of effect -/

/-- What one step does to the value `t` and to the result of the call of `o`, if it has one:
nothing, or the call takes effect. -/
inductive Passes (spec : τ → ο → ρ × τ) (o : ο) : τ → Option ρ → τ → Option ρ → Prop
  | skip (t : τ) (r : Option ρ) : Passes spec o t r t r
  | effect {t t' : τ} {r : ρ} (hspec : spec t o = (r, t')) : Passes spec o t none t' (some r)

/-- The points at which the calls of an object take effect, in the states that satisfy `I`. -/
structure Points (O : Object σ ο π ρ χ) (spec : τ → ο → ρ × τ) (I : Calls σ π → Prop) where
  /-- The value of the atomic object. -/
  abs : σ → τ
  /-- The operation of a call. -/
  op : π → ο
  /-- The result of a call that has taken effect. -/
  result : π → Option ρ
  op_start : ∀ o, op (O.start o) = o
  result_start : ∀ o, result (O.start o) = none
  op_step : ∀ s p x s' p', O.step s p x = (s', .inl p') → op p' = op p
  step : ∀ c i p x, I c → c.calls i = some p →
    Passes spec (op p) (abs c.shared) (result p) (abs (O.step c.shared p x).1)
      ((O.step c.shared p x).2.elim result some)

/-- The status of a call of `o` with the result `r`, if it has taken effect. -/
def Status.ofResult (o : ο) : Option ρ → Status ο ρ
  | none => .called o
  | some r => .done r

namespace Points

variable {O : Object σ ο π ρ χ} {spec : τ → ο → ρ × τ} {I : Calls σ π → Prop}

/-- The call of the atomic object for a call at the position `p`. -/
def status (P : Points O spec I) : Option π → Status ο ρ
  | none => .idle
  | some p => .ofResult (P.op p) (P.result p)

/-- The state of the atomic object. -/
def atomic (P : Points O spec I) (c : Calls σ π) : Atomic τ ο ρ :=
  ⟨P.abs c.shared, fun i => P.status (c.calls i)⟩

variable (P : Points O spec I)

theorem atomic_update (s : σ) (calls : ℕ → Option π) (i : ℕ) (p : Option π) :
    P.atomic ⟨s, Function.update calls i p⟩ =
      ⟨P.abs s, Function.update (fun j => P.status (calls j)) i (P.status p)⟩ := by
  unfold atomic
  congr 1
  ext j
  show P.status (Function.update calls i p j) = _
  by_cases hj : j = i
  · subst hj
    rw [Function.update_self, Function.update_self]
  · rw [Function.update_of_ne hj, Function.update_of_ne hj]

/-- The part of a step that callers do not see. -/
theorem exists_effect {c : Calls σ π} {i : ℕ} {p : π} {t' : τ} {r' : Option ρ}
    (hi : c.calls i = some p)
    (hpass : Passes spec (P.op p) (P.abs c.shared) (P.result p) t' r') :
    ∃ g, Run (Atomic.Step spec) (P.atomic c) g
        ⟨t', Function.update (fun j => P.status (c.calls j)) i (.ofResult (P.op p) r')⟩ ∧
      seen g = [] := by
  have hstatus : P.status (c.calls i) = .ofResult (P.op p) (P.result p) := by
    rw [hi, status]
  generalize ht : P.abs c.shared = t at hpass
  generalize hr : P.result p = r at hpass
  cases hpass with
  | skip =>
    refine ⟨[], ?_, rfl⟩
    rw [← hr, ← hstatus, Function.update_eq_self, ← ht]
    exact .nil
  | @effect _ r hspec =>
    refine ⟨[(.effect i (P.op p) r, ())], ?_, rfl⟩
    apply Run.snoc (h := []) Run.nil
    apply Atomic.Step.effect
    · show P.status (c.calls i) = .called (P.op p)
      rw [hstatus, hr, Status.ofResult]
    · show spec (P.abs c.shared) (P.op p) = (r, t')
      rw [ht, hspec]

/-- One thing that happens to the object is at most two that happen to the atomic object. -/
theorem exists_act {c c' : Calls σ π} {a : Act ο χ} {out : Option ρ} (hI : I c)
    (hact : O.act c a = some (out, c')) :
    ∃ g, Run (Atomic.Step spec) (P.atomic c) g (P.atomic c') ∧
      seen g = (eventOf (a, out)).toList := by
  cases a with
  | call i o =>
    simp only [Object.act] at hact
    split at hact
    · rename_i hidle
      obtain ⟨rfl, rfl⟩ : none = out ∧ _ = c' := by
        simpa only [Option.some.injEq, Prod.mk.injEq] using hact
      refine ⟨[(.event (.inv i o), ())], Run.snoc (h := []) .nil ?_, rfl⟩
      rw [atomic_update]
      have hstart : P.status (some (O.start o)) = .called o := by
        rw [status, P.result_start, P.op_start, Status.ofResult]
      rw [hstart]
      apply Atomic.Step.inv
      show P.status (c.calls i) = .idle
      rw [hidle, status]
    · cases hact
  | go i x =>
    simp only [Object.act] at hact
    split at hact
    · cases hact
    · rename_i p hi
      have hpass := P.step c i p x hI hi
      split at hact
      · rename_i s' p' hstep
        obtain ⟨rfl, rfl⟩ : none = out ∧ _ = c' := by
          simpa only [Option.some.injEq, Prod.mk.injEq] using hact
        rw [hstep] at hpass
        obtain ⟨g, hg, hseen⟩ := P.exists_effect hi hpass
        refine ⟨g, ?_, hseen⟩
        rw [atomic_update, status, P.op_step _ _ _ _ _ hstep]
        exact hg
      · rename_i s' r hstep
        obtain ⟨rfl, rfl⟩ : some r = out ∧ _ = c' := by
          simpa only [Option.some.injEq, Prod.mk.injEq] using hact
        rw [hstep] at hpass
        obtain ⟨g, hg, hseen⟩ := P.exists_effect hi hpass
        refine ⟨g ++ [(.event (.ret i r), ())], ?_, ?_⟩
        · have hdone : Function.update (fun j => P.status (c.calls j)) i (.done r) i = .done r :=
            Function.update_self ..
          have hret := hg.snoc (Atomic.Step.ret hdone)
          rw [Function.update_idem] at hret
          rw [atomic_update, status]
          exact hret
        · unfold seen at hseen ⊢
          rw [List.filterMap_append, hseen]
          rfl

/-- **Points of effect make an object linearizable.** -/
theorem linearizable {s₀ : σ} (hI : ∀ h c, Run (ofFn O.act) (.init s₀) h c → I c) :
    O.Linearizable s₀ spec (P.abs s₀) := by
  intro h c hr
  suffices hsim : ∃ g, Run (Atomic.Step spec) (.init (P.abs s₀)) g (P.atomic c) ∧
      seen g = events h by
    obtain ⟨g, hg, hseen⟩ := hsim
    exact ⟨g, _, hg, hseen⟩
  induction hr with
  | nil => exact ⟨[], .nil, rfl⟩
  | @snoc h c _ a out hr hact ih =>
    obtain ⟨g, hg, hseen⟩ := ih
    obtain ⟨g', hg', hseen'⟩ := P.exists_act (hI _ _ hr) hact
    refine ⟨g ++ g', hg.append hg', ?_⟩
    unfold seen events at *
    rw [List.filterMap_append, hseen, hseen', filterMap_snoc]

end Points

end MiniAsync.Interleave
