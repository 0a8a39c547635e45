/-
  Runs that go on for ever.

  What a system does eventually is said of its infinite runs: a sequence of states
  and one of operations, each leading from a state to the next. Every state of such
  a run is reached by a finite one (`Infinite.exists_run`), so that invariants carry
  over; a run does not stay for ever where a measure decreases
  (`exists_not_of_decreasing`) and leaves a set the way its operations do
  (`Infinite.exits`); and a run stays for ever where every state has a next one
  (`exists_infinite`), also after a finite beginning (`Infinite.prepend`).
-/
import MiniAsync.Trace.System
import Mathlib.Order.WellFounded

namespace MiniAsync.Trace

variable {σ ο ρ : Type*} {T : System σ ο ρ} {s₀ : σ} {s : ℕ → σ} {o : ℕ → ο}

/-- The operations `o` lead from `s₀` through the states `s`. -/
structure Infinite (T : System σ ο ρ) (s₀ : σ) (s : ℕ → σ) (o : ℕ → ο) : Prop where
  start : s 0 = s₀
  step : ∀ n, ∃ r, T (s n) (o n) r (s (n + 1))

theorem Infinite.exists_run (hi : Infinite T s₀ s o) (n : ℕ) : ∃ h, Run T s₀ h (s n) := by
  induction n with
  | zero =>
    rw [hi.start]
    exact ⟨[], .nil⟩
  | succ n ih =>
    obtain ⟨h, hr⟩ := ih
    obtain ⟨r, hs⟩ := hi.step n
    exact ⟨_, hr.snoc hs⟩

/-- From the place `n` on the sequence comes to a state with the property `P`. -/
def Eventually (s : ℕ → σ) (P : σ → Prop) (n : ℕ) : Prop := ∃ m, n ≤ m ∧ P (s m)

theorem Eventually.now {P : σ → Prop} {n : ℕ} (h : P (s n)) : Eventually s P n := ⟨n, le_rfl, h⟩

theorem Eventually.of_le {P : σ → Prop} {m n : ℕ} (h : Eventually s P m) (hle : n ≤ m) :
    Eventually s P n := by
  obtain ⟨k, hk, hP⟩ := h
  exact ⟨k, hle.trans hk, hP⟩

theorem Eventually.of_succ {P : σ → Prop} {n : ℕ} (h : Eventually s P (n + 1)) :
    Eventually s P n :=
  h.of_le (Nat.le_succ n)

/-- What is kept by every operation holds from where it holds. -/
theorem Infinite.stays (hi : Infinite T s₀ s o) {P : σ → Prop} {n : ℕ} (hn : P (s n))
    (hstep : ∀ m r, n ≤ m → T (s m) (o m) r (s (m + 1)) → P (s m) → P (s (m + 1))) {m : ℕ}
    (hm : n ≤ m) : P (s m) := by
  induction m, hm using Nat.le_induction with
  | base => exact hn
  | succ m hm ih =>
    obtain ⟨r, hs⟩ := hi.step m
    exact hstep m r hm hs ih

/-- A run that does not stay in `P` for ever, and can leave it only for `R`, comes to `R`. -/
theorem Infinite.exits (hi : Infinite T s₀ s o) {P R : σ → Prop} {n : ℕ} (hn : P (s n))
    (hleft : ∃ m, n ≤ m ∧ ¬ P (s m))
    (hstep : ∀ m r, T (s m) (o m) r (s (m + 1)) → P (s m) → P (s (m + 1)) ∨ R (s (m + 1))) :
    ∃ m, n ≤ m ∧ R (s m) ∧ ∀ k, n ≤ k → k < m → P (s k) := by
  obtain ⟨m, hm, hout⟩ := hleft
  obtain ⟨d, rfl⟩ := Nat.exists_eq_add_of_le hm
  -- On the distance to the place that is outside.
  induction d generalizing n with
  | zero => exact absurd hn hout
  | succ d ih =>
    obtain ⟨r, hs⟩ := hi.step n
    rcases hstep n r hs hn with hin | hR
    · obtain ⟨m, hm', hR, hbefore⟩ := ih hin (Nat.le_add_right _ _) (by
        rwa [Nat.add_right_comm, Nat.add_assoc])
      refine ⟨m, Nat.le_of_succ_le hm', hR, fun k hk hlt => ?_⟩
      rcases Nat.eq_or_lt_of_le hk with rfl | hk
      · exact hn
      · exact hbefore k hk hlt
    · refine ⟨n + 1, Nat.le_succ n, hR, fun k hk hlt => ?_⟩
      exact Nat.le_antisymm hk (Nat.le_of_lt_succ hlt) ▸ hn

/-- A sequence does not stay for ever in a set where a measure decreases. -/
theorem exists_not_of_decreasing {α : Type*} {r : α → α → Prop} (hr : WellFounded r) (μ : σ → α)
    {P : σ → Prop} (n : ℕ)
    (hdec : ∀ m, n ≤ m → P (s m) → P (s (m + 1)) → r (μ (s (m + 1))) (μ (s m))) :
    ∃ m, n ≤ m ∧ ¬ P (s m) := by
  by_contra hstay
  push Not at hstay
  -- The measure of the states from `n` on would descend for ever.
  have hdesc : ∀ m, r (μ (s (n + (m + 1)))) (μ (s (n + m))) := fun m =>
    hdec (n + m) (Nat.le_add_right _ _) (hstay _ (Nat.le_add_right _ _))
      (hstay (n + m + 1) (Nat.le_add_right n (m + 1)))
  exact (wellFounded_iff_isEmpty_descending_chain.mp hr).false ⟨fun m => μ (s (n + m)), hdesc⟩

/-- Where every state of a set has a next one in the set, there is a run that stays in it. -/
theorem exists_infinite {P : σ → Prop} (hnext : ∀ s, P s → ∃ o r s', T s o r s' ∧ P s')
    (hP : P s₀) : ∃ s o, Infinite T s₀ s o ∧ ∀ n, P (s n) := by
  choose o r next hstep hkeep using hnext
  let seq : ℕ → { s // P s } := Nat.rec ⟨s₀, hP⟩ fun _ s => ⟨next s.1 s.2, hkeep s.1 s.2⟩
  exact ⟨fun n => (seq n).1, fun n => o (seq n).1 (seq n).2,
    ⟨rfl, fun n => ⟨r (seq n).1 (seq n).2, hstep _ _⟩⟩, fun n => (seq n).2⟩

/-- A finite run in front of an infinite one. -/
theorem Infinite.prepend {h : List (ο × ρ)} {s₁ : σ} (hr : Run T s₀ h s₁)
    (hi : Infinite T s₁ s o) :
    ∃ s' o', Infinite T s₀ s' o' ∧ (∀ n, s' (h.length + n) = s n) ∧
      ∀ n, o' n ∈ h.map Prod.fst ∨ ∃ m, o' n = o m := by
  induction hr generalizing s o with
  | nil => exact ⟨s, o, hi, fun n => congrArg s (Nat.zero_add n), fun n => Or.inr ⟨n, rfl⟩⟩
  | @snoc h s₂ s₁ op r hr hs ih =>
    have hcons : Infinite T s₂ (fun n => Nat.casesOn n s₂ s) (fun n => Nat.casesOn n op o) := by
      refine ⟨rfl, fun n => ?_⟩
      cases n with
      | zero =>
        refine ⟨r, ?_⟩
        show T s₂ op r (s 0)
        rw [hi.start]
        exact hs
      | succ n => exact hi.step n
    obtain ⟨s', o', hi', hs', ho'⟩ := ih hcons
    refine ⟨s', o', hi', fun n => ?_, fun n => ?_⟩
    · have hn := hs' (n + 1)
      rw [List.length_append, List.length_singleton, Nat.add_assoc, Nat.add_comm 1 n]
      exact hn
    · rw [List.map_append, List.mem_append]
      rcases ho' n with hmem | ⟨m, hm⟩
      · exact Or.inl (Or.inl hmem)
      · cases m with
        | zero => exact Or.inl (Or.inr (List.mem_singleton.mpr hm))
        | succ m => exact Or.inr ⟨m, hm⟩

end MiniAsync.Trace
