/-
  Systems that are driven by operations, and their histories.

  A `System` says what an operation may do to a state and what it returns. A
  `Run` is a sequence of operations with their results; the list of these pairs
  is its history, so that a statement about a whole run can speak of everything
  that was called and returned without any bookkeeping in the state.

  Nothing is said about a program here: the notion of a run, its induction rule,
  how a run is cut, simulated and compared with another, and runs that are
  computed.
-/
import Mathlib.Data.List.Forall2
import Mathlib.Tactic.Common

namespace MiniAsync.Trace

variable {σ ο ρ : Type*}

/-- A system: `T s o r s'` says that the operation `o` may take the state `s` to `s'` and
return `r`. -/
abbrev System (σ ο ρ : Type*) := σ → ο → ρ → σ → Prop

/-- The system of a function; `none` means that the operation cannot be called in the state. -/
def ofFn (f : σ → ο → Option (ρ × σ)) : System σ ο ρ := fun s o r s' => f s o = some (r, s')

/-- The system of a function whose operations return nothing. -/
def ofStep (f : σ → ο → Option σ) : System σ ο Unit := fun s o _ s' => f s o = some s'

/-- The function `f` without the operations that do not meet the condition `ok`. -/
def guarded (ok : σ → ο → Prop) [∀ s o, Decidable (ok s o)] (f : σ → ο → Option (ρ × σ)) :
    σ → ο → Option (ρ × σ) :=
  fun s o => if ok s o then f s o else none

/-- The system `T` without the operations that do not meet the condition `ok`. -/
def restrict (ok : σ → ο → Prop) (T : System σ ο ρ) : System σ ο ρ :=
  fun s o r s' => ok s o ∧ T s o r s'

/-- `Run T s₀ h s`: the operations of the history `h`, in this order and with these results, take
`s₀` to `s`. -/
inductive Run (T : System σ ο ρ) (s₀ : σ) : List (ο × ρ) → σ → Prop
  | nil : Run T s₀ [] s₀
  | snoc {h : List (ο × ρ)} {s s' : σ} {o : ο} {r : ρ} (hr : Run T s₀ h s) (hs : T s o r s') :
      Run T s₀ (h ++ [(o, r)]) s'

section Run

variable {T : System σ ο ρ} {s₀ s s' : σ} {h h' : List (ο × ρ)} {o : ο} {r : ρ}

/-- **Invariant rule.** What holds at the start and is kept by every operation holds after every
run. -/
theorem Run.invariant {I : List (ο × ρ) → σ → Prop} (hr : Run T s₀ h s) (h₀ : I [] s₀)
    (hstep : ∀ h s o r s', Run T s₀ h s → I h s → T s o r s' → I (h ++ [(o, r)]) s') : I h s := by
  induction hr with
  | nil => exact h₀
  | snoc hr hs ih => exact hstep _ _ _ _ _ hr ih hs

theorem Run.append (hr : Run T s₀ h s) (hr' : Run T s h' s') : Run T s₀ (h ++ h') s' := by
  induction hr' with
  | nil =>
    rw [List.append_nil]
    exact hr
  | snoc _ hs ih =>
    rw [← List.append_assoc]
    exact ih.snoc hs

theorem Run.cons (hs : T s₀ o r s) (hr : Run T s h s') : Run T s₀ ((o, r) :: h) s' :=
  (Run.nil.snoc hs).append hr

theorem Run.eq_of_nil (hr : Run T s₀ [] s) : s = s₀ := by
  generalize heq : ([] : List (ο × ρ)) = g at hr
  cases hr with
  | nil => rfl
  | snoc _ _ => simp at heq

theorem Run.of_singleton (hr : Run T s₀ [(o, r)] s) : T s₀ o r s := by
  generalize heq : [(o, r)] = g at hr
  cases hr with
  | nil => cases heq
  | @snoc g s₁ _ _ _ hr hs =>
    rw [← List.nil_append [(o, r)]] at heq
    obtain ⟨hnil, he⟩ := List.append_inj' heq rfl
    cases he
    rw [← hnil] at hr
    rw [← hr.eq_of_nil]
    exact hs

/-- A run can be cut anywhere in its history. -/
theorem Run.exists_of_append (hr : Run T s₀ (h ++ h') s') :
    ∃ s, Run T s₀ h s ∧ Run T s h' s' := by
  generalize heq : h ++ h' = g at hr
  induction hr generalizing h' with
  | nil =>
    obtain ⟨rfl, rfl⟩ := List.append_eq_nil_iff.mp heq
    exact ⟨s₀, .nil, .nil⟩
  | @snoc g _ s' _ _ hr hs ih =>
    rcases List.eq_nil_or_concat h' with rfl | ⟨h'', e, rfl⟩
    · rw [List.append_nil] at heq
      rw [heq]
      exact ⟨s', hr.snoc hs, .nil⟩
    · rw [List.concat_eq_append, ← List.append_assoc] at heq
      obtain ⟨hh, he⟩ := List.append_inj' heq rfl
      obtain ⟨s, hr₁, hr₂⟩ := ih hh
      rw [List.concat_eq_append, (List.cons.inj he).1]
      exact ⟨s, hr₁, hr₂.snoc hs⟩

/-- The states around an event of a history. -/
theorem Run.exists_of_append_cons (hr : Run T s₀ (h ++ (o, r) :: h') s') :
    ∃ s₁ s₂, Run T s₀ h s₁ ∧ T s₁ o r s₂ ∧ Run T s₂ h' s' := by
  obtain ⟨s₁, hr₁, hr'⟩ := hr.exists_of_append
  obtain ⟨s₂, hone, hr₂⟩ := Run.exists_of_append (h := [(o, r)]) hr'
  exact ⟨s₁, s₂, hr₁, hone.of_singleton, hr₂⟩

/-- A run of a restricted system is a run of the system. -/
theorem Run.mono {T' : System σ ο ρ} (hr : Run T s₀ h s)
    (hT : ∀ s o r s', T s o r s' → T' s o r s') : Run T' s₀ h s := by
  induction hr with
  | nil => exact .nil
  | snoc _ hs ih => exact ih.snoc (hT _ _ _ _ hs)

/-- **Simulation.** If every operation of `T` is one of `T'` on related states, with the same
result, then every run of `T` is one of `T'` with the same history. -/
theorem Run.simulate {τ : Type*} {T' : System τ ο ρ} {R : σ → τ → Prop} {t₀ : τ}
    (hr : Run T s₀ h s) (h₀ : R s₀ t₀)
    (hstep : ∀ s t o r s', R s t → T s o r s' → ∃ t', T' t o r t' ∧ R s' t') :
    ∃ t, Run T' t₀ h t ∧ R s t := by
  induction hr with
  | nil => exact ⟨t₀, .nil, h₀⟩
  | snoc _ hs ih =>
    obtain ⟨t, hrt, hR⟩ := ih
    obtain ⟨t', hs', hR'⟩ := hstep _ t _ _ _ hR hs
    exact ⟨t', hrt.snoc hs', hR'⟩

/-- If an operation determines the next state, and its result up to `A`, then two runs with the same
operations agree at every step. -/
theorem Run.agree {A : ρ → ρ → Prop} {s₁ s₂ : σ} {h₁ h₂ : List (ο × ρ)} (hr₁ : Run T s₀ h₁ s₁)
    (hr₂ : Run T s₀ h₂ s₂) (hops : h₁.map Prod.fst = h₂.map Prod.fst)
    (hdet : ∀ s o r s' r' s'', T s o r s' → T s o r' s'' → A r r' ∧ s' = s'') :
    List.Forall₂ (fun e e' => e.1 = e'.1 ∧ A e.2 e'.2) h₁ h₂ ∧ s₁ = s₂ := by
  induction hr₁ generalizing h₂ s₂ with
  | nil =>
    cases hr₂ with
    | nil => exact ⟨.nil, rfl⟩
    | snoc _ _ => simp at hops
  | snoc _ hs₁ ih =>
    cases hr₂ with
    | nil => simp at hops
    | snoc hr₂ hs₂ =>
      rw [List.map_append, List.map_append] at hops
      obtain ⟨hops, hop⟩ := List.append_inj' hops rfl
      obtain ⟨hall, rfl⟩ := ih hr₂ hops
      cases hop
      obtain ⟨hA, hs⟩ := hdet _ _ _ _ _ _ hs₁ hs₂
      exact ⟨List.rel_append hall (.cons ⟨rfl, hA⟩ .nil), hs⟩

end Run

/-! ### Computed runs -/

/-- The operations `ops` one after the other, with the history they make. -/
def exec (f : σ → ο → Option (ρ × σ)) (s : σ) : List ο → Option (List (ο × ρ) × σ)
  | [] => some ([], s)
  | o :: ops =>
    match f s o with
    | none => none
    | some (r, s') =>
      match exec f s' ops with
      | none => none
      | some (h, s'') => some ((o, r) :: h, s'')

section Exec

variable {f : σ → ο → Option (ρ × σ)} {s s' : σ} {h : List (ο × ρ)}

theorem run_of_exec {ops : List ο} (he : exec f s ops = some (h, s')) : Run (ofFn f) s h s' := by
  induction ops generalizing s h with
  | nil =>
    cases he
    exact .nil
  | cons o ops ih =>
    rw [exec] at he
    split at he
    · cases he
    · rename_i r s₁ hs
      split at he
      · cases he
      · rename_i h₁ s₂ hrest
        cases he
        exact Run.cons hs (ih hrest)

/-- A computed run whose history and last state pass the test `p` witnesses that there is such a
run. -/
theorem exists_run_of_exec (ops : List ο) (p : List (ο × ρ) × σ → Prop) [DecidablePred p]
    (he : (exec f s ops).any (p ·) = true) : ∃ h s', Run (ofFn f) s h s' ∧ p (h, s') := by
  obtain ⟨⟨h, s'⟩, hrun, hp⟩ := (Option.any_eq_true _ _).mp he
  exact ⟨h, s', run_of_exec hrun, of_decide_eq_true hp⟩

theorem guarded_eq_some {ok : σ → ο → Prop} [∀ s o, Decidable (ok s o)] {o : ο} {r : ρ}
    (hs : guarded ok f s o = some (r, s')) : ok s o ∧ f s o = some (r, s') := by
  unfold guarded at hs
  split_ifs at hs with hok
  exact ⟨hok, hs⟩

end Exec

section FoldlM

variable {f : σ → ο → Option σ} {s s' : σ}

theorem run_of_foldlM {ops : List ο} (he : ops.foldlM f s = some s') :
    Run (ofStep f) s (ops.map (·, ())) s' := by
  induction ops generalizing s with
  | nil =>
    cases he
    exact .nil
  | cons o ops ih =>
    rw [List.foldlM_cons] at he
    obtain ⟨s₁, hs, hrest⟩ := Option.bind_eq_some_iff.mp he
    exact Run.cons hs (ih hrest)

/-- Operations that can be made and lead to a state that passes the test `p` make a run to such a
state. -/
theorem exists_state_of_foldlM (ops : List ο) (p : σ → Prop) [DecidablePred p]
    (he : (ops.foldlM f s).any (p ·) = true) :
    ∃ s', Run (ofStep f) s (ops.map (·, ())) s' ∧ p s' := by
  obtain ⟨s', hrun, hp⟩ := (Option.any_eq_true _ _).mp he
  exact ⟨s', run_of_foldlM hrun, of_decide_eq_true hp⟩

theorem exists_run_of_foldlM (ops : List ο) (p : σ → Prop) [DecidablePred p]
    (he : (ops.foldlM f s).any (p ·) = true) : ∃ h s', Run (ofStep f) s h s' ∧ p s' :=
  ⟨_, exists_state_of_foldlM ops p he⟩

/-- The same with operations that meet the condition `ok`. -/
theorem exists_run_restrict_of_foldlM (ok : σ → ο → Prop) [∀ s o, Decidable (ok s o)]
    (ops : List ο) (p : σ → Prop) [DecidablePred p]
    (he : (ops.foldlM (fun s o => if ok s o then f s o else none) s).any (p ·) = true) :
    ∃ h s', Run (restrict ok (ofStep f)) s h s' ∧ p s' := by
  obtain ⟨h, s', hr, hp⟩ := exists_run_of_foldlM ops p he
  refine ⟨h, s', hr.mono fun s o _ s' hs => ?_, hp⟩
  have hs : (if ok s o then f s o else none) = some s' := hs
  split_ifs at hs with hok
  exact ⟨hok, hs⟩

end FoldlM

/-! ### What a history says -/

/-- What is read off a history that has grown by one event. -/
theorem filterMap_snoc {ε α : Type*} (f : ε → Option α) (h : List ε) (e : ε) :
    (h ++ [e]).filterMap f = h.filterMap f ++ (f e).toList := by
  rw [List.filterMap_append, List.filterMap_cons]
  cases f e <;> rfl

end MiniAsync.Trace
