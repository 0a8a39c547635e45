/-
  Calls made of single accesses, run with nothing in between.

  A call is given by its accesses: what one access at a position does to the state,
  and where it goes from there or what it returns. The flag of an access is a free
  choice that it is given from outside. `solo` makes one access after the other, a
  flag for each, until the call returns.
-/
import Mathlib.Tactic.Common

namespace MiniAsync.Trace

variable {σ π ρ : Type*} {access : σ → Bool → π → σ × (π ⊕ ρ)}

/-- The result of the call and the state it leaves; `none` if it has not returned when the flags are
used up. -/
def solo (access : σ → Bool → π → σ × (π ⊕ ρ)) : List Bool → σ → π → Option (ρ × σ)
  | [], _, _ => none
  | flag :: flags, s, p =>
    match access s flag p with
    | (s', .inr r) => some (r, s')
    | (s', .inl p') => solo access flags s' p'

/-- **Rule for calls.** If an access keeps `I`, or returns with `P`, then the call returns
with `P`. -/
theorem solo_rule {I : σ → π → Prop} {P : ρ → σ → Prop}
    (hnext : ∀ s flag p s' p', I s p → access s flag p = (s', .inl p') → I s' p')
    (hret : ∀ s flag p s' r, I s p → access s flag p = (s', .inr r) → P r s')
    {flags : List Bool} {s s' : σ} {p : π} {r : ρ} (hI : I s p)
    (hs : solo access flags s p = some (r, s')) : P r s' := by
  induction flags generalizing s p with
  | nil => cases hs
  | cons flag flags ih =>
    rw [solo] at hs
    split at hs
    · rename_i hacc
      cases hs
      exact hret _ _ _ _ _ hI hacc
    · rename_i hacc
      exact ih (hnext _ _ _ _ _ hI hacc) hs

end MiniAsync.Trace
