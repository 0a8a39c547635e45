/-
  Resources that have one holder each.

  A table `holders` says who is there, and `res` which resource a holder has. What is known of a
  resource is its view. `Held` says that no two holders have the same resource, that how far a
  holder is fits what is known of its resource, and that nothing is known of a resource without a
  holder but what `idle` says.

  A step of a program is usually about one resource. There are three kinds: the holder goes on with
  it (`update`), gives it up (`remove`), or is new (`adopt`).
-/
import Mathlib.Logic.Function.Basic
import Mathlib.Tactic.Common

namespace MiniAsync.Resource

variable {ι α ρ ν : Type*} [DecidableEq ι]

/-- An entry of a table after one entry has been changed. -/
theorem update_eq_some {holders : ι → Option α} {k j : ι} {next : Option α} {b : α}
    (h : Function.update holders k next j = some b) :
    j = k ∧ next = some b ∨ j ≠ k ∧ holders j = some b := by
  by_cases hjk : j = k
  · subst hjk
    rw [Function.update_self] at h
    exact .inl ⟨rfl, h⟩
  · rw [Function.update_of_ne hjk] at h
    exact .inr ⟨hjk, h⟩

/-- Every resource has at most one holder, and its view fits the holder. -/
structure Held (res : α → ρ) (fits : α → ν → Prop) (idle : ρ → ν) (views : ρ → ν)
    (holders : ι → Option α) : Prop where
  fits : ∀ k a, holders k = some a → fits a (views (res a))
  inj : ∀ k k' a a', holders k = some a → holders k' = some a' → res a = res a' → k = k'
  idle : ∀ r, (∀ k a, holders k = some a → res a ≠ r) → views r = idle r

namespace Held

variable {res : α → ρ} {fits : α → ν → Prop} {idle : ρ → ν} {views views' : ρ → ν}
  {holders : ι → Option α} {k : ι} {a b : α}

omit [DecidableEq ι] in
theorem ne_of_ne (h : Held res fits idle views holders) (ha : holders k = some a) {j : ι} {c : α}
    (hjk : j ≠ k) (hj : holders j = some c) : res c ≠ res a :=
  fun heq => hjk (h.inj j k c a hj ha heq)

/-- A step about the resource of one holder. -/
theorem update (h : Held res fits idle views holders) (ha : holders k = some a)
    (hres : res b = res a) (hother : ∀ r, r ≠ res a → views' r = views r)
    (hfits : fits b (views' (res a))) :
    Held res fits idle views' (Function.update holders k (some b)) := by
  constructor
  · intro j c hj
    rcases update_eq_some hj with ⟨-, hc⟩ | ⟨hjk, hc⟩
    · rw [← Option.some.inj hc, hres]
      exact hfits
    · rw [hother _ (h.ne_of_ne ha hjk hc)]
      exact h.fits j c hc
  · intro j j' c c' hj hj' heq
    rcases update_eq_some hj with ⟨hjk, hc⟩ | ⟨hjk, hc⟩
    · rcases update_eq_some hj' with ⟨hjk', hc'⟩ | ⟨hjk', hc'⟩
      · rw [hjk, hjk']
      · rw [← Option.some.inj hc, hres] at heq
        exact absurd heq.symm (h.ne_of_ne ha hjk' hc')
    · rcases update_eq_some hj' with ⟨hjk', hc'⟩ | ⟨hjk', hc'⟩
      · rw [← Option.some.inj hc', hres] at heq
        exact absurd heq (h.ne_of_ne ha hjk hc)
      · exact h.inj j j' c c' hc hc' heq
  · intro r hfree
    have hr : r ≠ res a := by
      intro heq
      exact hfree k b (Function.update_self ..) (hres.trans heq.symm)
    rw [hother r hr]
    apply h.idle
    intro j c hj
    by_cases hjk : j = k
    · subst hjk
      rw [Option.some.inj (hj.symm.trans ha)]
      exact Ne.symm hr
    · exact hfree j c ((Function.update_of_ne hjk ..).trans hj)

/-- A holder gives up its resource. -/
theorem remove (h : Held res fits idle views holders) (ha : holders k = some a)
    (hother : ∀ r, r ≠ res a → views' r = views r) (hidle : views' (res a) = idle (res a)) :
    Held res fits idle views' (Function.update holders k none) := by
  have hcases : ∀ j c, Function.update holders k none j = some c → j ≠ k ∧ holders j = some c := by
    intro j c hj
    rcases update_eq_some hj with ⟨-, hc⟩ | hc
    · cases hc
    · exact hc
  constructor
  · intro j c hj
    obtain ⟨hjk, hc⟩ := hcases j c hj
    rw [hother _ (h.ne_of_ne ha hjk hc)]
    exact h.fits j c hc
  · intro j j' c c' hj hj' heq
    exact h.inj j j' c c' (hcases j c hj).2 (hcases j' c' hj').2 heq
  · intro r hfree
    by_cases hr : r = res a
    · rw [hr]
      exact hidle
    · rw [hother r hr]
      apply h.idle
      intro j c hj
      by_cases hjk : j = k
      · subst hjk
        rw [Option.some.inj (hj.symm.trans ha)]
        exact Ne.symm hr
      · exact hfree j c ((Function.update_of_ne hjk ..).trans hj)

/-- A new holder of a resource that nobody has. -/
theorem adopt (h : Held res fits idle views holders) (hk : holders k = none)
    (hnew : ∀ j c, holders j = some c → res c ≠ res b)
    (hother : ∀ r, r ≠ res b → views' r = views r) (hfits : fits b (views' (res b))) :
    Held res fits idle views' (Function.update holders k (some b)) := by
  constructor
  · intro j c hj
    rcases update_eq_some hj with ⟨-, hc⟩ | ⟨-, hc⟩
    · rw [← Option.some.inj hc]
      exact hfits
    · rw [hother _ (hnew j c hc)]
      exact h.fits j c hc
  · intro j j' c c' hj hj' heq
    rcases update_eq_some hj with ⟨hjk, hc⟩ | ⟨-, hc⟩
    · rcases update_eq_some hj' with ⟨hjk', hc'⟩ | ⟨-, hc'⟩
      · rw [hjk, hjk']
      · rw [← Option.some.inj hc] at heq
        exact absurd heq.symm (hnew j' c' hc')
    · rcases update_eq_some hj' with ⟨-, hc'⟩ | ⟨-, hc'⟩
      · rw [← Option.some.inj hc'] at heq
        exact absurd heq (hnew j c hc)
      · exact h.inj j j' c c' hc hc' heq
  · intro r hfree
    have hr : r ≠ res b := fun heq => hfree k b (Function.update_self ..) heq.symm
    rw [hother r hr]
    apply h.idle
    intro j c hj
    have hjk : j ≠ k := by
      intro heq
      subst heq
      rw [hk] at hj
      cases hj
    exact hfree j c ((Function.update_of_ne hjk ..).trans hj)

end Held

end MiniAsync.Resource
