/-
  Roles of call frames. A program with many instances of one protocol (one for
  each task, say, or for each timer) is looked at one instance at a time: a frame
  may give its thread a role in one of the instances, and the roles for the
  instance `x` that the frames of all threads give are what the protocol sees.
-/
import Mathlib.Data.Multiset.Filter
import MiniAsync.Interleave.Machine

namespace MiniAsync.Interleave

variable {φ ι ρ : Type*} [DecidableEq ι]

/-- The role that the frame `f` gives in the instance `x`. -/
def roleOf (role : φ → Option (ι × ρ)) (x : ι) (f : φ) : Option ρ :=
  (role f).bind fun p => if p.1 = x then some p.2 else none

/-- The roles that the frames `fs` give in the instance `x`. -/
def rolesOf (role : φ → Option (ι × ρ)) (x : ι) (fs : List φ) : List ρ :=
  fs.filterMap (roleOf role x)

/-- The roles that a collection of frames gives in the instance `x`. -/
def allRoles (role : φ → Option (ι × ρ)) (x : ι) (F : Multiset φ) : Multiset ρ :=
  F.filterMap (roleOf role x)

variable {role : φ → Option (ι × ρ)} {x y : ι} {f : φ} {r : ρ}

theorem roleOf_eq_some_iff : roleOf role x f = some r ↔ role f = some (x, r) := by
  unfold roleOf
  constructor
  · intro h
    obtain ⟨⟨y, r'⟩, hrole, hif⟩ := Option.bind_eq_some_iff.mp h
    split_ifs at hif with hy
    obtain rfl : y = x := hy
    rw [hrole, ← Option.some.inj hif]
  · intro h
    simp [h]

theorem roleOf_of_ne (h : role f = some (y, r)) (hne : x ≠ y) : roleOf role x f = none := by
  simp [roleOf, h, hne.symm]

theorem rolesOf_self (role : φ → Option (ι × ρ)) {f : φ} (h : role f = some (x, r)) :
    rolesOf role x [f] = [r] := by
  simp [rolesOf, roleOf_eq_some_iff.mpr h]

theorem rolesOf_of_ne (role : φ → Option (ι × ρ)) {f : φ} (hne : x ≠ y)
    (h : role f = some (y, r)) : rolesOf role x [f] = [] := by
  simp [rolesOf, roleOf_of_ne h hne]

@[simp] theorem rolesOf_nil : rolesOf role x [] = [] := rfl

theorem rolesOf_append (fs gs : List φ) :
    rolesOf role x (fs ++ gs) = rolesOf role x fs ++ rolesOf role x gs :=
  List.filterMap_append

theorem rolesOf_cons (f : φ) (fs : List φ) :
    rolesOf role x (f :: fs) = rolesOf role x [f] ++ rolesOf role x fs :=
  rolesOf_append [f] fs

@[simp] theorem rolesOf_cons_toList (f : φ) (fs : List φ) :
    rolesOf role x (f :: fs) = (roleOf role x f).toList ++ rolesOf role x fs := by
  cases h : roleOf role x f <;> simp [rolesOf, h]

theorem count_rolesOf [DecidableEq ρ] (fs : List φ) :
    (rolesOf role x fs).count r
      = (fs.map fun f => if role f = some (x, r) then 1 else 0).sum := by
  induction fs with
  | nil => rfl
  | cons f fs ih =>
    rw [rolesOf_cons, List.count_append, ih, List.map_cons, List.sum_cons]
    congr 1
    -- one frame, by the role that it gives
    cases hf : role f with
    | none => simp [rolesOf, roleOf, hf]
    | some p =>
      obtain ⟨y, r'⟩ := p
      by_cases hy : x = y
      · subst hy
        rw [rolesOf_self role hf, List.count_singleton]
        simp
      · rw [rolesOf_of_ne role hy hf]
        simp [Ne.symm hy]

theorem mem_rolesOf {fs : List φ} : r ∈ rolesOf role x fs ↔ ∃ f ∈ fs, role f = some (x, r) := by
  simp [rolesOf, roleOf_eq_some_iff]

theorem mem_allRoles {F : Multiset φ} : r ∈ allRoles role x F ↔ ∃ f ∈ F, role f = some (x, r) := by
  simp [allRoles, roleOf_eq_some_iff]

theorem allRoles_add (fs : List φ) (R : Multiset φ) :
    allRoles role x ((fs : Multiset φ) + R) = ↑(rolesOf role x fs) + allRoles role x R := by
  rw [allRoles, Multiset.filterMap_add]
  rfl

theorem allRoles_cons (f : φ) (R : Multiset φ) :
    allRoles role x (f ::ₘ R) = ↑(rolesOf role x [f]) + allRoles role x R :=
  allRoles_add [f] R

/-! ### The instances that frames name

A frame may name an instance; `F.filterMap key` is the collection of the instances that the frames
`F` name. -/

theorem count_filterMap (key : φ → Option ι) (x : ι) (F : Multiset φ) :
    (F.filterMap key).count x = weigh (fun f => if key f = some x then 1 else 0) F := by
  induction F using Multiset.induction_on with
  | empty => rfl
  | cons f F ih =>
    cases hf : key f with
    | none => simp [Multiset.filterMap_cons_none f F hf, ih, hf]
    | some y =>
      rw [Multiset.filterMap_cons_some key f F hf, Multiset.count_cons, ih, weigh_cons, hf,
        Nat.add_comm]
      simp [eq_comm]

omit [DecidableEq ι] in
theorem filterMap_coe_add (key : φ → Option ι) (fs : List φ) (R : Multiset φ) :
    ((fs : Multiset φ) + R).filterMap key = ↑(fs.filterMap key) + R.filterMap key :=
  Multiset.filterMap_add _ _ _

omit [DecidableEq ι] in
theorem filterMap_cons (key : φ → Option ι) (f : φ) (R : Multiset φ) :
    (f ::ₘ R).filterMap key = ↑([f].filterMap key) + R.filterMap key :=
  filterMap_coe_add key [f] R

/-- A set has as many elements as the instances that are named, if it has each of them and each is
named once. -/
theorem card_filterMap_le {key : φ → Option ι} {F : Multiset φ} {s : Finset ι}
    (h : ∀ x, (F.filterMap key).count x ≤ if x ∈ s then 1 else 0) :
    (F.filterMap key).card ≤ s.card := by
  refine Multiset.card_le_card (Multiset.le_iff_count.mpr fun x => ?_)
  rw [Multiset.count_eq_of_nodup s.nodup]
  exact h x

/-! ### The steps of an instance

`S` is the step relation of the protocol, `view x s` what the shared state `s` shows of the
instance `x`. -/

section Step

variable {σ α : Type*} {S : α → List ρ → α → List ρ → Prop} {view : ι → σ → α} {s s' : σ}
  {fs : List φ}

/-- A step that leaves an instance alone stutters in its protocol. -/
theorem step_stutter (hS : ∀ v rs, S v rs v rs) (hv : view x s' = view x s)
    (hr : rolesOf role x fs = rolesOf role x [f]) :
    S (view x s) (rolesOf role x [f]) (view x s') (rolesOf role x fs) := by
  rw [hv, hr]
  exact hS _ _

/-- **A step of the instance `y`, seen from the instance `x`**: from another instance nothing has
happened. -/
theorem step_of_self (hS : ∀ v rs, S v rs v rs) (hf : role f = some (y, r))
    (hv : x ≠ y → view x s' = view x s) (hr : x ≠ y → rolesOf role x fs = [])
    (h : S (view y s) [r] (view y s') (rolesOf role y fs)) :
    S (view x s) (rolesOf role x [f]) (view x s') (rolesOf role x fs) := by
  rcases eq_or_ne x y with rfl | hne
  · rw [rolesOf_self role hf]
    exact h
  · refine step_stutter hS (hv hne) ?_
    rw [hr hne, rolesOf_of_ne role hne hf]

end Step

end MiniAsync.Interleave
