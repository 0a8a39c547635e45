/-
  Taking values out of slots.

  A family of slots holds at most one value each. `take` empties the slots of a list,
  one after the other, and returns what was in them. `take_slots` and
  `take_conserves` hold for every list: exactly the named slots are empty afterwards,
  and nothing is lost or doubled. `take_taken` is for a list that names no slot
  twice.
-/
import Mathlib.Algebra.BigOperators.Group.Finset.Basic
import Mathlib.Algebra.Order.Group.Multiset
import Mathlib.Data.Multiset.AddSub

namespace MiniAsync.Slots

variable {K W : Type} [DecidableEq K]

/-- The slots of the list are emptied one after the other. The second component is what was in
them. -/
def take (σ : K → Option W) : List K → (K → Option W) × List W
  | [] => (σ, [])
  | k :: ks =>
    let (σ', ws) := take (Function.update σ k none) ks
    (σ', (σ k).toList ++ ws)

theorem take_cons (σ : K → Option W) (k : K) (ks : List K) :
    take σ (k :: ks) = ((take (Function.update σ k none) ks).1,
      (σ k).toList ++ (take (Function.update σ k none) ks).2) := rfl

theorem take_append (σ : K → Option W) (ks ls : List K) :
    take σ (ks ++ ls) =
      ((take (take σ ks).1 ls).1, (take σ ks).2 ++ (take (take σ ks).1 ls).2) := by
  induction ks generalizing σ with
  | nil => rfl
  | cons k ks ih => rw [List.cons_append, take_cons, ih, take_cons, List.append_assoc]

/-- Exactly the slots of the list are empty afterwards. -/
theorem take_slots (σ : K → Option W) (ks : List K) (k : K) :
    (take σ ks).1 k = if k ∈ ks then none else σ k := by
  induction ks generalizing σ with
  | nil => rfl
  | cons k' ks ih =>
    rw [take_cons, ih]
    rcases eq_or_ne k k' with rfl | hne
    · rw [Function.update_self, ite_self, if_pos List.mem_cons_self]
    · rw [Function.update_of_ne hne]
      simp only [List.mem_cons, hne, false_or]

/-- Nothing comes out of empty slots. -/
theorem take_of_empty {σ : K → Option W} {ks : List K} (h : ∀ k ∈ ks, σ k = none) :
    take σ ks = (σ, []) := by
  induction ks with
  | nil => rfl
  | cons k ks ih =>
    rw [List.forall_mem_cons] at h
    rw [take_cons, Function.update_eq_self_iff.mpr h.1.symm, ih h.2, h.1]
    rfl

/-- A slot that is not named twice gives what it held at the start. -/
theorem take_taken (σ : K → Option W) {ks : List K} (hnd : ks.Nodup) :
    (take σ ks).2 = ks.filterMap σ := by
  induction ks generalizing σ with
  | nil => rfl
  | cons k ks ih =>
    obtain ⟨hk, hks⟩ := List.nodup_cons.mp hnd
    have hrest : ks.filterMap (Function.update σ k none) = ks.filterMap σ :=
      List.filterMap_congr fun k' hk' => Function.update_of_ne (ne_of_mem_of_not_mem hk' hk) _ _
    rw [take_cons, ih _ hks, hrest]
    cases hσ : σ k with
    | none => rw [List.filterMap_cons_none hσ]; rfl
    | some w => rw [List.filterMap_cons_some hσ]; rfl

/-- What the slots of a finite set hold. -/
def held (σ : K → Option W) (S : Finset K) : Multiset W := ∑ k ∈ S, ((σ k).toList : Multiset W)

theorem held_update (σ : K → Option W) {S : Finset K} {k : K} (hk : k ∈ S) :
    held σ S = (σ k).toList + held (Function.update σ k none) S := by
  have hrest : ∑ k' ∈ S.erase k, ((σ k').toList : Multiset W) =
      ∑ k' ∈ S.erase k, ((Function.update σ k none k').toList : Multiset W) := by
    refine Finset.sum_congr rfl fun k' hk' => ?_
    rw [Function.update_of_ne (Finset.ne_of_mem_erase hk')]
  rw [held, held, ← Finset.add_sum_erase S _ hk, hrest, ← Finset.add_sum_erase S _ hk,
    Function.update_self, Option.toList_none, Multiset.coe_nil, zero_add]

/-- **Nothing is lost or doubled.** What was held is what has been taken and what is still held. -/
theorem take_conserves (σ : K → Option W) {S : Finset K} {ks : List K} (h : ∀ k ∈ ks, k ∈ S) :
    held σ S = (take σ ks).2 + held (take σ ks).1 S := by
  induction ks generalizing σ with
  | nil => exact (zero_add _).symm
  | cons k ks ih =>
    rw [List.forall_mem_cons] at h
    rw [take_cons, held_update σ h.1, ih _ h.2, ← Multiset.coe_add, add_assoc]

end MiniAsync.Slots
