/-
  Max-heaps, given by what they hold.

  `MaxHeap cmp` is any implementation of a priority queue for the comparison
  `cmp`: `elems` says what a heap holds, and the laws say that `push` adds, that
  `peek` shows an element that no other exceeds and that `pop` removes the element
  `peek` shows. Which of several greatest elements that is, is left open.

  `drain` pops as long as the top passes a test. `drain_elems`, `drain_test`,
  `drain_sorted` and `drain_rest` say what it has popped, in which order, and what
  is left. `sortedList` is an implementation.
-/
import Mathlib.Data.List.Sort
import Mathlib.Data.Multiset.AddSub

namespace MiniAsync.Heap

/-- A priority queue whose top is greatest for `cmp`. -/
structure MaxHeap {α : Type} (cmp : α → α → Ordering) where
  Carrier : Type
  empty : Carrier
  push : Carrier → α → Carrier
  peek : Carrier → Option α
  pop : Carrier → Option (α × Carrier)
  len : Carrier → ℕ
  elems : Carrier → Multiset α
  elems_empty : elems empty = 0
  elems_push : ∀ h a, elems (push h a) = a ::ₘ elems h
  len_eq : ∀ h, len h = (elems h).card
  peek_none : ∀ h, peek h = none → elems h = 0
  peek_max : ∀ h a, peek h = some a → ∀ b ∈ elems h, (cmp b a).isLE = true
  pop_peek : ∀ h a, peek h = some a → ∃ h', pop h = some (a, h') ∧ elems h = a ::ₘ elems h'

namespace MaxHeap

variable {α : Type} {cmp : α → α → Ordering} (Q : MaxHeap cmp) {h h' : Q.Carrier} {a : α}

/-- Adds the elements of a list. -/
def extend (h : Q.Carrier) (xs : List α) : Q.Carrier := xs.foldl Q.push h

def isEmpty (h : Q.Carrier) : Bool := Q.len h == 0

theorem elems_extend (h : Q.Carrier) (xs : List α) : Q.elems (Q.extend h xs) = Q.elems h + xs := by
  unfold extend
  induction xs generalizing h with
  | nil => exact (Multiset.add_zero _).symm
  | cons a xs ih =>
    rw [List.foldl_cons, ih, Q.elems_push, Multiset.cons_add, ← Multiset.add_cons,
      Multiset.cons_coe]

theorem isEmpty_iff : Q.isEmpty h = true ↔ Q.elems h = 0 := by
  rw [isEmpty, beq_iff_eq, Q.len_eq, Multiset.card_eq_zero]

theorem peek_eq_none_iff : Q.peek h = none ↔ Q.elems h = 0 := by
  refine ⟨Q.peek_none h, fun h0 => ?_⟩
  cases hp : Q.peek h with
  | none => rfl
  | some a =>
    obtain ⟨h', -, helems⟩ := Q.pop_peek h a hp
    rw [h0] at helems
    exact absurd helems (Multiset.zero_ne_cons)

theorem mem_of_peek (hp : Q.peek h = some a) : a ∈ Q.elems h := by
  obtain ⟨h', -, helems⟩ := Q.pop_peek h a hp
  rw [helems]
  exact Multiset.mem_cons_self a _

theorem len_of_elems_cons (helems : Q.elems h = a ::ₘ Q.elems h') : Q.len h = Q.len h' + 1 := by
  rw [Q.len_eq, helems, Multiset.card_cons, ← Q.len_eq]

/-! ### Popping while the top passes a test -/

/-- Pops at most `n` elements, as long as the top passes the test. -/
def drain (test : α → Bool) : ℕ → Q.Carrier → List α × Q.Carrier
  | 0, h => ([], h)
  | n + 1, h =>
    match Q.peek h with
    | none => ([], h)
    | some a =>
      if test a then
        match Q.pop h with
        | none => ([], h)
        | some (a, h') => (a :: (drain test n h').1, (drain test n h').2)
      else ([], h)

variable {test : α → Bool} {n : ℕ}

/-- **Induction along `drain`.** The call ends on a top that fails the test, on an empty heap or
when `n` elements are popped, or it pops the top and goes on with the rest. -/
theorem drain_induction {P : ℕ → Q.Carrier → List α × Q.Carrier → Prop}
    (hstop : ∀ n h, (∀ a, Q.peek h = some a → n = 0 ∨ test a = false) → P n h ([], h))
    (hpop : ∀ n h h' a, Q.peek h = some a → test a = true → Q.pop h = some (a, h') →
      Q.elems h = a ::ₘ Q.elems h' → P n h' (Q.drain test n h') →
      P (n + 1) h (a :: (Q.drain test n h').1, (Q.drain test n h').2))
    (n : ℕ) (h : Q.Carrier) : P n h (Q.drain test n h) := by
  induction n generalizing h with
  | zero => exact hstop 0 h fun _ _ => Or.inl rfl
  | succ n ih =>
    rw [drain]
    split
    · rename_i hp
      refine hstop _ h fun a ha => ?_
      rw [hp] at ha
      cases ha
    · rename_i a hp
      split_ifs with ht
      · obtain ⟨h', hpop', helems⟩ := Q.pop_peek h a hp
        rw [hpop']
        exact hpop n h h' a hp ht hpop' helems (ih h')
      · refine hstop _ h fun b hb => Or.inr ?_
        rw [hp] at hb
        cases hb
        exact Bool.not_eq_true _ ▸ ht

/-- What is popped and what is left is what there was. -/
theorem drain_elems (test : α → Bool) (n : ℕ) (h : Q.Carrier) :
    ((Q.drain test n h).1 : Multiset α) + Q.elems (Q.drain test n h).2 = Q.elems h := by
  refine Q.drain_induction (P := fun _ h d => (d.1 : Multiset α) + Q.elems d.2 = Q.elems h)
    (fun _ h _ => Multiset.zero_add _) (fun n h h' a _ _ _ helems ih => ?_) n h
  rw [helems, ← ih, ← Multiset.cons_coe, Multiset.cons_add]

theorem drain_test (n : ℕ) (h : Q.Carrier) : ∀ a ∈ (Q.drain test n h).1, test a = true := by
  refine Q.drain_induction (P := fun _ _ d => ∀ a ∈ d.1, test a = true)
    (fun _ _ _ => by simp) (fun n h h' a _ ht _ _ ih => ?_) n h
  exact List.forall_mem_cons.mpr ⟨ht, ih⟩

/-- The greatest elements come first. -/
theorem drain_sorted (test : α → Bool) (n : ℕ) (h : Q.Carrier) :
    (Q.drain test n h).1.Pairwise fun a b => (cmp b a).isLE = true := by
  refine Q.drain_induction (P := fun _ _ d => d.1.Pairwise fun a b => (cmp b a).isLE = true)
    (fun _ _ _ => .nil) (fun n h h' a hp _ _ helems ih => ?_) n h
  refine List.pairwise_cons.mpr ⟨fun b hb => Q.peek_max h a hp b ?_, ih⟩
  have hrest : b ∈ Q.elems h' := by
    rw [← Q.drain_elems test n h']
    exact Multiset.mem_add.mpr (Or.inl hb)
  rw [helems]
  exact Multiset.mem_cons_of_mem hrest

/-- With as many steps as there are elements, the top that is left fails the test. -/
theorem drain_peek (n : ℕ) (h : Q.Carrier) (hn : Q.len h ≤ n) :
    ∀ a, Q.peek (Q.drain test n h).2 = some a → test a = false := by
  revert hn
  refine Q.drain_induction (P := fun n h d => Q.len h ≤ n →
    ∀ a, Q.peek d.2 = some a → test a = false) (fun n h hstop hn a hp => ?_)
    (fun n h h' a _ _ _ helems ih hn => ih ?_) n h
  · refine (hstop a hp).resolve_left fun h0 => ?_
    rw [h0, Nat.le_zero, Q.len_eq, Multiset.card_eq_zero, ← Q.peek_eq_none_iff, hp] at hn
    cases hn
  · rw [Q.len_of_elems_cons helems] at hn
    exact Nat.le_of_succ_le_succ hn

/-- If no smaller element passes a test that a greater one fails, then nothing that passes the test
is left. -/
theorem drain_rest (htest : ∀ a b, (cmp b a).isLE = true → test b = true → test a = true) (n : ℕ)
    (h : Q.Carrier) (hn : Q.len h ≤ n) :
    ∀ b ∈ Q.elems (Q.drain test n h).2, test b = false := by
  intro b hb
  cases hp : Q.peek (Q.drain test n h).2 with
  | none =>
    rw [Q.peek_none _ hp] at hb
    exact absurd hb (Multiset.notMem_zero b)
  | some a =>
    by_contra ht
    have ha := htest a b (Q.peek_max _ a hp b hb) (Bool.not_eq_false _ ▸ ht)
    rw [Q.drain_peek n h hn a hp] at ha
    cases ha

end MaxHeap

/-! ### A list that is kept in order -/

section SortedList

variable {α : Type} (cmp : α → α → Ordering)

/-- `b` comes after `a`. -/
def After (a b : α) : Prop := (cmp b a).isLE = true

instance : DecidableRel (After cmp) :=
  fun a b => inferInstanceAs (Decidable ((cmp b a).isLE = true))

instance [Std.TransCmp cmp] : IsTrans α (After cmp) :=
  ⟨fun _ _ _ hab hbc => Std.TransCmp.isLE_trans hbc hab⟩

instance [Std.OrientedCmp cmp] : Std.Total (After cmp) := by
  refine ⟨fun a b => ?_⟩
  have hswap : cmp b a = (cmp a b).swap := Std.OrientedCmp.eq_swap
  rw [After, After, hswap]
  cases cmp a b <;> simp

/-- A sorted list as a max-heap. -/
def sortedList [Std.TransCmp cmp] : MaxHeap cmp where
  Carrier := { l : List α // l.Pairwise (After cmp) }
  empty := ⟨[], .nil⟩
  push h a := ⟨h.1.orderedInsert (After cmp) a, h.2.orderedInsert a h.1⟩
  peek h := h.1.head?
  pop
    | ⟨[], _⟩ => none
    | ⟨a :: l, hl⟩ => some (a, ⟨l, hl.of_cons⟩)
  len h := h.1.length
  elems h := h.1
  elems_empty := rfl
  elems_push h a := Multiset.coe_eq_coe.mpr (List.perm_orderedInsert _ a h.1)
  len_eq h := rfl
  peek_none h hp := by rw [List.head?_eq_none_iff.mp hp]; rfl
  peek_max := by
    rintro ⟨_ | ⟨a, l⟩, hl⟩ b hb c hc
    · cases hb
    · cases hb
      rcases List.mem_cons.mp (Multiset.mem_coe.mp hc) with rfl | hc
      · exact (Std.Total.total (r := After cmp) c c).elim id id
      · exact List.rel_of_pairwise_cons hl hc
  pop_peek := by
    rintro ⟨_ | ⟨a, l⟩, hl⟩ b hb
    · cases hb
    · cases hb
      exact ⟨⟨l, hl.of_cons⟩, rfl, rfl⟩

end SortedList

end MiniAsync.Heap
