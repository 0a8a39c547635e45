/-
  Memory that is freed by its owners.

  A cell is a box, which has one owner, or it is shared and carries the count of
  its owners. An owner is a reference in the value of a cell (`Refs.refs`) or a
  *root*, a reference that is held anywhere else. The operations are those of a
  program that keeps the counts by hand: they return `none` where the program would
  read, count or free a cell that is not there, or would take a box for a shared
  cell. No address is given out twice, so that a stale reference never goes
  unnoticed.

  `Owned m R` says that the counts are right for the roots `R`. An operation on a
  reference that is owned succeeds and keeps `Owned` for the roots that it leaves
  (`exists_retain`, `exists_write`, `exists_release`, `exists_drop`), so that a
  program that drops what it owns and nothing else never goes wrong. All of this
  comes from `Owned.set`, the balance of a change to one cell. Two results are about
  leaks: every cell is kept alive by a root or by a cycle
  (`Owned.exists_root_or_cycle`), and without cycles by a root (`Owned.exists_root`).
-/
import Mathlib.Algebra.BigOperators.Group.Finset.Basic
import Mathlib.Algebra.Order.BigOperators.Group.Finset
import Mathlib.Algebra.Order.Group.Multiset
import Mathlib.Data.Fintype.Card
import Mathlib.Data.Multiset.Count
import Mathlib.Data.Set.Finite.Basic
import Mathlib.Logic.Relation

namespace MiniAsync.Memory

variable {α : Type*}

abbrev Addr := ℕ

inductive Kind where
  | box
  | shared
deriving DecidableEq

/-- An allocated cell. -/
inductive Cell (α : Type*) where
  | box (v : α)
  | shared (strong : ℕ) (v : α)
deriving DecidableEq

namespace Cell

def kind : Cell α → Kind
  | box _ => .box
  | shared _ _ => .shared

def value : Cell α → α
  | box v => v
  | shared _ v => v

/-- The owners that the cell accounts for. -/
def count : Cell α → ℕ
  | box _ => 1
  | shared strong _ => strong

def setValue (v : α) : Cell α → Cell α
  | box _ => box v
  | shared strong _ => shared strong v

end Cell

/-- Values that hold references. -/
class Refs (α : Type*) where
  refs : α → List Addr

export Refs (refs)

/-- The allocated cells. The addresses from `next` on have never been given out. -/
structure Mem (α : Type*) where
  cells : Addr → Option (Cell α)
  next : Addr

namespace Mem

/-- Nothing is allocated. -/
def empty : Mem α := ⟨fun _ => none, 0⟩

/-- A cell without its count. -/
def view (m : Mem α) (a : Addr) : Option (Kind × α) := (m.cells a).map fun c => (c.kind, c.value)

def set (m : Mem α) (a : Addr) (c : Option (Cell α)) : Mem α :=
  { m with cells := Function.update m.cells a c }

def alloc (m : Mem α) (c : Cell α) : Addr × Mem α :=
  (m.next, ⟨Function.update m.cells m.next (some c), m.next + 1⟩)

/-- Reads the value of a cell of kind `k`. -/
def read (m : Mem α) (k : Kind) (a : Addr) : Option α :=
  match m.cells a with
  | none => none
  | some c => if c.kind = k then some c.value else none

/-- Writes the value of a cell of kind `k`. -/
def write (m : Mem α) (k : Kind) (a : Addr) (v : α) : Option (Mem α) :=
  match m.cells a with
  | none => none
  | some c => if c.kind = k then some (m.set a (some (c.setValue v))) else none

/-- One more reference to a shared cell. -/
def retain (m : Mem α) (a : Addr) : Option (Mem α) :=
  match m.cells a with
  | some (.shared strong v) => some (m.set a (some (.shared (strong + 1) v)))
  | _ => none

/-- A reference to `a` is dropped. The last one frees the cell, and the references in its value are
left to be dropped. -/
def release [Refs α] (m : Mem α) (a : Addr) : Option (List Addr × Mem α) :=
  match m.cells a with
  | none => none
  | some (.box v) => some (refs v, m.set a none)
  | some (.shared strong v) =>
    if strong = 1 then some (refs v, m.set a none)
    else some ([], m.set a (some (.shared (strong - 1) v)))

/-- The references `as` are dropped, with everything that this frees. -/
def dropAll [Refs α] : ℕ → Mem α → List Addr → Option (Mem α)
  | _, m, [] => some m
  | 0, _, _ :: _ => none
  | fuel + 1, m, a :: as =>
    match m.release a with
    | none => none
    | some (bs, m') => dropAll fuel m' (bs ++ as)

/-- What the cell at an address counts; zero if nothing is there. -/
def countOf : Option (Cell α) → ℕ
  | none => 0
  | some c => c.count

/-- The sum of all counts: no more than this can be dropped. -/
def weight (m : Mem α) : ℕ := ∑ a ∈ Finset.range m.next, countOf (m.cells a)

def drop [Refs α] (m : Mem α) (as : List Addr) : Option (Mem α) := dropAll m.weight m as

@[simp]
theorem set_next (m : Mem α) (a : Addr) (c : Option (Cell α)) : (m.set a c).next = m.next := rfl

theorem set_cells_self (m : Mem α) (a : Addr) (c : Option (Cell α)) : (m.set a c).cells a = c :=
  Function.update_self _ _ _

theorem set_cells_of_ne (m : Mem α) {a b : Addr} (hne : b ≠ a) (c : Option (Cell α)) :
    (m.set a c).cells b = m.cells b :=
  Function.update_of_ne hne _ _

section View

variable {m m' : Mem α} {a : Addr}

theorem view_eq_none : m.view a = none ↔ m.cells a = none := Option.map_eq_none_iff

/-- A cell, from what is seen of it. -/
theorem exists_cell {k : Kind} {v : α} (hv : m.view a = some (k, v)) :
    ∃ c, m.cells a = some c ∧ c.kind = k ∧ c.value = v := by
  obtain ⟨c, hc, he⟩ := Option.map_eq_some_iff.mp hv
  exact ⟨c, hc, congrArg Prod.fst he, congrArg Prod.snd he⟩

theorem view_set (c : Option (Cell α)) :
    (m.set a c).view = Function.update m.view a (c.map fun c => (c.kind, c.value)) := by
  funext b
  rcases eq_or_ne b a with rfl | hne
  · rw [view, set_cells_self, Function.update_self]
  · rw [view, set_cells_of_ne m hne, Function.update_of_ne hne, view]

theorem read_eq {k : Kind} {v : α} (hv : m.view a = some (k, v)) : m.read k a = some v := by
  obtain ⟨c, hc, rfl, rfl⟩ := exists_cell hv
  rw [read, hc]
  exact if_pos rfl

theorem view_alloc (c : Cell α) :
    (m.alloc c).2.view = Function.update m.view m.next (some (c.kind, c.value)) :=
  view_set (m := ⟨m.cells, m.next + 1⟩) (some c)

/-- `m'` is `m` with new cells, and perhaps other counts. -/
def Grown (m m' : Mem α) : Prop := m.next ≤ m'.next ∧ ∀ b < m.next, m'.view b = m.view b

theorem grown_alloc (c : Cell α) : Grown m (m.alloc c).2 := by
  refine ⟨Nat.le_succ _, fun b hb => ?_⟩
  rw [view_alloc, Function.update_of_ne (Nat.ne_of_lt hb)]

/-- `m'` is what is left of `m`: some cells are gone, the others have the same value. -/
def Shrunk (m m' : Mem α) : Prop :=
  m'.next = m.next ∧ ∀ b, m'.view b = none ∨ m'.view b = m.view b

theorem Shrunk.refl (m : Mem α) : Shrunk m m := ⟨rfl, fun _ => .inr rfl⟩

theorem Shrunk.trans {m₁ m₂ m₃ : Mem α} (h : Shrunk m₁ m₂) (h' : Shrunk m₂ m₃) : Shrunk m₁ m₃ := by
  refine ⟨h'.1.trans h.1, fun b => ?_⟩
  rcases h'.2 b with hnone | heq
  · exact .inl hnone
  · rw [heq]
    exact h.2 b

theorem shrunk_set {c : Option (Cell α)}
    (hc : c.map (fun c => (c.kind, c.value)) = none ∨
      c.map (fun c => (c.kind, c.value)) = m.view a) : Shrunk m (m.set a c) := by
  refine ⟨rfl, fun b => ?_⟩
  rw [view_set]
  rcases eq_or_ne b a with rfl | hne
  · rw [Function.update_self]
    exact hc
  · rw [Function.update_of_ne hne]
    exact .inr rfl

/-- What a root keeps alive is not changed by a drop. -/
theorem Shrunk.view_eq (hs : Shrunk m m') (h : m'.view a ≠ none) : m'.view a = m.view a :=
  (hs.2 a).resolve_left h

theorem sum_set {β : Type*} [AddCommMonoid β] (f : Option (Cell α) → β) (m : Mem α)
    (c : Option (Cell α)) (ha : a < m.next) :
    ∑ b ∈ Finset.range m.next, f ((m.set a c).cells b) =
      f c + ∑ b ∈ (Finset.range m.next).erase a, f (m.cells b) := by
  rw [← Finset.add_sum_erase _ _ (Finset.mem_range.mpr ha)]
  congr 1
  · rw [set_cells_self]
  · refine Finset.sum_congr rfl fun b hb => ?_
    rw [set_cells_of_ne m (Finset.ne_of_mem_erase hb)]

theorem weight_set (c : Option (Cell α)) (ha : a < m.next) :
    (m.set a c).weight + countOf (m.cells a) = m.weight + countOf c := by
  rw [weight, weight, set_next, sum_set countOf m c ha,
    ← Finset.add_sum_erase _ _ (Finset.mem_range.mpr ha)]
  omega

end View

/-! ### Counting owners -/

section Owned

variable [Refs α]

/-- The references that a cell holds. -/
def refsOf : Option (Cell α) → Multiset Addr
  | none => 0
  | some c => (refs c.value : Multiset Addr)

/-- The owners of `a`: the roots, and the references in all the cells. -/
def owners (m : Mem α) (R : Multiset Addr) (a : Addr) : ℕ :=
  R.count a + ∑ b ∈ Finset.range m.next, (refsOf (m.cells b)).count a

/-- Every count is the number of the owners, and what has no owner is free. -/
structure Owned (m : Mem α) (R : Multiset Addr) : Prop where
  counted : ∀ a, countOf (m.cells a) = m.owners R a
  pos : ∀ a c, m.cells a = some c → 0 < c.count
  fresh : ∀ a, m.next ≤ a → m.cells a = none

variable {m m' : Mem α} {R R' : Multiset Addr} {a b : Addr}

theorem owned_empty : Owned (empty : Mem α) 0 where
  counted a := by simp [empty, owners, countOf]
  pos a c hc := by cases hc
  fresh a _ := rfl

theorem Owned.lt_next (h : Owned m R) {c : Cell α} (hc : m.cells a = some c) : a < m.next := by
  by_contra hle
  rw [h.fresh a (Nat.le_of_not_lt hle)] at hc
  cases hc

/-- What somebody owns is allocated. -/
theorem Owned.allocated (h : Owned m R) (ha : 0 < m.owners R a) : ∃ c, m.cells a = some c := by
  rw [← h.counted] at ha
  cases hc : m.cells a with
  | none =>
    rw [hc] at ha
    exact absurd ha (Nat.lt_irrefl 0)
  | some c => exact ⟨c, rfl⟩

theorem owners_pos_of_root (ha : a ∈ R) : 0 < m.owners R a :=
  Nat.lt_of_lt_of_le (Multiset.count_pos.mpr ha) (Nat.le_add_right _ _)

/-- A reference in a cell is counted. -/
theorem Owned.sum_pos_of_ref (h : Owned m R) {c : Cell α} (hc : m.cells b = some c)
    (ha : a ∈ refs c.value) : 0 < ∑ b ∈ Finset.range m.next, (refsOf (m.cells b)).count a := by
  have hb : 0 < (refsOf (m.cells b)).count a := by
    rw [hc]
    exact Multiset.count_pos.mpr (Multiset.mem_coe.mpr ha)
  have hle := Finset.single_le_sum (f := fun b => (refsOf (m.cells b)).count a)
    (fun _ _ => Nat.zero_le _) (Finset.mem_range.mpr (h.lt_next hc))
  exact Nat.lt_of_lt_of_le hb hle

theorem Owned.owners_pos_of_ref (h : Owned m R) {c : Cell α} (hc : m.cells b = some c)
    (ha : a ∈ refs c.value) : 0 < m.owners R a :=
  Nat.lt_of_lt_of_le (h.sum_pos_of_ref hc ha) (Nat.le_add_left _ _)

/-- **The balance of a change to one cell.** What the count of the cell gains is what its address
gains among the owners. -/
theorem Owned.set (h : Owned m R) (ha : a < m.next) (c : Option (Cell α))
    (hpos : ∀ c', c = some c' → 0 < c'.count)
    (hbal : Multiset.replicate (countOf c) a + (R + refsOf (m.cells a)) =
      Multiset.replicate (countOf (m.cells a)) a + (R' + refsOf c)) : Owned (m.set a c) R' where
  counted b := by
    have hb := congrArg (Multiset.count b) hbal
    have hold := h.counted b
    simp only [Multiset.count_add, Multiset.count_replicate] at hb
    rw [owners, ← Finset.add_sum_erase _ _ (Finset.mem_range.mpr ha)] at hold
    have hnew := sum_set (fun c => (refsOf c).count b) m c ha
    rw [owners, set_next, hnew]
    rcases eq_or_ne a b with rfl | hne
    · rw [if_pos rfl, if_pos rfl] at hb
      rw [set_cells_self]
      omega
    · rw [if_neg hne, if_neg hne] at hb
      rw [set_cells_of_ne m hne.symm]
      omega
  pos b c' hc' := by
    rcases eq_or_ne b a with rfl | hne
    · rw [set_cells_self] at hc'
      exact hpos c' hc'
    · rw [set_cells_of_ne m hne] at hc'
      exact h.pos b c' hc'
  fresh b hb := by
    rw [set_cells_of_ne m (Nat.ne_of_gt (Nat.lt_of_lt_of_le ha hb))]
    exact h.fresh b hb

/-- The cell at `a` holds a reference to `b`. -/
def PointsTo (m : Mem α) (a b : Addr) : Prop := b ∈ refsOf (m.cells a)

theorem PointsTo.exists_view (h : m.PointsTo a b) :
    ∃ k v, m.view a = some (k, v) ∧ b ∈ refs v := by
  cases hc : m.cells a with
  | none =>
    rw [PointsTo, hc] at h
    exact absurd h (Multiset.notMem_zero b)
  | some c =>
    rw [PointsTo, hc] at h
    refine ⟨c.kind, c.value, ?_, Multiset.mem_coe.mp h⟩
    rw [view, hc]
    rfl

/-! ### What the operations do -/

theorem Owned.view_ne_none (h : Owned m R) (ha : a ∈ R) : m.view a ≠ none := by
  obtain ⟨c, hc⟩ := h.allocated (owners_pos_of_root ha)
  rw [Ne, view_eq_none, hc]
  exact Option.some_ne_none c

/-- A new cell takes the references of its value over from the roots. -/
theorem Owned.alloc {c : Cell α} (h : Owned m ((refs c.value : Multiset Addr) + R))
    (hc : c.count = 1) : Owned (m.alloc c).2 (m.next ::ₘ R) := by
  have hnone : m.cells m.next = none := h.fresh _ (Nat.le_refl _)
  -- the address is given out, and then the cell is put there
  have hext : Owned (⟨m.cells, m.next + 1⟩ : Mem α) ((refs c.value : Multiset Addr) + R) := by
    refine ⟨fun a => ?_, h.pos, fun a ha => h.fresh a (Nat.le_of_succ_le ha)⟩
    rw [h.counted a, owners, owners, Finset.sum_range_succ, hnone]
    rfl
  refine hext.set (a := m.next) (Nat.lt_succ_self _) (some c) (fun c' hc' => ?_) ?_
  · cases hc'
    rw [hc]
    exact Nat.one_pos
  · simp only [hnone, countOf, refsOf, hc, Multiset.replicate_one, Multiset.replicate_zero]
    rw [zero_add, add_zero, Multiset.singleton_add, Multiset.cons_add, add_comm R]

theorem Owned.alloc_of_refs_nil {c : Cell α} (h : Owned m R) (hrefs : refs c.value = [])
    (hc : c.count = 1) : Owned (m.alloc c).2 (m.next ::ₘ R) := by
  refine Owned.alloc ?_ hc
  rw [hrefs, Multiset.coe_nil, zero_add]
  exact h

/-- A write. The references of the new value come from the roots, those of the old one go to
them. -/
theorem exists_write {k : Kind} {v : α} (v' : α) (hv : m.view a = some (k, v)) :
    ∃ m', m.write k a v' = some m' ∧ m'.view = Function.update m.view a (some (k, v')) ∧
      m'.next = m.next ∧ ∀ R R' : Multiset Addr,
        R + (refs v : Multiset Addr) = R' + (refs v' : Multiset Addr) →
          Owned m R → Owned m' R' := by
  obtain ⟨c, hc, rfl, rfl⟩ := exists_cell hv
  have hkind : (c.setValue v').kind = c.kind := by cases c <;> rfl
  have hvalue : (c.setValue v').value = v' := by cases c <;> rfl
  have hcount : (c.setValue v').count = c.count := by cases c <;> rfl
  refine ⟨m.set a (some (c.setValue v')), ?_, ?_, rfl, fun R R' hrefs h => ?_⟩
  · rw [write, hc]
    exact if_pos rfl
  · rw [view_set, Option.map_some, hkind, hvalue]
  · refine h.set (h.lt_next hc) _ (fun c' hc' => ?_) ?_
    · cases hc'
      rw [hcount]
      exact h.pos a c hc
    · rw [hc]
      simp only [countOf, refsOf, hcount, hvalue, hrefs]

/-- A shared cell can be given one more owner. -/
theorem exists_retain {v : α} (hv : m.view a = some (.shared, v)) :
    ∃ m', m.retain a = some m' ∧ m'.view = m.view ∧ m'.next = m.next ∧
      ∀ R, Owned m R → Owned m' (a ::ₘ R) := by
  obtain ⟨c, hc, hkind, rfl⟩ := exists_cell hv
  cases c with
  | box v => cases hkind
  | shared strong v =>
    refine ⟨m.set a (some (.shared (strong + 1) v)), ?_, ?_, rfl, fun R h => ?_⟩
    · rw [retain, hc]
    · rw [view_set]
      exact Function.update_eq_self_iff.mpr hv.symm
    · refine h.set (h.lt_next hc) _ (fun c' hc' => ?_) ?_
      · cases hc'
        exact Nat.succ_pos _
      · rw [hc]
        simp only [countOf, refsOf, Cell.count, Cell.value, Multiset.replicate_succ]
        rw [Multiset.cons_add, Multiset.cons_add, Multiset.add_cons]

/-- The root `a` can be dropped. -/
theorem exists_release (h : Owned m (a ::ₘ R)) :
    ∃ bs m', m.release a = some (bs, m') ∧ Owned m' ((bs : Multiset Addr) + R) ∧
      m'.weight + 1 = m.weight ∧ Shrunk m m' := by
  obtain ⟨c, hc⟩ := h.allocated (owners_pos_of_root (Multiset.mem_cons_self a R))
  have ha := h.lt_next hc
  have hpos := h.pos a c hc
  -- the last owner frees the cell
  have hfree : c.count = 1 → Owned (m.set a none) ((refs c.value : Multiset Addr) + R) ∧
      (m.set a none).weight + 1 = m.weight ∧ Shrunk m (m.set a none) := by
    intro hone
    refine ⟨h.set ha none (fun _ hc' => by cases hc') ?_, ?_, shrunk_set (.inl rfl)⟩
    · rw [hc]
      simp only [countOf, refsOf, hone, Multiset.replicate_one, Multiset.replicate_zero]
      rw [zero_add, add_zero, Multiset.cons_add, Multiset.singleton_add, add_comm R]
    · have hw := weight_set (m := m) none ha
      rw [hc] at hw
      simp only [countOf, hone] at hw
      exact hw
  cases c with
  | box v => exact ⟨refs v, m.set a none, by rw [release, hc], hfree rfl⟩
  | shared strong v =>
    by_cases hone : strong = 1
    · refine ⟨refs v, m.set a none, ?_, hfree hone⟩
      rw [release, hc]
      exact if_pos hone
    · have hstrong : strong = strong - 1 + 1 := (Nat.sub_add_cancel hpos).symm
      refine ⟨[], m.set a (some (.shared (strong - 1) v)), ?_, ?_, ?_, shrunk_set (.inr ?_)⟩
      · rw [release, hc]
        exact if_neg hone
      · refine h.set ha _ (fun c' hc' => ?_) ?_
        · cases hc'
          refine Nat.pos_of_ne_zero fun hzero => hone ?_
          rw [hstrong, show strong - 1 = 0 from hzero]
        · rw [hc]
          simp only [countOf, refsOf, Cell.count, Cell.value, Multiset.coe_nil]
          nth_rewrite 2 [hstrong]
          rw [Multiset.replicate_succ, zero_add, Multiset.cons_add, Multiset.add_cons,
            Multiset.cons_add]
      · have hw := weight_set (m := m) (some (.shared (strong - 1) v)) ha
        rw [hc] at hw
        simp only [countOf, Cell.count] at hw
        omega
      · rw [view, hc]
        rfl

/-- What a cell refers to is not freed when a root is dropped. -/
theorem release_keeps {bs : List Addr} {c : Addr} (h : Owned m (a ::ₘ R))
    (hrel : m.release a = some (bs, m')) (hbc : m.PointsTo b c) : m'.view c ≠ none := by
  obtain ⟨k, v, hview, hc⟩ := hbc.exists_view
  obtain ⟨cell, hcell, -, rfl⟩ := exists_cell hview
  obtain ⟨c₀, hc₀⟩ := h.allocated (h.owners_pos_of_ref hcell hc)
  rw [Ne, view_eq_none]
  rcases eq_or_ne c a with rfl | hne
  · -- there are two owners: the root and the cell
    have htwo : 2 ≤ c₀.count := by
      have hcount := h.counted c
      rw [hc₀, owners, Multiset.count_cons_self] at hcount
      have hpos := h.sum_pos_of_ref hcell hc
      simp only [countOf] at hcount
      omega
    cases c₀ with
    | box v => exact absurd htwo (Nat.not_succ_le_self 1)
    | shared strong v =>
      have hne : strong ≠ 1 := Nat.ne_of_gt htwo
      rw [release, hc₀] at hrel
      simp only [hne, if_false, Option.some.injEq, Prod.mk.injEq] at hrel
      rw [← hrel.2, set_cells_self]
      exact Option.some_ne_none _
  · have hcells : m'.cells c = m.cells c := by
      unfold release at hrel
      split at hrel
      · cases hrel
      · cases hrel
        exact set_cells_of_ne m hne _
      · split_ifs at hrel <;> cases hrel <;> exact set_cells_of_ne m hne _
    rw [hcells, hc₀]
    exact Option.some_ne_none _

theorem exists_dropAll {as : List Addr} (fuel : ℕ) (h : Owned m ((as : Multiset Addr) + R))
    (hfuel : m.weight ≤ fuel) :
    ∃ m', dropAll fuel m as = some m' ∧ Owned m' R ∧ Shrunk m m' := by
  induction fuel generalizing m as with
  | zero =>
    cases as with
    | nil =>
      rw [Multiset.coe_nil, zero_add] at h
      exact ⟨m, rfl, h, .refl m⟩
    | cons a as =>
      rw [← Multiset.cons_coe, Multiset.cons_add] at h
      obtain ⟨bs, m', -, -, hw, -⟩ := exists_release h
      omega
  | succ fuel ih =>
    cases as with
    | nil =>
      rw [Multiset.coe_nil, zero_add] at h
      exact ⟨m, rfl, h, .refl m⟩
    | cons a as =>
      rw [← Multiset.cons_coe, Multiset.cons_add] at h
      obtain ⟨bs, m', hrel, hown, hw, hsub⟩ := exists_release h
      rw [← add_assoc, Multiset.coe_add] at hown
      obtain ⟨m'', hdrop, hown', hsub'⟩ := ih hown (by omega)
      refine ⟨m'', ?_, hown', hsub.trans hsub'⟩
      rw [dropAll, hrel]
      exact hdrop

/-- **Roots can be dropped**, with everything that this frees. What is left is owned by the other
roots. -/
theorem exists_drop {as : List Addr} (h : Owned m ((as : Multiset Addr) + R)) :
    ∃ m', m.drop as = some m' ∧ Owned m' R ∧ Shrunk m m' :=
  exists_dropAll _ h (Nat.le_refl _)

theorem exists_drop_singleton (h : Owned m (a ::ₘ R)) :
    ∃ m', m.drop [a] = some m' ∧ Owned m' R ∧ Shrunk m m' := by
  rw [← Multiset.singleton_add, ← Multiset.coe_singleton] at h
  exact exists_drop h

/-! ### Leaks -/

/-- A cell that is no root has an owner in the memory. -/
theorem Owned.exists_pointsTo (h : Owned m R) {c : Cell α} (hc : m.cells a = some c)
    (ha : a ∉ R) : ∃ b < m.next, m.PointsTo b a := by
  have hown : 0 < m.owners R a := by
    rw [← h.counted, hc]
    exact h.pos a c hc
  rw [owners, Multiset.count_eq_zero_of_notMem ha, zero_add] at hown
  obtain ⟨b, hb, hcount⟩ := Finset.exists_ne_zero_of_sum_ne_zero (Nat.ne_of_gt hown)
  exact ⟨b, Finset.mem_range.mp hb, Multiset.count_pos.mp (Nat.pos_of_ne_zero hcount)⟩

/-- What leads to a cell is a cell. -/
theorem exists_cell_of_reaches {c : Cell α} (hc : m.cells a = some c)
    (hba : Relation.ReflTransGen m.PointsTo b a) : ∃ c', m.cells b = some c' := by
  rcases hba.cases_head with rfl | ⟨d, hbd, -⟩
  · exact ⟨c, hc⟩
  · obtain ⟨k, v, hview, -⟩ := hbd.exists_view
    obtain ⟨c', hc', -⟩ := exists_cell hview
    exact ⟨c', hc'⟩

/-- **Only cycles leak.** Every cell is reached from a root or from a cycle. -/
theorem Owned.exists_root_or_cycle (h : Owned m R) {c : Cell α} (hc : m.cells a = some c) :
    (∃ r ∈ R, Relation.ReflTransGen m.PointsTo r a) ∨
      ∃ b, Relation.TransGen m.PointsTo b b ∧ Relation.ReflTransGen m.PointsTo b a := by
  by_contra! hnone
  obtain ⟨hroot, hcycle⟩ := hnone
  -- there are finitely many cells that lead to `a`, so that one of them has none before it
  let Above := {b : Addr // b < m.next ∧ Relation.ReflTransGen m.PointsTo b a}
  let Before : Above → Above → Prop := fun x y => Relation.TransGen m.PointsTo x.1 y.1
  have : Finite Above := ((Set.finite_lt_nat m.next).subset fun b hb => hb.1).to_subtype
  have : IsTrans Above Before := ⟨fun _ _ _ => Relation.TransGen.trans⟩
  have : Std.Irrefl Before := ⟨fun x hx => hcycle x.1 hx x.2.2⟩
  obtain ⟨⟨x, hx, hxa⟩, -, hmin⟩ := (Finite.wellFounded_of_trans_of_irrefl Before).has_min Set.univ
    ⟨⟨a, h.lt_next hc, .refl⟩, trivial⟩
  obtain ⟨c', hc'⟩ := exists_cell_of_reaches hc hxa
  obtain ⟨b, hb, hbx⟩ := h.exists_pointsTo hc' fun hx => hroot x hx hxa
  exact hmin ⟨b, hb, .head hbx hxa⟩ trivial (.single hbx)

/-- **Without cycles nothing leaks.** If the references of a cell go to smaller ranks only, every
cell is reached from a root. -/
theorem Owned.exists_root (h : Owned m R) (rank : Addr → ℕ)
    (hrank : ∀ a b, m.PointsTo a b → rank b < rank a) {c : Cell α} (hc : m.cells a = some c) :
    ∃ r ∈ R, Relation.ReflTransGen m.PointsTo r a := by
  refine (h.exists_root_or_cycle hc).resolve_right ?_
  rintro ⟨b, hcycle, -⟩
  have hlt : ∀ d, Relation.TransGen m.PointsTo b d → rank d < rank b := by
    intro d hd
    induction hd with
    | single hbd => exact hrank _ _ hbd
    | tail _ hde ih => exact (hrank _ _ hde).trans ih
  exact Nat.lt_irrefl _ (hlt b hcycle)

/-- All references go to older cells. It is so as long as no reference is written. -/
def Descending (m : Mem α) : Prop := ∀ a k v, m.view a = some (k, v) → ∀ b ∈ refs v, b < a

theorem Descending.of_pointsTo (h : m.Descending) (hab : m.PointsTo a b) : b < a := by
  obtain ⟨k, v, hview, hb⟩ := hab.exists_view
  exact h a k v hview b hb

theorem Descending.update (h : m.Descending) {k : Kind} {v : α}
    (hview : m'.view = Function.update m.view a (some (k, v))) (hv : ∀ b ∈ refs v, b < a) :
    m'.Descending := by
  intro a' k' v' hview' b hb
  rw [hview] at hview'
  rcases eq_or_ne a' a with rfl | hne
  · rw [Function.update_self] at hview'
    cases hview'
    exact hv b hb
  · rw [Function.update_of_ne hne] at hview'
    exact h a' k' v' hview' b hb

theorem Descending.shrunk (h : m.Descending) (hs : Shrunk m m') : m'.Descending := by
  intro a k v hview b hb
  rw [hs.view_eq (by rw [hview]; exact Option.some_ne_none _)] at hview
  exact h a k v hview b hb

end Owned

end Mem

end MiniAsync.Memory
