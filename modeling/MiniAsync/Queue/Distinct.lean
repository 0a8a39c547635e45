/-
  FIFO queues that hold an element at most once.

  Inserting an element that is in the queue does nothing, so the place of an
  element is the one of its first insertion since it was last removed. That is a
  notion of histories alone (`FirstInsertion`), and `InOrder h l` says that the
  list `l` has exactly the elements that are inserted and not removed in the
  history `h`, in the order of these insertions.

  `DistinctQueue` is the queue; a call removes no element, the first one or all of
  them, and returns what it has removed. `run_inOrder` says what it holds after any
  calls. The order in which a list of elements is inserted into the empty queue is
  the order of their first occurrences (`insertAll_order`).
-/
import MiniAsync.Trace.System
import Mathlib.Data.List.Nodup
import Mathlib.Data.List.Basic

namespace MiniAsync.Queue

open Trace

variable {α : Type*}

/-! ### Histories of insertions and removals -/

inductive Event (α : Type*) where
  | insert (x : α)
  | remove (x : α)
deriving DecidableEq

/-- The event `i` is the first insertion of `x` since `x` was last removed. -/
structure FirstInsertion (h : List (Event α)) (x : α) (i : ℕ) : Prop where
  inserted : h[i]? = some (.insert x)
  kept : ∀ j, i < j → h[j]? ≠ some (.remove x)
  first : ∀ j, j < i → h[j]? = some (.insert x) → ∃ k, j < k ∧ k < i ∧ h[k]? = some (.remove x)

section History

variable {h h' : List (Event α)} {e e' : Event α} {x y : α} {i j : ℕ}

theorem getElem?_snoc_eq_some :
    (h ++ [e])[j]? = some e' ↔ h[j]? = some e' ∨ (j = h.length ∧ e = e') := by
  rcases Nat.lt_trichotomy j h.length with hlt | rfl | hgt
  · rw [List.getElem?_append_left hlt]
    have hne : j ≠ h.length := Nat.ne_of_lt hlt
    simp [hne]
  · simp
  · have hnone : (h ++ [e])[j]? = none := List.getElem?_eq_none (by simp; omega)
    have hne : j ≠ h.length := Nat.ne_of_gt hgt
    rw [hnone, List.getElem?_eq_none (Nat.le_of_lt hgt)]
    simp [hne]

theorem FirstInsertion.lt_length (hi : FirstInsertion h x i) : i < h.length :=
  (List.getElem?_eq_some_iff.mp hi.inserted).1

theorem FirstInsertion.le (hi : FirstInsertion h x i) (hj : FirstInsertion h x j) : i ≤ j := by
  by_contra hlt
  obtain ⟨k, hjk, -, hk⟩ := hi.first j (Nat.not_le.mp hlt) hj.inserted
  exact hj.kept k hjk hk

theorem FirstInsertion.unique (hi : FirstInsertion h x i) (hj : FirstInsertion h x j) : i = j :=
  Nat.le_antisymm (hi.le hj) (hj.le hi)

/-- The events of other elements do not matter. -/
theorem firstInsertion_snoc (hins : e ≠ .insert x) (hrem : e ≠ .remove x) :
    FirstInsertion (h ++ [e]) x i ↔ FirstInsertion h x i := by
  have hi : ∀ j : ℕ, (h ++ [e])[j]? = some (Event.insert x) ↔ h[j]? = some (Event.insert x) := by
    intro j
    rw [getElem?_snoc_eq_some]
    exact or_iff_left fun hj => hins hj.2
  have hr : ∀ j : ℕ, (h ++ [e])[j]? = some (Event.remove x) ↔ h[j]? = some (Event.remove x) := by
    intro j
    rw [getElem?_snoc_eq_some]
    exact or_iff_left fun hj => hrem hj.2
  constructor
  · rintro ⟨hin, hkept, hfirst⟩
    refine ⟨(hi i).mp hin, fun j hj hk => hkept j hj ((hr j).mpr hk), fun j hj hk => ?_⟩
    obtain ⟨k, hjk, hki, hk⟩ := hfirst j hj ((hi j).mpr hk)
    exact ⟨k, hjk, hki, (hr k).mp hk⟩
  · rintro ⟨hin, hkept, hfirst⟩
    refine ⟨(hi i).mpr hin, fun j hj hk => hkept j hj ((hr j).mp hk), fun j hj hk => ?_⟩
    obtain ⟨k, hjk, hki, hk⟩ := hfirst j hj ((hi j).mp hk)
    exact ⟨k, hjk, hki, (hr k).mpr hk⟩

/-- Another insertion of an element changes nothing. -/
theorem FirstInsertion.insert (hi : FirstInsertion h x i) :
    FirstInsertion (h ++ [.insert x]) x i := by
  refine ⟨getElem?_snoc_eq_some.mpr (Or.inl hi.inserted), fun j hj hk => ?_, fun j hj hk => ?_⟩
  · rcases getElem?_snoc_eq_some.mp hk with hk | ⟨-, hk⟩
    · exact hi.kept j hj hk
    · cases hk
  · rcases getElem?_snoc_eq_some.mp hk with hk | ⟨rfl, -⟩
    · obtain ⟨k, hjk, hki, hk⟩ := hi.first j hj hk
      exact ⟨k, hjk, hki, getElem?_snoc_eq_some.mpr (Or.inl hk)⟩
    · exact absurd hj (Nat.not_lt.mpr (Nat.le_of_lt hi.lt_length))

/-- If an element has no first insertion, then every insertion of it was followed by a removal. -/
theorem exists_remove_of_insert (hno : ∀ i, ¬ FirstInsertion h x i)
    (hj : h[j]? = some (.insert x)) : ∃ k, j < k ∧ h[k]? = some (.remove x) := by
  induction j using Nat.strongRecOn with
  | ind j ih =>
    by_contra hnone
    push Not at hnone
    -- the removals after the earlier insertions come before `j`, so `j` is a first insertion
    refine hno j ⟨hj, hnone, fun i hi hins => ?_⟩
    obtain ⟨k, hik, hk⟩ := ih i hi hins
    refine ⟨k, hik, ?_, hk⟩
    by_contra hle
    rcases Nat.lt_or_eq_of_le (Nat.not_lt.mp hle) with hlt | rfl
    · exact hnone k hlt hk
    · rw [hj] at hk
      cases hk

theorem firstInsertion_insert_length (hno : ∀ i, ¬ FirstInsertion h x i) :
    FirstInsertion (h ++ [.insert x]) x h.length := by
  refine ⟨getElem?_snoc_eq_some.mpr (Or.inr ⟨rfl, rfl⟩), fun j hj hk => ?_, fun j hj hk => ?_⟩
  · rw [List.getElem?_eq_none (by simp; omega)] at hk
    cases hk
  · rcases getElem?_snoc_eq_some.mp hk with hk | ⟨rfl, -⟩
    · obtain ⟨k, hjk, hk⟩ := exists_remove_of_insert hno hk
      exact ⟨k, hjk, (List.getElem?_eq_some_iff.mp hk).1, getElem?_snoc_eq_some.mpr (Or.inl hk)⟩
    · exact absurd hj (Nat.lt_irrefl _)

theorem not_firstInsertion_remove : ¬ FirstInsertion (h ++ [.remove x]) x i := by
  intro hi
  rcases getElem?_snoc_eq_some.mp hi.inserted with hin | ⟨-, hin⟩
  · have hlt : i < h.length := (List.getElem?_eq_some_iff.mp hin).1
    exact hi.kept h.length hlt (getElem?_snoc_eq_some.mpr (Or.inr ⟨rfl, rfl⟩))
  · cases hin

/-- Without removals the first insertion is the first occurrence. -/
theorem firstInsertion_map_insert [DecidableEq α] {xs : List α} (hx : x ∈ xs) :
    FirstInsertion (xs.map .insert) x (xs.idxOf x) := by
  have hget : ∀ {j : ℕ}, (xs.map Event.insert)[j]? = some (Event.insert x) ↔ xs[j]? = some x := by
    intro j
    rw [List.getElem?_map, Option.map_eq_some_iff]
    simp
  refine ⟨hget.mpr (List.getElem?_idxOf hx), fun j _ hk => ?_, fun j hj hk => ?_⟩
  · rw [List.getElem?_map, Option.map_eq_some_iff] at hk
    obtain ⟨y, -, hy⟩ := hk
    cases hy
  · obtain ⟨hlt, hxj⟩ := List.getElem?_eq_some_iff.mp (hget.mp hk)
    exact absurd hxj (by simpa using List.not_of_lt_findIdx hj)

end History

/-! ### Lists in the order of first insertions -/

/-- The list has the elements that are inserted and not removed, in the order of their first
insertions since they were last removed. -/
structure InOrder (h : List (Event α)) (l : List α) : Prop where
  mem : ∀ x, x ∈ l ↔ ∃ i, FirstInsertion h x i
  order : l.Pairwise fun x y => ∀ i j, FirstInsertion h x i → FirstInsertion h y j → i < j

namespace InOrder

variable {h : List (Event α)} {l : List α} {x : α}

theorem nil : InOrder ([] : List (Event α)) [] :=
  ⟨fun x => iff_of_false (by simp) fun ⟨i, hi⟩ => absurd hi.lt_length (Nat.not_lt_zero i), .nil⟩

/-- An event that leaves the first insertions of all elements of the list. -/
theorem order_congr {h' : List (Event α)} (ho : InOrder h l)
    (hsame : ∀ y ∈ l, ∀ i, FirstInsertion h' y i → FirstInsertion h y i) :
    l.Pairwise fun x y => ∀ i j, FirstInsertion h' x i → FirstInsertion h' y j → i < j := by
  refine ho.order.imp_of_mem ?_
  intro y z hy hz hyz i j hi hj
  exact hyz i j (hsame y hy i hi) (hsame z hz j hj)

/-- The element is in the list already. -/
theorem insert_of_mem (ho : InOrder h l) (hx : x ∈ l) : InOrder (h ++ [.insert x]) l := by
  obtain ⟨i, hi⟩ := (ho.mem x).mp hx
  have hiff : ∀ y j, FirstInsertion (h ++ [.insert x]) y j ↔ FirstInsertion h y j := by
    intro y j
    by_cases hyx : y = x
    · subst hyx
      constructor
      · intro hj
        rw [hj.unique hi.insert]
        exact hi
      · exact fun hj => hj.insert
    · exact firstInsertion_snoc (fun he => hyx (Event.insert.inj he).symm) (by simp)
  refine ⟨fun y => ?_, ho.order_congr fun y _ j => (hiff y j).mp⟩
  rw [ho.mem y]
  exact exists_congr fun j => (hiff y j).symm

/-- A new element comes last. -/
theorem insert_of_notMem (ho : InOrder h l) (hx : x ∉ l) :
    InOrder (h ++ [.insert x]) (l ++ [x]) := by
  have hnew : FirstInsertion (h ++ [.insert x]) x h.length :=
    firstInsertion_insert_length fun i hi => hx ((ho.mem x).mpr ⟨i, hi⟩)
  have hiff : ∀ y, y ≠ x → ∀ j, FirstInsertion (h ++ [.insert x]) y j ↔ FirstInsertion h y j :=
    fun y hyx j => firstInsertion_snoc (fun he => hyx (Event.insert.inj he).symm) (by simp)
  have hne : ∀ y ∈ l, y ≠ x := fun y hy he => hx (he ▸ hy)
  refine ⟨fun y => ?_, List.pairwise_append.mpr ⟨?_, List.pairwise_singleton _ _, ?_⟩⟩
  · rw [List.mem_append, List.mem_singleton]
    by_cases hyx : y = x
    · subst hyx
      exact iff_of_true (Or.inr rfl) ⟨_, hnew⟩
    · rw [or_iff_left hyx, ho.mem y]
      exact exists_congr fun j => (hiff y hyx j).symm
  · exact ho.order_congr fun y hy j => (hiff y (hne y hy) j).mp
  · intro y hy z hz i j hi hj
    rw [List.mem_singleton.mp hz] at hj
    rw [hj.unique hnew]
    exact ((hiff y (hne y hy) i).mp hi).lt_length

/-- The first element is removed. -/
theorem remove (ho : InOrder h (x :: l)) : InOrder (h ++ [.remove x]) l := by
  obtain ⟨hfirst, htail⟩ := List.pairwise_cons.mp ho.order
  have hiff : ∀ y, y ≠ x → ∀ j, FirstInsertion (h ++ [.remove x]) y j ↔ FirstInsertion h y j :=
    fun y hyx j => firstInsertion_snoc (by simp) (fun he => hyx (Event.remove.inj he).symm)
  -- an element before itself would have two first insertions
  have hne : ∀ y ∈ l, y ≠ x := by
    rintro y hy rfl
    obtain ⟨i, hi⟩ := (ho.mem y).mp List.mem_cons_self
    exact absurd (hfirst y hy i i hi hi) (Nat.lt_irrefl i)
  refine ⟨fun y => ?_, ?_⟩
  · by_cases hyx : y = x
    · subst hyx
      exact iff_of_false (fun hy => hne y hy rfl) fun ⟨i, hi⟩ => not_firstInsertion_remove hi
    · have hmem : y ∈ l ↔ y ∈ x :: l := by simp [hyx]
      rw [hmem, ho.mem y]
      exact exists_congr fun j => (hiff y hyx j).symm
  · refine htail.imp_of_mem ?_
    intro y z hy hz hyz i j hi hj
    exact hyz i j ((hiff y (hne y hy) i).mp hi) ((hiff z (hne z hz) j).mp hj)

/-- The list is emptied from its front. -/
theorem removeAll (ho : InOrder h l) : InOrder (h ++ l.map .remove) [] := by
  induction l generalizing h with
  | nil =>
    rw [List.map_nil, List.append_nil]
    exact ho
  | cons x l ih =>
    have hrest := ih ho.remove
    rw [List.append_assoc] at hrest
    exact hrest

end InOrder

/-! ### The queue -/

/-- A queue without duplicates, its front first. -/
@[ext]
structure DistinctQueue (α : Type*) where
  elems : List α
  nodup : elems.Nodup

/-- The calls of a queue. Each returns the elements that it has removed. -/
inductive Op (α : Type*) where
  | insert (x : α)
  | removeFirst
  | removeAll
deriving DecidableEq

namespace DistinctQueue

def empty : DistinctQueue α := ⟨[], List.nodup_nil⟩

def removeFirst (q : DistinctQueue α) : List α × DistinctQueue α :=
  (q.elems.take 1, ⟨q.elems.tail, q.nodup.tail⟩)

def removeAll (q : DistinctQueue α) : List α × DistinctQueue α := (q.elems, empty)

variable [DecidableEq α]

def insert (q : DistinctQueue α) (x : α) : DistinctQueue α :=
  if hx : x ∈ q.elems then q
  else ⟨q.elems ++ [x], List.concat_eq_append ▸ q.nodup.concat hx⟩

def insertAll (q : DistinctQueue α) (xs : List α) : DistinctQueue α := xs.foldl insert q

def step (q : DistinctQueue α) : Op α → Option (List α × DistinctQueue α)
  | .insert x => some ([], q.insert x)
  | .removeFirst => some q.removeFirst
  | .removeAll => some q.removeAll

abbrev system (α : Type*) [DecidableEq α] : System (DistinctQueue α) (Op α) (List α) := ofFn step

variable {q q' : DistinctQueue α} {x : α}

theorem insert_elems (q : DistinctQueue α) (x : α) :
    (q.insert x).elems = if x ∈ q.elems then q.elems else q.elems ++ [x] := by
  unfold insert
  split_ifs <;> rfl

theorem inOrder_insert {h : List (Event α)} (ho : InOrder h q.elems) (x : α) :
    InOrder (h ++ [.insert x]) (q.insert x).elems := by
  rw [insert_elems]
  split_ifs with hx
  · exact ho.insert_of_mem hx
  · exact ho.insert_of_notMem hx

theorem inOrder_insertAll {h : List (Event α)} (ho : InOrder h q.elems) (xs : List α) :
    InOrder (h ++ xs.map .insert) (q.insertAll xs).elems := by
  induction xs generalizing h q with
  | nil =>
    rw [List.map_nil, List.append_nil]
    exact ho
  | cons x xs ih =>
    have hrest := ih (inOrder_insert ho x)
    rw [List.append_assoc] at hrest
    exact hrest

theorem mem_insertAll (xs : List α) : x ∈ (empty.insertAll xs).elems ↔ x ∈ xs := by
  have ho := inOrder_insertAll (q := empty) InOrder.nil xs
  rw [List.nil_append] at ho
  rw [ho.mem x]
  constructor
  · rintro ⟨i, hi⟩
    have hin := hi.inserted
    rw [List.getElem?_map, Option.map_eq_some_iff] at hin
    obtain ⟨y, hy, hyx⟩ := hin
    cases hyx
    exact List.mem_of_getElem? hy
  · exact fun hx => ⟨_, firstInsertion_map_insert hx⟩

/-- **Inserted elements stand in the order of their first occurrences.** -/
theorem insertAll_order (xs : List α) :
    (empty.insertAll xs).elems.Pairwise fun x y => xs.idxOf x < xs.idxOf y := by
  have ho := inOrder_insertAll (q := empty) InOrder.nil xs
  rw [List.nil_append] at ho
  refine ho.order.imp_of_mem ?_
  intro x y hx hy hxy
  exact hxy _ _ (firstInsertion_map_insert ((mem_insertAll xs).mp hx))
    (firstInsertion_map_insert ((mem_insertAll xs).mp hy))

/-! ### Runs -/

/-- What a call and the elements that it has removed say about the queue. -/
def eventsOf : Op α × List α → List (Event α)
  | (.insert x, _) => [.insert x]
  | (_, xs) => xs.map .remove

def events (h : List (Op α × List α)) : List (Event α) := h.flatMap eventsOf

omit [DecidableEq α] in
theorem events_snoc (h : List (Op α × List α)) (e : Op α × List α) :
    events (h ++ [e]) = events h ++ eventsOf e := by
  simp [events]

theorem inOrder_step {h : List (Event α)} {o : Op α} {xs : List α} (ho : InOrder h q.elems)
    (hs : q.step o = some (xs, q')) : InOrder (h ++ eventsOf (o, xs)) q'.elems := by
  cases o with
  | insert x =>
    cases hs
    exact inOrder_insert ho x
  | removeFirst =>
    cases hs
    obtain ⟨l, hnd⟩ := q
    cases l with
    | nil =>
      show InOrder (h ++ []) []
      rw [List.append_nil]
      exact ho
    | cons x l => exact ho.remove
  | removeAll =>
    cases hs
    exact ho.removeAll

/-- **The elements of a queue are in the order of their first insertions.** -/
theorem run_inOrder {h : List (Op α × List α)} (hr : Run (system α) empty h q) :
    InOrder (events h) q.elems := by
  refine hr.invariant (I := fun h (q : DistinctQueue α) => InOrder (events h) q.elems) .nil ?_
  intro h q o xs q' _ ho hs
  rw [events_snoc]
  exact inOrder_step ho hs

/-- What is removed stood before what is left. -/
theorem elems_eq_append {o : Op α} {xs : List α} (hs : q.step o = some (xs, q'))
    (ho : ∀ x, o ≠ .insert x) : q.elems = xs ++ q'.elems := by
  cases o with
  | insert x => exact absurd rfl (ho x)
  | removeFirst =>
    cases hs
    obtain ⟨_ | ⟨x, l⟩, hnd⟩ := q <;> rfl
  | removeAll =>
    cases hs
    exact (List.append_nil q.elems).symm

end DistinctQueue

end MiniAsync.Queue
