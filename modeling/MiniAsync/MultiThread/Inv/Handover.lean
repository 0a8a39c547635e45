/-
  The handover of a task's value, seen apart from the rest of the runtime.

  A spawned task hands its value to its `JoinHandle` through the `TaskState`
  (`multi_thread/task.rs`), the root of a `block_on` to the caller through the
  slot it waits at (`multi_thread/runtime.rs`). A `View` is what belongs to the
  handover of one task, a `Role` is the position of the worker that polls the
  task, and `Step` says which change a thread with which role may make.

  `Inv` says where the value is: nowhere before the wrapper has stored it, and
  afterwards in the slot or with the awaiter; and whose waker the wrapper took.
-/
import MiniAsync.Interleave.Machine
import MiniAsync.MultiThread.State

namespace MiniAsync.MultiThread

open Interleave

namespace Handover

variable {V : Type}

/-- The part of the shared state that belongs to the handover of one task's value. -/
@[ext]
structure View (V : Type) where
  allocated : Bool
  root : Bool
  result : Option V
  waker : Option Waker
  signal : Option V
  finished : Bool
  panicked : Bool
  output : Option V
  stored : Bool
  taken : Option Waker
  woken : Bool
  yielded : List V
  lastPoll : Option JoinPoll
  lastPending : Option Waker
  repolled : Bool

/-- The view from the fields of the shared state. -/
def View.of (allocated : Bool) (t : Task V) (h : TaskHist V) : View V where
  allocated := allocated
  root := t.root
  result := t.result
  waker := t.waker
  signal := t.signal
  finished := h.finished
  panicked := h.panicked
  output := h.output
  stored := h.stored
  taken := h.taken
  woken := h.woken
  yielded := h.yielded
  lastPoll := h.lastPoll
  lastPending := h.lastPending
  repolled := h.repolled

/-- Where the awaiter looks for the value. -/
def View.slot (v : View V) : Option V := if v.root then v.signal else v.result

/-- The positions of the worker inside `Task::poll`. -/
inductive Role (V : Type) where
  | running
  | storing (u : V)
  | unlocking
  | signalling (u : V)
  | notifying

/-- `Step v rs v' rs'`: a thread that holds the roles `rs` turns the view `v` into `v'` and holds
`rs'` afterwards. -/
inductive Step : View V → List (Role V) → View V → List (Role V) → Prop
  | stutter (v : View V) (rs : List (Role V)) : Step v rs v rs
  | create (v : View V) (rs : List (Role V)) (root : Bool) (h : v.allocated = false) :
      Step v rs (View.of true (Task.blank root .scheduled) TaskHist.blank) rs
  | start (v : View V) (h : v.allocated = true) : Step v [] v [.running]
  | suspend (v : View V) : Step v [.running] v []
  | ret (v : View V) (u : V) (h : v.root = false) :
      Step v [.running] { v with output := some u } [.storing u]
  | retRoot (v : View V) (u : V) (h : v.root = true) :
      Step v [.running] { v with output := some u } [.signalling u]
  | panic (v : View V) : Step v [.running] { v with finished := true, panicked := true } []
  | store (v : View V) (u : V) :
      Step v [.storing u]
        { v with result := some u, waker := none, stored := true, taken := v.waker } [.unlocking]
  | unlock (v : View V) : Step v [.unlocking] { v with woken := true, finished := true } []
  | signal (v : View V) (u : V) :
      Step v [.signalling u] { v with signal := some u, stored := true } [.notifying]
  | notify (v : View V) : Step v [.notifying] { v with finished := true } []
  | yield (v : View V) (rs : List (Role V)) (p : Option TaskId) (w : Waker) (u : V)
      (hr : v.root = false) (h : v.result = some u) :
      Step v rs
        { v with result := none, yielded := u :: v.yielded, lastPoll := some ⟨p, w, true⟩ } rs
  | pend (v : View V) (rs : List (Role V)) (p : Option TaskId) (w : Waker) (hr : v.root = false)
      (h : v.result = none) :
      Step v rs { v with
        waker := some w, lastPoll := some ⟨p, w, false⟩, lastPending := some w
        repolled := v.repolled || !v.yielded.isEmpty } rs
  | take (v : View V) (rs : List (Role V)) (u : V) (h : v.signal = some u) :
      Step v rs { v with signal := none, yielded := u :: v.yielded } rs

/-- What the worker in a position knows. -/
def Role.Ok (v : View V) : Role V → Prop
  | .running => v.stored = false
  | .storing u => v.stored = false ∧ v.root = false ∧ v.output = some u
  | .unlocking => v.stored = true ∧ v.root = false
  | .signalling u => v.stored = false ∧ v.root = true ∧ v.output = some u
  | .notifying => v.stored = true ∧ v.root = true

/-- Before the value is stored: nobody has got anything, and the waker is that of the latest
poll. -/
structure Waiting (v : View V) : Prop where
  result : v.result = none
  signal : v.signal = none
  yielded : v.yielded = []
  woken : v.woken = false
  repolled : v.repolled = false
  waker : v.waker = v.lastPending

/-- After the value is stored: it is in the slot or has been handed out, and the waker taken is
that of the latest poll, unless the handle was polled after it had yielded the value. -/
structure Published (v : View V) : Prop where
  value : ∃ u, v.output = some u ∧
    ((v.slot = some u ∧ v.yielded = []) ∨ (v.slot = none ∧ v.yielded = [u]))
  other : v.root = false → v.signal = none
  taken : v.root = false → v.repolled = false → v.taken = v.lastPending
  repolled : v.repolled = true → v.yielded ≠ []

/-- A value in the slot is the one the future returned, and the only one. -/
theorem Published.of_slot {v : View V} (h : Published v) {u : V} (hslot : v.slot = some u) :
    v.output = some u ∧ v.yielded = [] := by
  obtain ⟨u', ho, ⟨hu, hy⟩ | ⟨hu, -⟩⟩ := h.value
  · exact ⟨ho.trans (hu.symm.trans hslot), hy⟩
  · cases hslot.symm.trans hu

theorem Published.of_empty {v : View V} (h : Published v) (hslot : v.slot = none) :
    ∃ u, v.output = some u ∧ v.yielded = [u] := by
  obtain ⟨u, ho, ⟨hu, -⟩ | ⟨-, hy⟩⟩ := h.value
  · cases hslot.symm.trans hu
  · exact ⟨u, ho, hy⟩

/-- The state of a handover, with the roles `rs` of all threads. -/
structure Inv (v : View V) (rs : Multiset (Role V)) : Prop where
  fresh : v.allocated = false → rs = 0
  role : ∀ r ∈ rs, r.Ok v
  waiting : v.stored = false → Waiting v
  published : v.stored = true → Published v
  /-- Between the store and the end of the poll the worker is in one of two positions. -/
  ending : v.stored = true → v.finished = true ∨ .unlocking ∈ rs ∨ .notifying ∈ rs
  finished : v.finished = true →
    v.panicked = true ∨ v.stored = true ∧ (v.root = false → v.woken = true)
  woken : v.woken = true → v.finished = true
  lastPoll : ∀ p, v.lastPoll = some p →
    v.root = false ∧ (p.ready = false → v.lastPending = some p.waker)

theorem waiting_blank (allocated root : Bool) (st : Status) :
    Waiting (View.of allocated (Task.blank root st) (TaskHist.blank : TaskHist V)) :=
  ⟨rfl, rfl, rfl, rfl, rfl, rfl⟩

theorem inv_blank (allocated root : Bool) (st : Status) :
    Inv (View.of allocated (Task.blank root st) (TaskHist.blank : TaskHist V)) 0 where
  fresh := fun _ => rfl
  role := by simp
  waiting := fun _ => waiting_blank _ _ _
  published := fun h => nomatch h
  ending := fun h => nomatch h
  finished := fun h => nomatch h
  woken := fun h => nomatch h
  lastPoll := fun p h => nomatch h

/-- Before the store, what is left to show for `Inv`. -/
theorem Waiting.inv {v : View V} {rs : Multiset (Role V)} (h : Waiting v) (hs : v.stored = false)
    (hfresh : v.allocated = false → rs = 0) (hrole : ∀ r ∈ rs, r.Ok v)
    (hfin : v.finished = true → v.panicked = true)
    (hlast : ∀ p, v.lastPoll = some p →
      v.root = false ∧ (p.ready = false → v.lastPending = some p.waker)) :
    Inv v rs where
  fresh := hfresh
  role := hrole
  waiting := fun _ => h
  published := fun hs' => absurd hs' (by simp [hs])
  ending := fun hs' => absurd hs' (by simp [hs])
  finished := fun hf => Or.inl (hfin hf)
  woken := fun hw => absurd hw (by simp [h.woken])
  lastPoll := hlast

/-- The worker inside the poll is alone, and the poll has not ended. -/
theorem alone {r : Role V} {R : Multiset (Role V)} {finished : Bool}
    (h : (((([r] : List (Role V)) : Multiset (Role V)) + R).card) + ind finished ≤ 1) :
    R = 0 ∧ finished = false := by
  rw [Multiset.card_add, Multiset.coe_card, List.length_singleton] at h
  refine ⟨Multiset.card_eq_zero.mp (by omega), ?_⟩
  cases finished with
  | false => rfl
  | true => rw [ind_true] at h; omega

/-- **One step keeps the handover**, given that one worker at most is inside the poll and none
after its end. -/
theorem Step.inv {v v' : View V} {rs rs' : List (Role V)} (h : Step v rs v' rs')
    (R : Multiset (Role V)) (hone : (↑rs + R).card + ind v.finished ≤ 1)
    (hone' : (↑rs' + R).card + ind v'.finished ≤ 1) (hI : Inv v (↑rs + R)) :
    Inv v' (↑rs' + R) := by
  have ⟨hfresh, hrole, hwait, hpub, hend, hfin, hwok, hlast⟩ := hI
  cases h with
  | stutter => exact hI
  | create _ root h =>
    obtain ⟨hrs, rfl⟩ := add_eq_zero.mp (hfresh h)
    rw [hrs]
    exact inv_blank _ _ _
  | start h =>
    obtain ⟨rfl, hf⟩ := alone hone'
    have hs : v.stored = false := by
      by_contra hs
      have hend := hend (by simpa using hs)
      simp [hf] at hend
    exact (hwait hs).inv hs (by simp [h]) (by simpa [Role.Ok] using hs) (by simp [hf]) hlast
  | suspend =>
    obtain ⟨rfl, hf⟩ := alone hone
    have hs : v.stored = false := hrole .running (by simp)
    exact (hwait hs).inv hs (by simp) (by simp) (by simp [hf]) hlast
  | ret u h =>
    obtain ⟨rfl, hf⟩ := alone hone
    have hs : v.stored = false := hrole .running (by simp)
    have ⟨h1, h2, h3, h4, h5, h6⟩ := hwait hs
    exact Waiting.inv ⟨h1, h2, h3, h4, h5, h6⟩ hs (by simpa using hfresh)
      (by simp [Role.Ok, hs, h]) (by simp [hf]) hlast
  | retRoot u h =>
    obtain ⟨rfl, hf⟩ := alone hone
    have hs : v.stored = false := hrole .running (by simp)
    have ⟨h1, h2, h3, h4, h5, h6⟩ := hwait hs
    exact Waiting.inv ⟨h1, h2, h3, h4, h5, h6⟩ hs (by simpa using hfresh)
      (by simp [Role.Ok, hs, h]) (by simp [hf]) hlast
  | panic =>
    obtain ⟨rfl, hf⟩ := alone hone
    have hs : v.stored = false := hrole .running (by simp)
    have ⟨h1, h2, h3, h4, h5, h6⟩ := hwait hs
    exact Waiting.inv ⟨h1, h2, h3, h4, h5, h6⟩ hs (by simp) (by simp) (by simp) hlast
  | store u =>
    obtain ⟨rfl, hf⟩ := alone hone
    obtain ⟨hs, hr, ho⟩ := hrole (.storing u) (by simp)
    have hw := hwait hs
    refine ⟨by simpa using hfresh, by simp [Role.Ok, hr], by simp, fun _ => ?_,
      fun _ => Or.inr (Or.inl (by simp)), by simp [hf], by simp [hw.woken], hlast⟩
    exact ⟨⟨u, ho, Or.inl ⟨by simp [View.slot, hr], hw.yielded⟩⟩, fun _ => hw.signal,
      fun _ _ => hw.waker, by simp [hw.repolled]⟩
  | signal u =>
    obtain ⟨rfl, hf⟩ := alone hone
    obtain ⟨hs, hr, ho⟩ := hrole (.signalling u) (by simp)
    have hw := hwait hs
    refine ⟨by simpa using hfresh, by simp [Role.Ok, hr], by simp, fun _ => ?_,
      fun _ => Or.inr (Or.inr (by simp)), by simp [hf], by simp [hw.woken], hlast⟩
    exact ⟨⟨u, ho, Or.inl ⟨by simp [View.slot, hr], hw.yielded⟩⟩, by simp [hr], by simp [hr],
      by simp [hw.repolled]⟩
  | unlock =>
    obtain ⟨rfl, hf⟩ := alone hone
    obtain ⟨hs, hr⟩ := hrole .unlocking (by simp)
    have ⟨h1, h2, h3, h4⟩ := hpub hs
    exact ⟨by simp, by simp, by simp [hs], fun _ => ⟨h1, h2, h3, h4⟩, by simp,
      fun _ => Or.inr ⟨hs, fun _ => rfl⟩, by simp, hlast⟩
  | notify =>
    obtain ⟨rfl, hf⟩ := alone hone
    obtain ⟨hs, hr⟩ := hrole .notifying (by simp)
    have ⟨h1, h2, h3, h4⟩ := hpub hs
    exact ⟨by simp, by simp, by simp [hs], fun _ => ⟨h1, h2, h3, h4⟩, by simp,
      fun _ => Or.inr ⟨hs, by simp [hr]⟩, by simp, hlast⟩
  | yield _ p w u hr h =>
    -- a value in the slot has been stored
    have hs : v.stored = true := by
      by_contra hs
      simp [(hwait (by simpa using hs)).result] at h
    obtain ⟨ho, hy⟩ := (hpub hs).of_slot (u := u) (by simp [View.slot, hr, h])
    obtain ⟨-, h2, h3, -⟩ := hpub hs
    refine ⟨hfresh, hrole, by simp [hs], fun _ => ?_, hend, hfin, hwok, by simp [hr]⟩
    exact ⟨⟨u, ho, Or.inr ⟨by simp [View.slot, hr], by simp [hy]⟩⟩, h2, h3, by simp⟩
  | pend _ p w hr h =>
    have hlast' : ∀ q, some (⟨p, w, false⟩ : JoinPoll) = some q →
        v.root = false ∧ (q.ready = false → some w = some q.waker) := by
      rintro q ⟨⟩
      exact ⟨hr, fun _ => rfl⟩
    by_cases hs : v.stored = true
    · -- the value has been handed out already
      obtain ⟨u, ho, hy⟩ := (hpub hs).of_empty (by simp [View.slot, hr, h])
      refine ⟨hfresh, hrole, by simp [hs], fun _ => ?_, hend, hfin, hwok, hlast'⟩
      exact ⟨⟨u, ho, Or.inr ⟨by simp [View.slot, hr, h], hy⟩⟩, (hpub hs).other, by simp [hy],
        by simp [hy]⟩
    · have hs : v.stored = false := by simpa using hs
      have ⟨h1, h2, h3, h4, h5, h6⟩ := hwait hs
      exact Waiting.inv ⟨h1, h2, h3, h4, by simp [h3, h5], rfl⟩ hs hfresh hrole
        (fun hf => (hfin hf).resolve_right (by simp [hs])) hlast'
  | take _ u h =>
    have hs : v.stored = true := by
      by_contra hs
      simp [(hwait (by simpa using hs)).signal] at h
    have hr : v.root = true := by
      by_contra hr
      simp [(hpub hs).other (by simpa using hr)] at h
    obtain ⟨ho, hy⟩ := (hpub hs).of_slot (u := u) (by simp [View.slot, hr, h])
    refine ⟨hfresh, hrole, by simp [hs], fun _ => ?_, hend, hfin, hwok, hlast⟩
    exact ⟨⟨u, ho, Or.inr ⟨by simp [View.slot, hr], by simp [hy]⟩⟩, by simp [hr], by simp [hr],
      by simp⟩

/-- The awaiter has been released: the caller of `block_on` finds or has found the value in its
slot, and the waker of the handle's latest pending poll has been taken and woken. -/
def Released (v : View V) : Prop :=
  if v.root then v.signal ≠ none ∨ v.yielded ≠ []
  else ∀ w, v.lastPending = some w → v.taken = some w ∧ v.woken = true

/-- **The end of a poll that has not panicked releases the awaiter**, unless the handle was polled
after it had yielded the value. -/
theorem Inv.released {v : View V} {rs : Multiset (Role V)} (hI : Inv v rs)
    (hf : v.finished = true) (hp : v.panicked = false) (hr : v.repolled = false) : Released v := by
  obtain ⟨hs, hw⟩ := (hI.finished hf).resolve_left (by simp [hp])
  have hpub := hI.published hs
  unfold Released
  split_ifs with hroot
  · obtain ⟨u, -, ⟨hslot, -⟩ | ⟨-, hy⟩⟩ := hpub.value
    · refine Or.inl ?_
      rw [View.slot, if_pos hroot] at hslot
      simp [hslot]
    · exact Or.inr (by simp [hy])
  · have hroot : v.root = false := by simpa using hroot
    intro w hlast
    exact ⟨(hpub.taken hroot hr).trans hlast, hw hroot⟩

/-- **One value at most is handed out, and it is the one the future returned.** -/
theorem Inv.yielded {v : View V} {rs : Multiset (Role V)} (hI : Inv v rs) :
    v.yielded.length ≤ 1 ∧ ∀ u ∈ v.yielded, v.output = some u := by
  by_cases hs : v.stored = true
  · obtain ⟨u, ho, ⟨-, hy⟩ | ⟨-, hy⟩⟩ := (hI.published hs).value
    · simp [hy]
    · simp [hy, ho]
  · simp [(hI.waiting (by simpa using hs)).yielded]

/-- A pending poll of the handle left the waker that the wrapper took, if the value is still to
be handed out. -/
theorem Inv.taken_of_lastPoll {v : View V} {rs : Multiset (Role V)} (hI : Inv v rs)
    (hs : v.stored = true) (hy : v.yielded = []) {p : JoinPoll} (hp : v.lastPoll = some p)
    (hready : p.ready = false) : v.taken = some p.waker := by
  have hpub := hI.published hs
  obtain ⟨hr, hlast⟩ := hI.lastPoll p hp
  have hrep : v.repolled = false := by
    by_contra hrep
    exact hpub.repolled (by simpa using hrep) hy
  rw [hpub.taken hr hrep]
  exact hlast hready

end Handover

end MiniAsync.MultiThread
