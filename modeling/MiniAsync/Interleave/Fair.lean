/-
  Fair runs of a machine.

  In an infinite run the moves of the threads are interleaved in any way, so
  without more a thread may never move again. A run is `Fair`, for a notion of
  when a thread can go on, if a thread that can go on again and again moves again
  and again. With mutexes this says more than that the scheduler forgets nobody:
  a thread that waits for a mutex can go on only now and then.

  A thread's stack changes by its own moves only. So a thread that stands
  somewhere stays there until it moves, and if it can go on from there again and
  again then it does move (`Fair.moves`).
-/
import MiniAsync.Interleave.Machine
import MiniAsync.Trace.Infinite

namespace MiniAsync.Interleave

open Trace

variable {σ φ χ : Type*} {M : Machine σ φ χ} {c₀ : Config σ φ} {c : ℕ → Config σ φ}
  {a : ℕ → ℕ × χ}

/-- A machine as a system: an operation is the move of a thread with its choice. -/
def Machine.system (M : Machine σ φ χ) : System (Config σ φ) (ℕ × χ) Unit :=
  ofStep fun c a => M.step c a.1 a.2

section Runs

variable (h : Infinite M.system c₀ c a)
include h

theorem step_of_infinite (k : ℕ) : M.step (c k) (a k).1 (a k).2 = some (c (k + 1)) := by
  obtain ⟨_, hs⟩ := h.step k
  exact hs

theorem reaches_of_le {k l : ℕ} (hle : k ≤ l) : M.Reaches (c k) (c l) := by
  induction l, hle using Nat.le_induction with
  | base => exact .refl
  | succ l _ ih => exact .step ih trivial (step_of_infinite h l)

theorem reaches_of_infinite (k : ℕ) : M.Reaches c₀ (c k) := by
  have hr := reaches_of_le h (Nat.zero_le k)
  rw [h.start] at hr
  exact hr

/-- The stack of a thread changes by its own moves only. -/
theorem threads_of_ne {i k : ℕ} (hne : (a k).1 ≠ i) :
    (c (k + 1)).threads[i]? = (c k).threads[i]? := by
  obtain ⟨f, st, fs, R, -, -, hthreads, -, -⟩ := Machine.step_cases (step_of_infinite h k)
  rw [hthreads, List.getElem?_set_ne hne]

theorem threads_of_not_moved {i k l : ℕ} (hle : k ≤ l) (hno : ∀ j, k ≤ j → j < l → (a j).1 ≠ i) :
    (c l).threads[i]? = (c k).threads[i]? := by
  induction l, hle using Nat.le_induction with
  | base => rfl
  | succ l hkl ih =>
    rw [threads_of_ne h (hno l hkl (Nat.lt_succ_self l))]
    exact ih fun j hj hlt => hno j hj (Nat.lt_succ_of_lt hlt)

end Runs

/-- The first move of a thread from the place `k` on. -/
theorem exists_first_move {i k : ℕ} (h : ∃ l, k ≤ l ∧ (a l).1 = i) :
    ∃ l, k ≤ l ∧ (a l).1 = i ∧ ∀ j, k ≤ j → j < l → (a j).1 ≠ i := by
  classical
  obtain ⟨hk, hl⟩ := Nat.find_spec h
  exact ⟨Nat.find h, hk, hl, fun j hj hlt heq => Nat.find_min h hlt ⟨hj, heq⟩⟩

/-- A thread that can go on again and again moves again and again. -/
def Fair (can : Config σ φ → ℕ → Prop) (c : ℕ → Config σ φ) (a : ℕ → ℕ × χ) : Prop :=
  ∀ i, (∀ k, ∃ l, k ≤ l ∧ can (c l) i) → ∀ k, ∃ l, k ≤ l ∧ (a l).1 = i

/-- **Rule of fairness.** A thread that can go on again and again for as long as its stack is `st`
moves with the stack `st`. -/
theorem Fair.moves (h : Infinite M.system c₀ c a) {can : Config σ φ → ℕ → Prop}
    (hf : Fair can c a) {i k : ℕ} {st : List φ} (hst : (c k).threads[i]? = some st)
    (hcan : (∀ l, k ≤ l → (c l).threads[i]? = some st) →
      ∀ l, k ≤ l → ∃ l', l ≤ l' ∧ can (c l') i) :
    ∃ l, k ≤ l ∧ (a l).1 = i ∧ (c l).threads[i]? = some st := by
  have hmove : ∃ l, k ≤ l ∧ (a l).1 = i := by
    by_contra hno
    push Not at hno
    -- the thread stays, so it can go on again and again
    have hstay : ∀ l, k ≤ l → (c l).threads[i]? = some st := fun l hl =>
      (threads_of_not_moved h hl fun j hj _ => hno j hj).trans hst
    obtain ⟨l, hl, hi⟩ := hf i (fun l => by
      obtain ⟨l', hl', hc⟩ := hcan hstay (max k l) (Nat.le_max_left k l)
      exact ⟨l', (Nat.le_max_right k l).trans hl', hc⟩) k
    exact hno l hl hi
  obtain ⟨l, hl, hi, hfirst⟩ := exists_first_move hmove
  exact ⟨l, hl, hi, (threads_of_not_moved h hl hfirst).trans hst⟩

end MiniAsync.Interleave
