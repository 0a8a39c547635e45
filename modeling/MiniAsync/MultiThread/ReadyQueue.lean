/-
  The ready queue of the multi-threaded executor (`multi_thread/executor.rs`):
  a FIFO queue of task ids with a set of the ids that are in it, so that an id
  is queued at most once.
-/
import Mathlib.Data.Finset.Insert
import Mathlib.Data.Finset.Erase
import Mathlib.Data.List.Nodup
import Mathlib.Tactic.Common

namespace MiniAsync.MultiThread

/-- `ReadyQueue`: the `VecDeque` of queued ids and the `HashSet` of the same ids. -/
structure ReadyQueue where
  queue : List ℕ
  pending : Finset ℕ
deriving DecidableEq

namespace ReadyQueue

def new : ReadyQueue := ⟨[], ∅⟩

/-- The id goes to the back unless `pending` has it already. -/
def enqueue (q : ReadyQueue) (taskId : ℕ) : ReadyQueue :=
  if taskId ∈ q.pending then q
  else ⟨q.queue ++ [taskId], insert taskId q.pending⟩

def dequeue (q : ReadyQueue) : Option ℕ × ReadyQueue :=
  match q.queue with
  | id :: rest => (some id, ⟨rest, q.pending.erase id⟩)
  | [] => (none, q)

def isEmpty (q : ReadyQueue) : Bool := q.queue.isEmpty

/-- The two fields hold the same ids, each once. -/
structure WF (q : ReadyQueue) : Prop where
  nodup : q.queue.Nodup
  mem_iff : ∀ x, x ∈ q.queue ↔ x ∈ q.pending

@[simp] theorem new_queue : new.queue = [] := rfl

@[simp] theorem isEmpty_iff (q : ReadyQueue) : q.isEmpty = true ↔ q.queue = [] := by
  simp [isEmpty]

@[simp] theorem isEmpty_eq_false_iff (q : ReadyQueue) : q.isEmpty = false ↔ q.queue ≠ [] := by
  simp [isEmpty]

theorem new_wf : new.WF := ⟨List.nodup_nil, fun x => by simp [new]⟩

theorem enqueue_wf {q : ReadyQueue} (h : q.WF) (x : ℕ) : (q.enqueue x).WF := by
  unfold enqueue
  split_ifs with hx
  · exact h
  · have hq : x ∉ q.queue := fun hm => hx ((h.mem_iff x).mp hm)
    refine ⟨?_, fun y => ?_⟩
    · exact List.nodup_append.mpr ⟨h.nodup, List.nodup_singleton x, fun a ha b hb => by
        rw [List.mem_singleton] at hb
        rintro rfl
        exact hq (hb ▸ ha)⟩
    · rw [List.mem_append, List.mem_singleton, Finset.mem_insert, h.mem_iff]
      exact or_comm

theorem dequeue_wf {q : ReadyQueue} (h : q.WF) : q.dequeue.2.WF := by
  unfold dequeue
  split
  · rename_i id rest hq
    have hnd := h.nodup
    rw [hq, List.nodup_cons] at hnd
    refine ⟨hnd.2, fun y => ?_⟩
    rw [Finset.mem_erase, ← h.mem_iff y, hq, List.mem_cons]
    constructor
    · intro hy
      exact ⟨fun e => hnd.1 (e ▸ hy), Or.inr hy⟩
    · rintro ⟨hne, rfl | hy⟩
      · exact absurd rfl hne
      · exact hy
  · exact h

theorem dequeue_eq_some {q q' : ReadyQueue} {x : ℕ} (h : q.dequeue = (some x, q')) :
    q.queue = x :: q'.queue := by
  unfold dequeue at h
  split at h
  · rename_i id rest hq
    simp only [Prod.mk.injEq, Option.some.injEq] at h
    obtain ⟨rfl, rfl⟩ := h
    exact hq
  · simp at h

theorem dequeue_eq_none {q q' : ReadyQueue} (h : q.dequeue = (none, q')) :
    q' = q ∧ q.queue = [] := by
  unfold dequeue at h
  split at h
  · simp at h
  · rename_i hq
    simp only [Prod.mk.injEq, true_and] at h
    exact ⟨h.symm, hq⟩

/-- In a well-formed queue the present case of `enqueue` is the one where the id is queued. -/
theorem enqueue_queue {q : ReadyQueue} (h : q.WF) (x : ℕ) :
    (q.enqueue x).queue = if x ∈ q.queue then q.queue else q.queue ++ [x] := by
  unfold enqueue
  by_cases hx : x ∈ q.queue
  · rw [if_pos ((h.mem_iff x).mp hx), if_pos hx]
  · rw [if_neg (fun hm => hx ((h.mem_iff x).mpr hm)), if_neg hx]

theorem mem_enqueue {q : ReadyQueue} (h : q.WF) {x y : ℕ} (hy : y ∈ (q.enqueue x).queue) :
    y ∈ q.queue ∨ y = x := by
  rw [enqueue_queue h] at hy
  split_ifs at hy
  · exact Or.inl hy
  · simpa using hy

theorem length_enqueue_le (q : ReadyQueue) (x : ℕ) :
    (q.enqueue x).queue.length ≤ q.queue.length + 1 := by
  unfold enqueue
  split_ifs
  · exact Nat.le_succ _
  · simp

end ReadyQueue

end MiniAsync.MultiThread
