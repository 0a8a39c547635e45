/-
  The ready queues of the two runtimes (`executor.rs`, `multi_thread/executor.rs`).

  Each keeps a queue of ids and a set of the same ids; one is emptied by `drain` as
  a whole, the other by `dequeue` from its front. Both stand for a queue without
  duplicates (`Sim`), and each call is one of its calls (`Sim.step`), so that they
  have its laws in every state they can get into (`ready_queues_agree`).
-/
import MiniAsync.Queue.Distinct
import MiniAsync.SingleThread.Executor
import Mathlib.Data.Finset.Basic
import Mathlib.Data.Finset.Dedup

namespace MiniAsync

open Queue Trace

/-- The two fields of a ready queue stand for the queue `a`. -/
structure Stands (queue : List ℕ) (set : Finset ℕ) (a : DistinctQueue ℕ) : Prop where
  queue_eq : queue = a.elems
  set_eq : set = a.elems.toFinset

theorem Stands.empty : Stands [] ∅ DistinctQueue.empty := ⟨rfl, rfl⟩

section Stands

variable {queue : List ℕ} {set : Finset ℕ} {a : DistinctQueue ℕ} {x : ℕ}

theorem Stands.mem_iff (ha : Stands queue set a) : x ∈ set ↔ x ∈ a.elems := by
  rw [ha.set_eq, List.mem_toFinset]

/-- The insertion that both queues make: the set is asked, and a new id goes to the back. -/
theorem Stands.insert (ha : Stands queue set a) (x : ℕ) :
    Stands (if x ∈ set then queue else queue ++ [x]) (if x ∈ set then set else insert x set)
      (a.insert x) := by
  have helems := a.insert_elems x
  by_cases hx : x ∈ a.elems
  · rw [if_pos hx] at helems
    rw [if_pos (ha.mem_iff.mpr hx), if_pos (ha.mem_iff.mpr hx)]
    exact ⟨helems ▸ ha.queue_eq, helems ▸ ha.set_eq⟩
  · rw [if_neg hx] at helems
    rw [if_neg (mt ha.mem_iff.mp hx), if_neg (mt ha.mem_iff.mp hx)]
    refine ⟨by rw [helems, ha.queue_eq], ?_⟩
    rw [helems, ha.set_eq]
    ext y
    rw [Finset.mem_insert, List.mem_toFinset, List.mem_toFinset, List.mem_append,
      List.mem_singleton, or_comm]

end Stands

/-! ### The single-threaded queue -/

namespace SingleThread.ReadyQueue

/-- The calls of the queue, with the ids that come out. -/
def step (q : ReadyQueue) : Op TaskId → Option (List TaskId × ReadyQueue)
  | .insert x => some ([], q.push x)
  | .removeAll => some q.drain
  | .removeFirst => none

abbrev system : System ReadyQueue (Op TaskId) (List TaskId) := ofFn step

abbrev Sim (q : ReadyQueue) (a : DistinctQueue ℕ) : Prop := Stands q.queue q.set a

variable {q q' : ReadyQueue} {a : DistinctQueue ℕ}

theorem push_eq (q : ReadyQueue) (x : TaskId) :
    q.push x = ⟨if x ∈ q.set then q.queue else q.queue ++ [x],
      if x ∈ q.set then q.set else insert x q.set⟩ := by
  unfold push
  split_ifs <;> rfl

theorem Sim.push (hsim : q.Sim a) (x : TaskId) : (q.push x).Sim (a.insert x) := by
  rw [push_eq]
  exact hsim.insert x

theorem Sim.step {o : Op ℕ} {xs : List ℕ} (hsim : q.Sim a) (hs : q.step o = some (xs, q')) :
    ∃ a', a.step o = some (xs, a') ∧ q'.Sim a' := by
  cases o with
  | insert x =>
    cases hs
    exact ⟨a.insert x, rfl, hsim.push x⟩
  | removeFirst => cases hs
  | removeAll =>
    cases hs
    exact ⟨.empty, by rw [hsim.queue_eq]; rfl, .empty⟩

end SingleThread.ReadyQueue

/-! ### The multi-threaded queue -/

namespace MultiThread.ReadyQueue

/-- The calls of the queue, with the ids that come out. -/
def step (q : ReadyQueue) : Op ℕ → Option (List ℕ × ReadyQueue)
  | .insert x => some ([], q.enqueue x)
  | .removeFirst =>
    let (id, q) := q.dequeue
    some (id.toList, q)
  | .removeAll => none

abbrev system : System ReadyQueue (Op ℕ) (List ℕ) := ofFn step

/-- `dequeue` until it returns `None`, with at most `n` calls. -/
def dequeueAll : ℕ → ReadyQueue → Option (List ℕ × ReadyQueue)
  | 0, _ => none
  | n + 1, q =>
    match q.dequeue with
    | (none, q) => some ([], q)
    | (some id, q) =>
      match dequeueAll n q with
      | none => none
      | some (ids, q) => some (id :: ids, q)

abbrev Sim (q : ReadyQueue) (a : DistinctQueue ℕ) : Prop := Stands q.queue q.pending a

variable {q q' : ReadyQueue} {a : DistinctQueue ℕ}

theorem enqueue_eq (q : ReadyQueue) (x : ℕ) :
    q.enqueue x = ⟨if x ∈ q.pending then q.queue else q.queue ++ [x],
      if x ∈ q.pending then q.pending else insert x q.pending⟩ := by
  unfold enqueue
  split_ifs <;> rfl

/-- The front of the queue leaves both fields. -/
theorem Sim.dequeue_cons {x : ℕ} {l : List ℕ} {hnd : (x :: l).Nodup} (hsim : q.Sim ⟨x :: l, hnd⟩) :
    q.dequeue = (some x, ⟨l, l.toFinset⟩) := by
  have hset : q.pending.erase x = l.toFinset := by
    rw [hsim.set_eq, List.toFinset_cons, Finset.erase_insert]
    exact mt List.mem_toFinset.mp (List.nodup_cons.mp hnd).1
  simp only [dequeue, hsim.queue_eq, hset]

theorem Sim.dequeue_nil {hnd : ([] : List ℕ).Nodup} (hsim : q.Sim ⟨[], hnd⟩) :
    q.dequeue = (none, new) := by
  have hq : q = new := by
    obtain ⟨queue, pending⟩ := q
    obtain ⟨rfl, rfl⟩ := hsim
    rfl
  rw [hq]
  rfl

theorem Sim.step {o : Op ℕ} {xs : List ℕ} (hsim : q.Sim a) (hs : q.step o = some (xs, q')) :
    ∃ a', a.step o = some (xs, a') ∧ q'.Sim a' := by
  cases o with
  | insert x =>
    cases hs
    refine ⟨a.insert x, rfl, ?_⟩
    rw [enqueue_eq]
    exact hsim.insert x
  | removeFirst =>
    obtain ⟨_ | ⟨x, l⟩, hnd⟩ := a
    · rw [ReadyQueue.step, hsim.dequeue_nil] at hs
      cases hs
      exact ⟨.empty, rfl, .empty⟩
    · rw [ReadyQueue.step, hsim.dequeue_cons] at hs
      cases hs
      exact ⟨⟨l, hnd.of_cons⟩, rfl, rfl, rfl⟩
  | removeAll => cases hs

/-- With one call more than there are ids the queue is empty, and its ids have come out in order. -/
theorem Sim.dequeueAll {n : ℕ} (hsim : q.Sim a) (hn : a.elems.length < n) :
    q.dequeueAll n = some (a.elems, new) := by
  obtain ⟨l, hnd⟩ := a
  induction l generalizing q n with
  | nil =>
    obtain ⟨n, rfl⟩ := Nat.exists_eq_succ_of_ne_zero (Nat.ne_of_gt hn)
    rw [ReadyQueue.dequeueAll, hsim.dequeue_nil]
  | cons x l ih =>
    obtain ⟨n, rfl⟩ := Nat.exists_eq_succ_of_ne_zero (Nat.ne_of_gt (Nat.zero_lt_of_lt hn))
    have hrest : ReadyQueue.dequeueAll n ⟨l, l.toFinset⟩ = some (l, new) :=
      ih hnd.of_cons ⟨rfl, rfl⟩ (Nat.lt_of_succ_lt_succ hn)
    rw [ReadyQueue.dequeueAll, hsim.dequeue_cons]
    simp only [hrest]

end MultiThread.ReadyQueue

/-! ### What the two queues have in common -/

/-- What is true of the fields of a ready queue, and of what `is_empty` returns, after the
insertions and removals `h`. -/
structure Fifo (h : List (Event ℕ)) (queue : List ℕ) (set : Finset ℕ) (isEmpty : Bool) : Prop where
  set_eq : set = queue.toFinset
  nodup : queue.Nodup
  isEmpty_queue : isEmpty = true ↔ queue = []
  isEmpty_set : isEmpty = true ↔ set = ∅
  inOrder : InOrder h queue

theorem Stands.fifo {h : List (Op ℕ × List ℕ)} {queue : List ℕ} {set : Finset ℕ}
    {a : DistinctQueue ℕ} (ha : Stands queue set a) (hr : Run (DistinctQueue.system ℕ) .empty h a) :
    Fifo (DistinctQueue.events h) queue set queue.isEmpty := by
  obtain ⟨rfl, rfl⟩ := ha
  refine ⟨rfl, a.nodup, List.isEmpty_iff, ?_, DistinctQueue.run_inOrder hr⟩
  rw [List.isEmpty_iff, List.toFinset_eq_empty_iff]

/-- A queue that begins empty, each of whose calls is a call of the queue that it stands for. -/
structure Implements {σ : Type} (step : σ → Op ℕ → Option (List ℕ × σ)) (queue : σ → List ℕ)
    (set : σ → Finset ℕ) (new : σ) : Prop where
  new : Stands (queue new) (set new) .empty
  step : ∀ {q q' : σ} {a : DistinctQueue ℕ} {o : Op ℕ} {xs : List ℕ}, Stands (queue q) (set q) a →
    step q o = some (xs, q') → ∃ a', a.step o = some (xs, a') ∧ Stands (queue q') (set q') a'

namespace Implements

variable {σ : Type} {step : σ → Op ℕ → Option (List ℕ × σ)} {queue : σ → List ℕ}
  {set : σ → Finset ℕ} {new q : σ} {h : List (Op ℕ × List ℕ)}

theorem exists_stands (himpl : Implements step queue set new) (hr : Run (ofFn step) new h q) :
    ∃ a, Run (DistinctQueue.system ℕ) .empty h a ∧ Stands (queue q) (set q) a :=
  hr.simulate himpl.new fun _ _ _ _ _ hstands hs => himpl.step hstands hs

/-- After any calls the fields are those of a queue without duplicates, and a removal takes out what
stands in front. -/
theorem fifo (himpl : Implements step queue set new) (hr : Run (ofFn step) new h q) :
    Fifo (DistinctQueue.events h) (queue q) (set q) (queue q).isEmpty ∧
      ∀ o xs q', step q o = some (xs, q') → (∀ x, o ≠ .insert x) → queue q = xs ++ queue q' := by
  obtain ⟨a, hra, hstands⟩ := himpl.exists_stands hr
  refine ⟨hstands.fifo hra, fun o xs q' hs ho => ?_⟩
  obtain ⟨a', hs', hstands'⟩ := himpl.step hstands hs
  rw [hstands.queue_eq, hstands'.queue_eq]
  exact DistinctQueue.elems_eq_append hs' ho

end Implements

theorem SingleThread.ReadyQueue.implements :
    Implements SingleThread.ReadyQueue.step SingleThread.ReadyQueue.queue
      SingleThread.ReadyQueue.set .new :=
  ⟨.empty, Sim.step⟩

theorem MultiThread.ReadyQueue.implements :
    Implements MultiThread.ReadyQueue.step MultiThread.ReadyQueue.queue
      MultiThread.ReadyQueue.pending .new :=
  ⟨.empty, Sim.step⟩

/-- **The two ready queues are the same queue without duplicates.** After any calls from `new` the
set of either has the ids of its queue, no id is queued twice, `is_empty` tells whether the fields
are empty, and the queue has the ids that are inserted and not removed, in the order of their first
insertions since they were last removed; what a call takes out is what stands in front. Draining the
one gives the ids that dequeuing the other until `None` gives if the two hold the same, and leaves
both empty. -/
theorem ready_queues_agree :
    (∀ h q, Run SingleThread.ReadyQueue.system .new h q →
      Fifo (DistinctQueue.events h) q.queue q.set q.isEmpty ∧
        ∀ o xs q', q.step o = some (xs, q') → (∀ x, o ≠ .insert x) → q.queue = xs ++ q'.queue) ∧
    (∀ h q, Run MultiThread.ReadyQueue.system .new h q →
      Fifo (DistinctQueue.events h) q.queue q.pending q.isEmpty ∧
        ∀ o xs q', q.step o = some (xs, q') → (∀ x, o ≠ .insert x) → q.queue = xs ++ q'.queue) ∧
    ∀ h h' q q', Run SingleThread.ReadyQueue.system .new h q →
      Run MultiThread.ReadyQueue.system .new h' q' → q.queue = q'.queue →
      q.drain = (q.queue, .new) ∧
        ∀ n, q'.queue.length < n → q'.dequeueAll n = some (q.drain.1, .new) := by
  refine ⟨fun h q hr => SingleThread.ReadyQueue.implements.fifo hr,
    fun h q hr => MultiThread.ReadyQueue.implements.fifo hr,
    fun h h' q q' hr hr' heq => ⟨rfl, fun n hn => ?_⟩⟩
  obtain ⟨a, -, hsim⟩ := MultiThread.ReadyQueue.implements.exists_stands hr'
  have hdrain : q.drain.1 = a.elems := heq.trans hsim.queue_eq
  rw [hdrain]
  exact MultiThread.ReadyQueue.Sim.dequeueAll hsim (hsim.queue_eq ▸ hn)

/-- Both queues hold `1` and `2`: the one after a `drain` of `3` and `1`, the other after a
`dequeue` of `3` and a second insertion of `1`. -/
theorem ready_queues_agree_refilled :
    ∃ h h' q q', Run SingleThread.ReadyQueue.system .new h q ∧
      Run MultiThread.ReadyQueue.system .new h' q' ∧ q.queue = [1, 2] ∧ q'.queue = [1, 2] ∧
      InOrder (DistinctQueue.events h) q.queue ∧ InOrder (DistinctQueue.events h') q'.queue ∧
      q.drain = ([1, 2], .new) ∧ q'.dequeueAll 3 = some ([1, 2], .new) := by
  obtain ⟨h, q, hr, hq⟩ := exists_run_of_exec
    (f := SingleThread.ReadyQueue.step) (s := .new)
    [.insert 3, .insert 1, .insert 3, .removeAll, .insert 1, .insert 2]
    (fun p => p.2.queue = [1, 2]) (by decide)
  obtain ⟨h', q', hr', hq'⟩ := exists_run_of_exec
    (f := MultiThread.ReadyQueue.step) (s := .new)
    [.insert 3, .insert 1, .insert 2, .removeFirst, .insert 1]
    (fun p => p.2.queue = [1, 2]) (by decide)
  dsimp only at hq hq'
  obtain ⟨hst, hmt, hagree⟩ := ready_queues_agree
  obtain ⟨hdrain, hdequeue⟩ := hagree h h' q q' hr hr' (hq.trans hq'.symm)
  have hthree := hdequeue 3 (by rw [hq']; decide)
  rw [hdrain, hq] at hthree
  rw [hq] at hdrain
  exact ⟨h, h', q, q', hr, hr', hq, hq', (hst h q hr).1.inOrder, (hmt h' q' hr').1.inOrder, hdrain,
    hthree⟩

end MiniAsync
