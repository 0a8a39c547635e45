/-
  The timer wheel of the multi-threaded runtime (`multi_thread/timer.rs`), with its
  methods called one at a time.

  New timers wait in the inbox until the next `process`, and the waker of a timer
  is kept in an `AtomicWaker`. `Sleep::poll` and `AtomicWaker::wake` are the calls
  of `AtomicWaker.lean`, run with nothing in between; their weak compare-and-swaps
  may still fail spuriously, as the flags say.

  The wheel refines the abstract timers as the single-threaded one does
  (`Sim.step`), so the two agree at every step (`wheels_agree`).
-/
import MiniAsync.SingleThread.Timer
import MiniAsync.Trace.Solo

namespace MiniAsync.MultiThread

open Heap Timer Trace

variable {W : Type}

/-! ### An `AtomicWaker` between calls -/

/-- The cell when no call is under way. -/
def AtomicWaker.rest : Option W → AtomicWaker W
  | none => ⟨.empty, none⟩
  | some w => ⟨.stored, some w⟩

/-- What holds along a lone `wake` of a cell that holds `w`: the cell is full until it is claimed,
and then the waker moves into the call. -/
def AtomicWaker.Waking (w : W) (cell : AtomicWaker W) : WakePc W → Prop
  | .cas => cell = rest (some w)
  | .take => cell.waker = some w
  | .store w' => w' = some w ∧ cell.waker = none

/-- `wake` takes the waker out of the cell. -/
theorem AtomicWaker.solo_wake {o r : Option W} {cell : AtomicWaker W} {flags : List Bool}
    (hs : solo AtomicWaker.wake flags (rest o) .cas = some (r, cell)) :
    r = o ∧ cell = rest none := by
  cases o with
  | none =>
    cases flags with
    | nil => cases hs
    | cons flag flags =>
      cases hs
      exact ⟨rfl, rfl⟩
  | some w =>
    have hfull : Waking w (rest (some w)) .cas := rfl
    refine solo_rule (P := fun r cell => r = some w ∧ cell = rest none) ?_ ?_ hfull hs
    · intro cell flag pc cell' pc' hI hacc
      cases pc with
      | cas =>
        obtain rfl : cell = rest (some w) := hI
        cases flag <;> cases hacc <;> rfl
      | take =>
        cases hacc
        exact ⟨hI, rfl⟩
      | store w' => cases hacc
    · intro cell flag pc cell' r hI hacc
      cases pc with
      | cas =>
        obtain rfl : cell = rest (some w) := hI
        cases flag <;> cases hacc
      | take => cases hacc
      | store w' =>
        cases hacc
        exact ⟨hI.1, congrArg (AtomicWaker.mk .empty) hI.2⟩

/-- Without spurious failures `wake` returns. -/
theorem AtomicWaker.solo_wake_isSome (o : Option W) :
    (solo AtomicWaker.wake [false, false, false] (rest o) .cas).isSome = true := by
  cases o <;> rfl

/-- A poll of a timer that is completed. -/
theorem TimerState.solo_poll_completed {o : Option W} {w : W} {p : Poll Unit} {st : TimerState W}
    {flags : List Bool}
    (hs : solo (fun st flag pc => st.poll w flag pc) flags ⟨true, .rest o⟩ .load = some (p, st)) :
    p = .ready () ∧ st = ⟨true, .rest o⟩ := by
  cases flags with
  | nil => cases hs
  | cons flag flags =>
    cases hs
    exact ⟨rfl, rfl⟩

/-- A poll of a timer that is not completed stores its waker. -/
theorem TimerState.solo_poll_pending {o : Option W} {w : W} {p : Poll Unit} {st : TimerState W}
    {flags : List Bool}
    (hs : solo (fun st flag pc => st.poll w flag pc) flags ⟨false, .rest o⟩ .load = some (p, st)) :
    p = .pending ∧ st = ⟨false, .rest (some w)⟩ := by
  refine solo_rule (I := fun (st : TimerState W) pc => st.completed = false ∧ match pc with
    | .load | .register .casEmpty | .register .casStored => st.waker = .rest o
    | .register .write => True
    | .register .store => st.waker.waker = some w
    | .reload => st.waker = .rest (some w))
    (P := fun p st => p = .pending ∧ st = ⟨false, .rest (some w)⟩) ?_ ?_ ⟨rfl, rfl⟩ hs
  · rintro ⟨completed, cell⟩ flag pc st' pc' ⟨hc, hI⟩ hacc
    cases hc
    cases pc with
    | load =>
      cases hacc
      exact ⟨rfl, hI⟩
    | register pc =>
      cases pc with
      | casEmpty =>
        cases hI
        cases o <;> cases flag <;> cases hacc <;> exact ⟨rfl, by trivial⟩
      | casStored =>
        cases hI
        cases o <;> cases flag <;> cases hacc <;> exact ⟨rfl, by trivial⟩
      | write =>
        cases hacc
        exact ⟨rfl, rfl⟩
      | store =>
        cases hacc
        exact ⟨rfl, congrArg (AtomicWaker.mk .stored) hI⟩
    | reload => cases hacc
  · rintro ⟨completed, cell⟩ flag pc st' r ⟨hc, hI⟩ hacc
    cases hc
    cases pc with
    | load => cases hacc
    | register pc =>
      cases pc with
      | casEmpty =>
        cases hI
        cases o <;> cases flag <;> cases hacc
      | casStored =>
        cases hI
        cases o <;> cases flag <;> cases hacc
      | write => cases hacc
      | store => cases hacc
    | reload =>
      cases hacc
      exact ⟨rfl, congrArg (TimerState.mk false) hI⟩

/-- Without spurious failures a poll returns. -/
theorem TimerState.solo_poll_isSome (completed : Bool) (o : Option W) (w : W) :
    (solo (fun (st : TimerState W) flag pc => st.poll w flag pc)
      [false, false, false, false, false, false] ⟨completed, .rest o⟩ .load).isSome = true := by
  cases completed <;> cases o <;> rfl

/-! ### The wheel -/

/-- `TimerWheel`, with the states of its timers. -/
structure TimerWheel (Q : MaxHeap cmp) (W : Type) where
  inbox : List TimerEntry
  heap : Q.Carrier
  state : ℕ → TimerState W
  count : ℕ

namespace TimerWheel

variable {Q : MaxHeap cmp}

def new : TimerWheel Q W := ⟨[], Q.empty, fun _ => TimerState.new, 0⟩

/-- `TimerWheel::register`. -/
def register (t : TimerWheel Q W) (deadline : ℕ) : ℕ × TimerWheel Q W :=
  (t.count, { t with
    inbox := t.inbox ++ [⟨deadline, t.count⟩]
    state := Function.update t.state t.count TimerState.new
    count := t.count + 1 })

/-- `Sleep::poll` of the timer `k`. -/
def poll (t : TimerWheel Q W) (k : ℕ) (waker : W) (flags : List Bool) :
    Option (Poll Unit × TimerWheel Q W) :=
  match solo (fun st flag pc => st.poll waker flag pc) flags (t.state k) .load with
  | none => none
  | some (p, st) => some (p, { t with state := Function.update t.state k st })

/-- The entry's timer is completed, and its `AtomicWaker` told to wake. -/
def fire (t : TimerWheel Q W) (entry : TimerEntry) (flags : List Bool) :
    Option (Option W × TimerWheel Q W) :=
  match solo AtomicWaker.wake flags (t.state entry.id).waker .cas with
  | none => none
  | some (w, cell) => some (w, { t with state := Function.update t.state entry.id ⟨true, cell⟩ })

/-- The loop of `process`, for at most `n` rounds and with the flags of its calls of `wake`: the
timers that it fires, the wakers that it calls and what it returns. -/
def processLoop (now : ℕ) :
    ℕ → List (List Bool) → TimerWheel Q W →
      Option ((List ℕ × List W × Option ℕ) × TimerWheel Q W)
  | 0, _, t => some (([], [], none), t)
  | n + 1, flags, t =>
    match Q.peek t.heap with
    | none => some (([], [], none), t)
    | some entry =>
      if entry.deadline ≤ now then
        match Q.pop t.heap with
        | none => some (([], [], none), t)
        | some (entry, heap) =>
          match fire { t with heap := heap } entry (flags.headD []) with
          | none => none
          | some (waker, t) =>
            match processLoop now n flags.tail t with
            | none => none
            | some ((fired, woken, next), t) =>
              some ((entry.id :: fired, waker.toList ++ woken, next), t)
      else some (([], [], some (entry.deadline - now)), t)

/-- The inbox is emptied into the heap. -/
def drainInbox (t : TimerWheel Q W) : TimerWheel Q W :=
  { t with heap := Q.extend t.heap t.inbox, inbox := [] }

/-- `TimerWheel::process`. -/
def process (t : TimerWheel Q W) (now : ℕ) (flags : List (List Bool)) :
    Option ((List ℕ × List W × Option ℕ) × TimerWheel Q W) :=
  processLoop now (Q.len t.drainInbox.heap + 1) flags t.drainInbox

/-- `TimerWheel::has_pending`. -/
def hasPending (t : TimerWheel Q W) : Bool := !Q.isEmpty t.heap || !t.inbox.isEmpty

/-- An operation, with the flags for the calls that it makes. -/
def step (t : TimerWheel Q W) (flags : List (List Bool)) :
    Op W → Option (Result W × TimerWheel Q W)
  | .register deadline =>
    let (k, t) := t.register deadline
    some (.registered k, t)
  | .poll k w =>
    if k < t.count then
      (t.poll k w (flags.headD [])).map fun (p, t) => (.polled p, t)
    else none
  | .process now =>
    (t.process now flags).map fun ((fired, woken, next), t) => (.processed fired woken next, t)
  | .hasPending => some (.pending t.hasPending, t)

/-- The wheel with its methods called one at a time, whatever the flags. -/
def system (Q : MaxHeap cmp) (W : Type) : System (TimerWheel Q W) (Op W) (Result W) :=
  fun t op res t' => ∃ flags, t.step flags op = some (res, t')

/-! ### The loop pops what is due, then fires it -/

/-- Fires the entries one after the other. -/
def fireAll (t : TimerWheel Q W) :
    List TimerEntry → List (List Bool) → Option (List W × TimerWheel Q W)
  | [], _ => some ([], t)
  | e :: es, flags =>
    match t.fire e (flags.headD []) with
    | none => none
    | some (w, t) =>
      match fireAll t es flags.tail with
      | none => none
      | some (woken, t) => some (w.toList ++ woken, t)

variable {t : TimerWheel Q W} {now n : ℕ}

theorem fire_heap (t : TimerWheel Q W) (heap : Q.Carrier) (e : TimerEntry) (flags : List Bool) :
    fire { t with heap := heap } e flags =
      (t.fire e flags).map fun (w, t) => (w, { t with heap := heap }) := by
  unfold fire
  dsimp only
  split <;> rfl

theorem processLoop_eq {flags : List (List Bool)} (hn : Q.len t.heap < n) :
    processLoop now n flags t =
      (fireAll { t with heap := (Q.drain (due now) n t.heap).2 }
        (Q.drain (due now) n t.heap).1 flags).map fun (woken, t') =>
          (((Q.drain (due now) n t.heap).1.map TimerEntry.id, woken,
            (Q.peek (Q.drain (due now) n t.heap).2).map (·.deadline - now)), t') := by
  induction n generalizing t flags with
  | zero => exact absurd hn (Nat.not_lt_zero _)
  | succ n ih =>
    rw [processLoop, MaxHeap.drain]
    cases hpeek : Q.peek t.heap with
    | none => simp only [fireAll, hpeek, List.map_nil, Option.map_none, Option.map_some]
    | some e =>
      by_cases hdue : e.deadline ≤ now
      · obtain ⟨heap, hpop, helems⟩ := Q.pop_peek t.heap e hpeek
        have hlen : Q.len heap < n := by
          rw [Q.len_of_elems_cons helems] at hn
          exact Nat.lt_of_succ_lt_succ hn
        simp only [hdue, if_true, hpop, due, decide_true, fireAll, fire_heap]
        cases t.fire e (flags.headD []) with
        | none => rfl
        | some r =>
          obtain ⟨w, t₁⟩ := r
          simp only [Option.map_some]
          rw [ih (t := { t₁ with heap := heap }) hlen]
          cases fireAll { t₁ with heap := (Q.drain (due now) n heap).2 }
            (Q.drain (due now) n heap).1 flags.tail <;> rfl
      · simp only [hdue, if_false, due, decide_false, Bool.false_eq_true, fireAll, hpeek,
          List.map_nil, Option.map_some]

/-- The timers are between calls, with these flags and wakers. -/
def AtRest (t : TimerWheel Q W) (completed : ℕ → Bool) (waker : ℕ → Option W) : Prop :=
  ∀ k, t.state k = ⟨completed k, .rest (waker k)⟩

variable {completed : ℕ → Bool} {waker : ℕ → Option W} {e : TimerEntry} {es : List TimerEntry}

theorem AtRest.update (ht : t.AtRest completed waker) (k : ℕ) :
    AtRest { t with state := Function.update t.state k ⟨true, .rest none⟩ }
      (Function.update completed k true) (Function.update waker k none) := by
  intro j
  rcases eq_or_ne j k with rfl | hne
  · simp
  · simp [hne, ht j]

theorem AtRest.fire {t' : TimerWheel Q W} {w : Option W} {flags : List Bool}
    (ht : t.AtRest completed waker) (hs : t.fire e flags = some (w, t')) :
    w = waker e.id ∧ t' = { t with
      state := Function.update t.state e.id ⟨true, .rest none⟩ } := by
  unfold TimerWheel.fire at hs
  rw [ht e.id] at hs
  split at hs
  · cases hs
  · rename_i w' cell hsolo
    obtain ⟨rfl, rfl⟩ := AtomicWaker.solo_wake hsolo
    cases hs
    exact ⟨rfl, rfl⟩

/-- Every entry completes its timer and calls the waker that the timer had at the start. -/
theorem AtRest.fireAll {t' : TimerWheel Q W} {woken : List W} {flags : List (List Bool)}
    (ht : t.AtRest completed waker) (hes : (es.map TimerEntry.id).Nodup)
    (hs : t.fireAll es flags = some (woken, t')) :
    woken = (es.map TimerEntry.id).filterMap waker ∧ t' = { t with
      state := fun k => if k ∈ es.map TimerEntry.id then ⟨true, .rest none⟩ else t.state k } := by
  induction es generalizing t t' completed waker flags woken with
  | nil =>
    cases hs
    exact ⟨rfl, rfl⟩
  | cons e es ih =>
    rw [List.map_cons, List.nodup_cons] at hes
    rw [TimerWheel.fireAll] at hs
    split at hs
    · cases hs
    · rename_i w t₁ hfire
      obtain ⟨rfl, rfl⟩ := ht.fire hfire
      split at hs
      · cases hs
      · rename_i woken' t₂ hrest
        obtain ⟨rfl, rfl⟩ := ih (ht.update e.id) hes.2 hrest
        cases hs
        refine ⟨?_, ?_⟩
        · have hsame : ∀ k ∈ es.map TimerEntry.id,
              Function.update waker e.id none k = waker k := fun k hk =>
            Function.update_of_ne (fun heq : k = e.id => hes.1 (heq ▸ hk)) _ _
          rw [List.filterMap_congr hsame, List.map_cons, List.filterMap_cons]
          cases waker e.id <;> rfl
        · congr 1
          funext k
          rcases eq_or_ne k e.id with rfl | hne
          · simp
          · simp [hne]

theorem AtRest.exists_fire (ht : t.AtRest completed waker) (e : TimerEntry) :
    ∃ r, t.fire e [false, false, false] = some r := by
  unfold TimerWheel.fire
  rw [ht e.id]
  obtain ⟨r, hr⟩ := Option.isSome_iff_exists.mp (AtomicWaker.solo_wake_isSome (waker e.id))
  rw [hr]
  exact ⟨_, rfl⟩

/-- Without spurious failures all the calls of `wake` return. -/
theorem AtRest.exists_fireAll (ht : t.AtRest completed waker) (es : List TimerEntry) :
    ∃ flags r, t.fireAll es flags = some r := by
  induction es generalizing t completed waker with
  | nil => exact ⟨[], _, rfl⟩
  | cons e es ih =>
    obtain ⟨⟨w, t₁⟩, hfire⟩ := ht.exists_fire e
    obtain ⟨rfl, rfl⟩ := ht.fire hfire
    obtain ⟨flags, ⟨woken, t₂⟩, hrest⟩ := ih (ht.update e.id)
    refine ⟨[false, false, false] :: flags, ((waker e.id).toList ++ woken, t₂), ?_⟩
    simp only [TimerWheel.fireAll, List.headD_cons, List.tail_cons, hfire, hrest]

/-! ### The wheel refines the abstract timers -/

/-- The wheel is in a state that stands for the abstract one. -/
structure Sim (t : TimerWheel Q W) (a : Timers W) : Prop where
  count : t.count = a.deadlines.length
  rest : t.AtRest a.fired a.waker
  holds : Holds (Q.elems t.heap + t.inbox) a

namespace Sim

variable {a : Timers W}

theorem new : Sim (new : TimerWheel Q W) Timers.init :=
  ⟨rfl, fun _ => rfl, by rw [TimerWheel.new, Q.elems_empty]; exact Holds.init⟩

theorem register (hsim : Sim t a) (d : ℕ) : Sim (t.register d).2 (a.add d) := by
  refine ⟨?_, fun k => ?_, ?_⟩
  · exact (congrArg Nat.succ hsim.count).trans (Timers.length_add a d).symm
  · rcases eq_or_ne k t.count with rfl | hne
    · obtain ⟨hf, hw⟩ := a.fresh t.count (Nat.le_of_eq hsim.count.symm)
      refine (Function.update_self _ _ _).trans ?_
      show TimerState.new = ⟨a.fired t.count, .rest (a.waker t.count)⟩
      rw [hf, hw]
      rfl
    · exact (Function.update_of_ne hne _ _).trans (hsim.rest k)
  · have hentries := hsim.holds.add d
    rw [← hsim.count, ← Multiset.add_cons] at hentries
    have hinbox : ((t.inbox ++ [⟨d, t.count⟩] : List TimerEntry) : Multiset TimerEntry) =
        ⟨d, t.count⟩ ::ₘ (t.inbox : Multiset TimerEntry) :=
      Multiset.coe_eq_coe.mpr (List.perm_append_singleton _ _)
    show Holds (Q.elems t.heap + ((t.inbox ++ [⟨d, t.count⟩] : List TimerEntry) : Multiset _)) _
    rw [hinbox]
    exact hentries

theorem drainInbox (hsim : Sim t a) : Holds (Q.elems t.drainInbox.heap) a := by
  rw [TimerWheel.drainInbox, Q.elems_extend]
  exact hsim.holds

/-- What `process` does to the wheel, in the words of the abstract timers. -/
theorem process {flags : List (List Bool)} {r : List ℕ × List W × Option ℕ} {t' : TimerWheel Q W}
    (hsim : Sim t a) (hs : t.process now flags = some (r, t')) :
    a.Processed now r.1 r.2.1 r.2.2 ∧ Sim t' (a.fire now) := by
  rw [TimerWheel.process, processLoop_eq (Nat.lt_succ_self _)] at hs
  have hp : a.Processed now _ _ _ := hsim.drainInbox.processed Q (Nat.le_succ _)
  have hholds : Holds _ (a.fire now) := hsim.drainInbox.drain Q (Nat.le_succ _)
  generalize Q.drain (due now) (Q.len t.drainInbox.heap + 1) t.drainInbox.heap = d at hp hholds hs
  obtain ⟨⟨woken, t₁⟩, hfire, heq⟩ := Option.map_eq_some_iff.mp hs
  cases heq
  have hrest : AtRest { t.drainInbox with heap := d.2 } a.fired a.waker := hsim.rest
  obtain ⟨rfl, rfl⟩ := hrest.fireAll hp.nodup hfire
  refine ⟨hp, hsim.count, fun k => ?_, ?_⟩
  · by_cases hdue : a.Due now k
    · refine (if_pos ((hp.mem k).mpr hdue)).trans ?_
      simp [Timers.fire, hdue]
    · refine (if_neg (mt (hp.mem k).mp hdue)).trans ((hsim.rest k).trans ?_)
      simp [Timers.fire, hdue]
  · -- the inbox was emptied before the loop
    have hempty : Q.elems d.2 + (([] : List TimerEntry) : Multiset TimerEntry) = Q.elems d.2 :=
      Multiset.add_zero _
    show Holds (Q.elems d.2 + (([] : List TimerEntry) : Multiset TimerEntry)) _
    rw [hempty]
    exact hholds

theorem hasPending (hsim : Sim t a) : t.hasPending = true ↔ ∃ k, a.Waiting k := by
  have hzero := hsim.holds.eq_zero_iff
  rw [← Multiset.card_eq_zero, Multiset.card_add, Nat.add_eq_zero_iff, Multiset.card_eq_zero,
    Multiset.card_eq_zero, ← Q.isEmpty_iff, Multiset.coe_eq_zero] at hzero
  rw [TimerWheel.hasPending, Bool.or_eq_true, Bool.not_eq_true', Bool.not_eq_true',
    ← Bool.not_eq_true, ← Bool.not_eq_true, List.isEmpty_iff, ← not_and_or, hzero]
  simp only [not_forall, not_not]

/-- **Every operation of the wheel is one of the abstract timers.** -/
theorem step {op : Op W} {res : Result W} {t' : TimerWheel Q W} (hsim : Sim t a)
    (hs : system Q W t op res t') : ∃ a', Timers.Step a op res a' ∧ Sim t' a' := by
  obtain ⟨flags, hs⟩ := hs
  cases op with
  | register d =>
    cases hs
    exact ⟨a.add d, hsim.count ▸ .register d, hsim.register d⟩
  | poll k w =>
    simp only [TimerWheel.step, TimerWheel.poll] at hs
    split_ifs at hs with hk
    rw [hsim.count] at hk
    rw [hsim.rest k] at hs
    split at hs
    · cases hs
    · rename_i p st hsolo
      cases hs
      cases hf : a.fired k with
      | true =>
        rw [hf] at hsolo
        obtain ⟨rfl, rfl⟩ := TimerState.solo_poll_completed hsolo
        -- a completed timer is only read
        have hsame : Function.update t.state k ⟨true, .rest (a.waker k)⟩ = t.state := by
          rw [← hf, ← hsim.rest k, Function.update_eq_self]
        rw [hsame]
        exact ⟨a, .ready hk hf, hsim⟩
      | false =>
        rw [hf] at hsolo
        obtain ⟨rfl, rfl⟩ := TimerState.solo_poll_pending hsolo
        refine ⟨a.setWaker k w hk, .waits hk hf, hsim.count, fun j => ?_, hsim.holds.setWaker w hk⟩
        rcases eq_or_ne j k with rfl | hne
        · rw [Timers.setWaker_waker_self]
          exact (Function.update_self _ _ _).trans
            (congrArg (TimerState.mk · (.rest (some w))) hf.symm)
        · rw [Timers.setWaker_waker_of_ne _ _ _ hne]
          exact (Function.update_of_ne hne _ _).trans (hsim.rest j)
  | process now =>
    obtain ⟨⟨r, t₁⟩, hprocess, heq⟩ := Option.map_eq_some_iff.mp hs
    cases heq
    obtain ⟨hp, hsim'⟩ := hsim.process hprocess
    exact ⟨a.fire now, .process hp, hsim'⟩
  | hasPending =>
    cases hs
    exact ⟨a, .hasPending hsim.hasPending, hsim⟩

/-- An operation that the abstract timers allow returns, if no compare-and-swap fails spuriously. -/
theorem exists_step {op : Op W} {res : Result W} {a' : Timers W} (hsim : Sim t a)
    (hs : Timers.Step a op res a') : ∃ res t', system Q W t op res t' := by
  cases op with
  | register d => exact ⟨_, _, [], rfl⟩
  | poll k w =>
    have hk : k < t.count := by
      rw [hsim.count]
      cases hs with
      | ready hk _ | waits hk _ => exact hk
    obtain ⟨⟨p, st⟩, hsolo⟩ := Option.isSome_iff_exists.mp
      (TimerState.solo_poll_isSome (a.fired k) (a.waker k) w)
    refine ⟨.polled p, { t with state := Function.update t.state k st },
      [[false, false, false, false, false, false]], ?_⟩
    rw [TimerWheel.step, if_pos hk, TimerWheel.poll, hsim.rest k, List.headD_cons, hsolo]
    rfl
  | process now =>
    have hrest : AtRest { t.drainInbox with
        heap := (Q.drain (due now) (Q.len t.drainInbox.heap + 1) t.drainInbox.heap).2 }
        a.fired a.waker := hsim.rest
    obtain ⟨flags, ⟨woken, t₁⟩, hfire⟩ := hrest.exists_fireAll
      (Q.drain (due now) (Q.len t.drainInbox.heap + 1) t.drainInbox.heap).1
    have hprocess : ∃ r, t.process now flags = some r := by
      rw [TimerWheel.process, processLoop_eq (Nat.lt_succ_self _), hfire]
      exact ⟨_, rfl⟩
    obtain ⟨⟨⟨fired, woken, next⟩, t'⟩, hprocess⟩ := hprocess
    refine ⟨.processed fired woken next, t', flags, ?_⟩
    rw [TimerWheel.step, hprocess]
    rfl
  | hasPending => exact ⟨_, _, [], rfl⟩

end Sim

/-! ### The two wheels -/

section Agree

variable {Q' : MaxHeap cmp} {h₁ h₂ : History W} {t₁ : SingleThread.TimerWheel Q' W}
  {t₂ : TimerWheel Q W}

theorem exists_run_timers (hr : Run (system Q W) new h₂ t₂) :
    ∃ a, Run Timers.Step Timers.init h₂ a ∧ Sim t₂ a :=
  hr.simulate Sim.new fun _ _ _ _ _ hsim hs => hsim.step hs

/-- **The two wheels agree.** Called one at a time with the same operations, deadlines and clock
readings, and whatever correct heaps they use, the two wheels return the same results at every step:
`process` fires the same timers, in the order of their deadlines in both, calls the same wakers
equally often and returns the same time; `has_pending` and `Sleep::poll` return the same. What the
single-threaded wheel can do next, the other can do. -/
theorem wheels_agree (hr₁ : Run (SingleThread.TimerWheel.system Q' W) .new h₁ t₁)
    (hr₂ : Run (system Q W) new h₂ t₂) (hops : h₁.map Prod.fst = h₂.map Prod.fst) :
    List.Forall₂ (fun e e' => e.1 = e'.1 ∧ Timers.Agree e.2 e'.2) h₁ h₂ ∧
    (∀ e ∈ h₁, (firings e).Pairwise fun j k => deadlineOf h₁ j ≤ deadlineOf h₁ k) ∧
    (∀ e ∈ h₂, (firings e).Pairwise fun j k => deadlineOf h₂ j ≤ deadlineOf h₂ k) ∧
    ∀ op res t₁', t₁.step op = some (res, t₁') → ∃ res' t₂', system Q W t₂ op res' t₂' := by
  obtain ⟨a₁, hra₁, hsim₁⟩ := SingleThread.TimerWheel.exists_run_timers hr₁
  obtain ⟨a₂, hra₂, hsim₂⟩ := exists_run_timers hr₂
  obtain ⟨hagree, rfl⟩ := hra₁.agree hra₂ hops fun _ _ _ _ _ _ hs hs' => hs.agree hs'
  refine ⟨hagree, Timers.firings_sorted hra₁, Timers.firings_sorted hra₂, ?_⟩
  intro op res t₁' hs
  obtain ⟨a', hstep, -⟩ := hsim₁.step hs
  exact hsim₂.exists_step hstep

/-- Three timers, one of them registered between two calls of `process`, in both wheels; in the
second wheel the first compare-and-swap of every poll fails spuriously. -/
theorem wheels_agree_three_timers :
    ∃ (h₁ h₂ : History ℕ) (t₁ : SingleThread.TimerWheel (sortedList cmp) ℕ)
      (t₂ : TimerWheel (sortedList cmp) ℕ),
      Run (SingleThread.TimerWheel.system (sortedList cmp) ℕ) .new h₁ t₁ ∧
      Run (system (sortedList cmp) ℕ) new h₂ t₂ ∧ h₂.flatMap firings = [0, 2] ∧
      List.Forall₂ (fun e e' => e.1 = e'.1 ∧ Timers.Agree e.2 e'.2) h₁ h₂ := by
  let ops : List (Op ℕ) := [.register 10, .register 30, .poll 0 7, .poll 0 8, .process 15,
    .register 20, .poll 2 9, .hasPending, .process 25, .poll 2 9]
  obtain ⟨h₁, t₁, hr₁, hops₁⟩ := exists_run_of_exec (f := SingleThread.TimerWheel.step)
    (s := (SingleThread.TimerWheel.new : SingleThread.TimerWheel (sortedList cmp) ℕ)) ops
    (fun p => p.1.map Prod.fst = ops) (by decide)
  obtain ⟨h₂, t₂, hr₂, hops₂, hfired⟩ := exists_run_of_exec
    (f := fun t op => TimerWheel.step t (List.replicate 3
      [false, true, false, false, false, false, false, false]) op)
    (s := (new : TimerWheel (sortedList cmp) ℕ)) ops
    (fun p => p.1.map Prod.fst = ops ∧ p.1.flatMap firings = [0, 2]) (by decide)
  have hr₂ : Run (system (sortedList cmp) ℕ) new h₂ t₂ := hr₂.mono fun _ _ _ _ hs => ⟨_, hs⟩
  exact ⟨h₁, h₂, t₁, t₂, hr₁, hr₂, hfired, (wheels_agree hr₁ hr₂ (hops₁.trans hops₂.symm)).1⟩

end Agree

end TimerWheel

end MiniAsync.MultiThread
