/-
  One timer and its `Sleep`, seen apart from the rest of the runtime: polls of the
  `Sleep`, one after the other, and the one firing of the timer, all of them on
  the `completed` flag and the `AtomicWaker` of `multi_thread/timer.rs`.

  `Step` lists the outcomes of the single accesses. `Inv` says who has claimed
  the cell, what is in it, and where the waker of the latest finished poll has
  gone if that poll returned `Pending`: it is in the cell, in the hands of the
  firing, in a call that the firing has made, called, or replaced by a later poll.
-/
import MiniAsync.Interleave.Machine
import MiniAsync.MultiThread.State

namespace MiniAsync.MultiThread

open Interleave

namespace SleepCell

/-- The part of the shared state that belongs to one timer. -/
@[ext]
structure View where
  registered : Bool
  timer : TimerState PollWaker
  hist : SleepHist

/-- The cell for the waker. -/
abbrev View.cell (v : View) : AtomicWaker PollWaker := v.timer.waker

def View.setState (v : View) (s : WakerState) : View :=
  { v with timer := { v.timer with waker := { v.cell with state := s } } }

def View.setWaker (v : View) (w : Option PollWaker) : View :=
  { v with timer := { v.timer with waker := { v.cell with waker := w } } }

/-- What a thread does with the timer. -/
inductive Role where
  | polling (w : PollWaker) (pc : TimerState.PollPc)
  | firing (pc : AtomicWaker.WakePc PollWaker)
  /-- The firing calls the waker that it has taken out of the cell. -/
  | calling (w : PollWaker)

/-- `Step v rs v' rs'`: a thread that holds the roles `rs` turns the view `v` into `v'` and holds
`rs'` afterwards. -/
inductive Step : View → List Role → View → List Role → Prop
  | stutter (v : View) (rs : List Role) : Step v rs v rs
  | create (v : View) (h : v.registered = false) :
      Step v [] ⟨true, TimerState.new, SleepHist.blank⟩ []
  -- `Sleep::poll`
  | call (v : View) (w : Waker) (h : v.registered = true) :
      Step v [] { v with hist := { v.hist with polls := v.hist.polls + 1 } }
        [.polling ⟨w, v.hist.polls⟩ .load]
  | loadPending (v : View) (w : PollWaker) (h : v.timer.completed = false) :
      Step v [.polling w .load] v [.polling w (.register .casEmpty)]
  | spin (v : View) (w : PollWaker) (pc pc' : AtomicWaker.RegisterPc)
      (h : pc = .casEmpty ∨ pc = .casStored) (h' : pc' = .casEmpty ∨ pc' = .casStored) :
      Step v [.polling w (.register pc)] v [.polling w (.register pc')]
  | claim (v : View) (w : PollWaker) (pc : AtomicWaker.RegisterPc)
      (h : pc = .casEmpty ∨ pc = .casStored) (hs : v.cell.state ≠ .waking) :
      Step v [.polling w (.register pc)] (v.setState .waking) [.polling w (.register .write)]
  | write (v : View) (w : PollWaker) :
      Step v [.polling w (.register .write)] (v.setWaker (some w)) [.polling w (.register .store)]
  | store (v : View) (w : PollWaker) :
      Step v [.polling w (.register .store)] (v.setState .stored) [.polling w .reload]
  | ready (v : View) (w : PollWaker) (pc : TimerState.PollPc) (hpc : pc = .load ∨ pc = .reload)
      (h : v.timer.completed = true) :
      Step v [.polling w pc]
        { v with hist := { v.hist with lastPoll := some (w, .ready ()) } } []
  | pending (v : View) (w : PollWaker) (h : v.timer.completed = false) :
      Step v [.polling w .reload]
        { v with hist := { v.hist with lastPoll := some (w, .pending) } } []
  -- `process` and `AtomicWaker::wake`
  | complete (v : View) (hr : v.registered = true) (h : v.timer.completed = false) :
      Step v [] { v with timer := { v.timer with completed := true } } [.firing .cas]
  | fireSpin (v : View) : Step v [.firing .cas] v [.firing .cas]
  | fireClaim (v : View) (h : v.cell.state = .stored) :
      Step v [.firing .cas] (v.setState .waking) [.firing .take]
  | fireEmpty (v : View) (h : v.cell.state = .empty) :
      Step v [.firing .cas] { v with hist := { v.hist with ended := true } } []
  | fireTake (v : View) :
      Step v [.firing .take] (v.setWaker none) [.firing (.store v.cell.waker)]
  | fireNone (v : View) :
      Step v [.firing (.store none)]
        { v.setState .empty with hist := { v.hist with ended := true } } []
  | fireWake (v : View) (w : PollWaker) :
      Step v [.firing (.store (some w))] (v.setState .empty) [.calling w]
  | called (v : View) (w : PollWaker) :
      Step v [.calling w]
        { v with hist := { v.hist with woken := w :: v.hist.woken, ended := true } } []

/-! ### The steps of the code -/

/-- The accesses of `Sleep::poll`. -/
theorem step_poll (v : View) {w : PollWaker} {spurious : Bool} {pc pc' : TimerState.PollPc}
    {st : TimerState PollWaker} (h : v.timer.poll w spurious pc = (st, .inl pc')) :
    Step v [.polling w pc] { v with timer := st } [.polling w pc'] := by
  cases pc with
  | load =>
    simp only [TimerState.poll] at h
    split_ifs at h with hc <;> cases h
    exact .loadPending v w (by simpa using hc)
  | register pc =>
    cases pc with
    | casEmpty =>
      cases hs : v.cell.state <;> cases spurious <;>
        simp only [TimerState.poll, AtomicWaker.register, hs] at h <;> cases h
      · exact .claim v w _ (Or.inl rfl) (by simp [hs])
      · exact .spin v w _ _ (Or.inl rfl) (Or.inl rfl)
      · exact .spin v w _ _ (Or.inl rfl) (Or.inr rfl)
      · exact .spin v w _ _ (Or.inl rfl) (Or.inr rfl)
      · exact .spin v w _ _ (Or.inl rfl) (Or.inl rfl)
      · exact .spin v w _ _ (Or.inl rfl) (Or.inl rfl)
    | casStored =>
      simp only [TimerState.poll, AtomicWaker.register] at h
      split_ifs at h with hs <;> cases h
      · exact .claim v w _ (Or.inr rfl) (by simp [hs.1])
      · exact .spin v w _ _ (Or.inr rfl) (Or.inl rfl)
    | write =>
      cases h
      exact .write v w
    | store =>
      cases h
      exact .store v w
  | reload =>
    simp only [TimerState.poll] at h
    split_ifs at h <;> cases h

theorem step_pollRet (v : View) {w : PollWaker} {spurious : Bool} {pc : TimerState.PollPc}
    {st : TimerState PollWaker} {r : Poll Unit}
    (h : v.timer.poll w spurious pc = (st, .inr r)) :
    Step v [.polling w pc]
      { v with timer := st, hist := { v.hist with lastPoll := some (w, r) } } [] := by
  cases pc with
  | load =>
    simp only [TimerState.poll] at h
    split_ifs at h with hc <;> cases h
    exact .ready v w _ (Or.inl rfl) hc
  | register pc =>
    simp only [TimerState.poll] at h
    split at h <;> cases h
  | reload =>
    simp only [TimerState.poll] at h
    split_ifs at h with hc <;> cases h
    · exact .ready v w _ (Or.inr rfl) hc
    · exact .pending v w (by simpa using hc)

/-- The accesses of `AtomicWaker::wake`. -/
theorem step_fire (v : View) {spurious : Bool} {pc pc' : AtomicWaker.WakePc PollWaker}
    {cell : AtomicWaker PollWaker} (h : v.cell.wake spurious pc = (cell, .inl pc')) :
    Step v [.firing pc] { v with timer := { v.timer with waker := cell } } [.firing pc'] := by
  cases pc with
  | cas =>
    cases hs : v.cell.state <;> cases spurious <;>
      simp only [AtomicWaker.wake, hs] at h <;> cases h
    · exact .fireClaim v hs
    · exact .fireSpin v
    · exact .fireSpin v
    · exact .fireSpin v
  | take =>
    cases h
    exact .fireTake v
  | store w => cases h

theorem step_fireNone (v : View) {spurious : Bool} {pc : AtomicWaker.WakePc PollWaker}
    {cell : AtomicWaker PollWaker} (h : v.cell.wake spurious pc = (cell, .inr none)) :
    Step v [.firing pc]
      { v with
        timer := { v.timer with waker := cell }, hist := { v.hist with ended := true } } [] := by
  cases pc with
  | cas =>
    cases hs : v.cell.state <;> cases spurious <;>
      simp only [AtomicWaker.wake, hs] at h <;> cases h
    · exact .fireEmpty v hs
    · exact .fireEmpty v hs
  | take => cases h
  | store w =>
    cases h
    exact .fireNone v

theorem step_fireWake (v : View) {spurious : Bool} {pc : AtomicWaker.WakePc PollWaker}
    {cell : AtomicWaker PollWaker} {w : PollWaker}
    (h : v.cell.wake spurious pc = (cell, .inr (some w))) :
    Step v [.firing pc] { v with timer := { v.timer with waker := cell } } [.calling w] := by
  cases pc with
  | cas =>
    cases hs : v.cell.state <;> cases spurious <;>
      simp only [AtomicWaker.wake, hs] at h <;> cases h
  | take => cases h
  | store w =>
    cases h
    exact .fireWake v _

/-! ### The invariant -/

/-- One for a poll under way. -/
def polls : Role → ℕ
  | .polling _ _ => 1
  | _ => 0

/-- One for a firing under way. -/
def fires : Role → ℕ
  | .polling _ _ => 0
  | .firing _ | .calling _ => 1

/-- One for a thread in a section that it has claimed by WAKING. -/
def claims : Role → ℕ
  | .polling _ (.register .write) | .polling _ (.register .store) => 1
  | .firing .take | .firing (.store _) => 1
  | _ => 0

/-- The poll has put its waker into the cell. -/
def Written : TimerState.PollPc → Prop
  | .register .store | .reload => True
  | _ => False

/-- A poll after the one with the waker `p` is under way and has put its waker in the place of
`p`. -/
def Superseded (p : PollWaker) (rs : Multiset Role) : Prop :=
  ∃ w pc, .polling w pc ∈ rs ∧ p.poll < w.poll ∧ Written pc

/-- What a thread in a position knows. -/
def Role.Ok (v : View) : Role → Prop
  | .polling w pc =>
    (w.poll < v.hist.polls ∧ ∀ p r, v.hist.lastPoll = some (p, r) → p.poll < w.poll) ∧
    match pc with
    | .register .store => v.cell.waker = some w
    | .reload => v.timer.completed = false → v.cell.waker = some w
    | _ => True
  | .firing pc =>
    match pc with
    | .cas => True
    | .take => v.cell.waker.isSome = true
    | .store _ => v.cell.waker = none
  | .calling _ => True

/-- The waker `p` is in the cell or in the hands of the firing, which looks at the cell no more
when it calls a waker. -/
def Held (p : PollWaker) (v : View) (rs : Multiset Role) : Prop :=
  (v.cell.waker = some p ∧ ∀ q, .calling q ∉ rs) ∨ .firing (.store (some p)) ∈ rs ∨
    .calling p ∈ rs

/-- Where the waker `p` is, if its poll was the latest to return and returned `Pending`. -/
def Kept (p : PollWaker) (v : View) (rs : Multiset Role) : Prop :=
  Superseded p rs ∨ (v.hist.ended = true ∧ p ∈ v.hist.woken) ∨
    (v.hist.ended = false ∧ Held p v rs)

/-- The state of one timer, with the roles `rs` of all threads. -/
structure Inv (v : View) (rs : Multiset Role) : Prop where
  fresh : v.registered = false → rs = 0
  claimed : weigh claims rs = if v.cell.state = .waking then 1 else 0
  cell : v.cell.state ≠ .waking → (v.cell.waker.isSome = true ↔ v.cell.state = .stored)
  fired : weigh fires rs + ind v.hist.ended = ind v.timer.completed
  role : ∀ r ∈ rs, r.Ok v
  last : ∀ p r, v.hist.lastPoll = some (p, r) → p.poll < v.hist.polls
  pending : ∀ p, v.hist.lastPoll = some (p, .pending) → Kept p v rs
  woken : v.hist.woken.length ≤ ind v.hist.ended

theorem inv_new (registered : Bool) : Inv ⟨registered, TimerState.new, SleepHist.blank⟩ 0 where
  fresh := fun _ => rfl
  claimed := rfl
  cell := fun _ => iff_of_false (by simp [TimerState.new, AtomicWaker.new]) (by
    simp [TimerState.new, AtomicWaker.new])
  fired := rfl
  role := by simp
  last := by simp [SleepHist.blank]
  pending := by simp [SleepHist.blank]
  woken := Nat.le_refl 0

/-- What a thread knows lasts over the step of another thread: a step that changes the waker in
the cell has claimed the cell, or comes after the flag is set. -/
theorem Role.Ok.mono {v v' : View} {r : Role} (h : r.Ok v)
    (hhist : polls r = 0 ∨
      (v.hist.polls ≤ v'.hist.polls ∧ v'.hist.lastPoll = v.hist.lastPoll))
    (hcell : v'.cell.waker = v.cell.waker ∨
      (claims r = 0 ∧ (polls r = 0 ∨ v'.timer.completed = true)))
    (hcomp : v.timer.completed = true → v'.timer.completed = true) : r.Ok v' := by
  cases r with
  | polling w pc =>
    obtain ⟨⟨hlt, hlast⟩, hpc⟩ := h
    obtain ⟨hle, hsame⟩ := hhist.resolve_left Nat.one_ne_zero
    refine ⟨⟨hlt.trans_le hle, fun p r hp => hlast p r (hsame ▸ hp)⟩, ?_⟩
    cases pc with
    | register pc =>
      cases pc with
      | store => exact (hcell.resolve_right fun hc => Nat.one_ne_zero hc.1).trans hpc
      | _ => trivial
    | reload =>
      intro hnew
      rcases hcell with hcell | ⟨-, hc | hc⟩
      · refine hcell.trans (hpc ?_)
        by_contra hold
        simp [hcomp (by simpa using hold)] at hnew
      · exact absurd hc Nat.one_ne_zero
      · simp [hc] at hnew
    | load => trivial
  | firing pc =>
    cases pc with
    | cas => trivial
    | take =>
      have hcell := hcell.resolve_right fun hc => Nat.one_ne_zero hc.1
      exact (congrArg Option.isSome hcell).trans h
    | store w => exact (hcell.resolve_right fun hc => Nat.one_ne_zero hc.1).trans h
  | calling p => trivial

theorem mem_single_add {r a : Role} {R : Multiset Role} :
    r ∈ ((([a] : List Role) : Multiset Role) + R) ↔ r = a ∨ r ∈ R := by
  simp

section Alone

variable {v : View} {R : Multiset Role}

/-- Polls come one after the other. -/
theorem alone_polling {w : PollWaker} {pc : TimerState.PollPc}
    (h : weigh polls (↑[Role.polling w pc] + R) ≤ 1) : ∀ r ∈ R, polls r = 0 := by
  rw [weigh_coe_add] at h
  refine (weigh_eq_zero_iff _ _).mp ?_
  simp only [List.map_cons, List.map_nil, List.sum_cons, List.sum_nil, polls] at h
  omega

/-- There is one firing, and it comes after the flag is set. -/
theorem alone_firing {r : Role} (hr : fires r = 1)
    (h : weigh fires (↑[r] + R) + ind v.hist.ended = ind v.timer.completed) :
    (∀ r ∈ R, fires r = 0) ∧ v.hist.ended = false ∧ v.timer.completed = true := by
  rw [weigh_coe_add] at h
  simp only [List.map_cons, List.map_nil, List.sum_cons, List.sum_nil, hr] at h
  have hle := ind_le_one v.timer.completed
  refine ⟨(weigh_eq_zero_iff _ _).mp (by omega), ?_, ind_pos_iff.mp (by omega)⟩
  cases he : v.hist.ended with
  | false => rfl
  | true =>
    rw [he, ind_true] at h
    omega

/-- A thread that has claimed the cell is the only one. -/
theorem alone_claimed {r : Role} (hr : claims r = 1)
    (h : weigh claims (↑[r] + R) = if v.cell.state = .waking then 1 else 0) :
    v.cell.state = .waking ∧ ∀ r ∈ R, claims r = 0 := by
  rw [weigh_coe_add] at h
  simp only [List.map_cons, List.map_nil, List.sum_cons, List.sum_nil, hr] at h
  split_ifs at h with hs
  · exact ⟨hs, (weigh_eq_zero_iff _ _).mp (by omega)⟩
  · omega

/-- What is held outside of a thread's hands stays held if the thread takes no firing. -/
theorem Held.mono {v' : View} {p : PollWaker} {rs rs' : List Role} (h : Held p v (↑rs + R))
    (hrs : ∀ r ∈ rs, fires r = 0) (hrs' : ∀ q, Role.calling q ∉ rs')
    (hcell : v'.cell.waker = v.cell.waker) : Held p v' (↑rs' + R) := by
  have hR : ∀ {r}, fires r = 1 → r ∈ (↑rs + R : Multiset Role) →
      r ∈ (↑rs' + R : Multiset Role) := by
    intro r hr hmem
    rcases Multiset.mem_add.mp hmem with hmem | hmem
    · rw [hrs r (Multiset.mem_coe.mp hmem)] at hr
      cases hr
    · exact Multiset.mem_add.mpr (Or.inr hmem)
  rcases h with ⟨hc, hno⟩ | hmem | hmem
  · refine Or.inl ⟨hcell.trans hc, fun q hq => ?_⟩
    rcases Multiset.mem_add.mp hq with hq | hq
    · exact hrs' q (Multiset.mem_coe.mp hq)
    · exact hno q (Multiset.mem_add.mpr (Or.inr hq))
  · exact Or.inr (Or.inl (hR rfl hmem))
  · exact Or.inr (Or.inr (hR rfl hmem))

/-- While a poll has not written, nothing of what is kept depends on it. -/
theorem Kept.of_not_written {v' : View} {p : PollWaker} {w : PollWaker} {pc : TimerState.PollPc}
    {rs' : List Role} (h : Kept p v (↑[Role.polling w pc] + R)) (hR : ∀ r ∈ R, polls r = 0)
    (hpc : ¬ Written pc) (hrs' : ∀ q, Role.calling q ∉ rs')
    (hcell : v'.cell.waker = v.cell.waker) (hhist : v'.hist = v.hist) :
    Kept p v' (↑rs' + R) := by
  rcases h with ⟨w', pc', hmem, -, hw⟩ | hwoken | ⟨hend, hheld⟩
  · rcases mem_single_add.mp hmem with heq | hmem
    · cases heq
      exact absurd hw hpc
    · exact absurd (hR _ hmem) Nat.one_ne_zero
  · exact Or.inr (Or.inl (hhist ▸ hwoken))
  · exact Or.inr (Or.inr ⟨hhist ▸ hend, hheld.mono (by simp [fires]) hrs' hcell⟩)

/-- The firing does not touch the polls. -/
theorem Superseded.of_firing {p : PollWaker} {r : Role} {rs' : List Role} (hr : fires r = 1)
    (h : Superseded p (↑[r] + R)) : Superseded p (↑rs' + R) := by
  obtain ⟨w, pc', hmem, hlt, hw⟩ := h
  rcases mem_single_add.mp hmem with rfl | hmem
  · cases hr
  · exact ⟨w, pc', Multiset.mem_add.mpr (Or.inr hmem), hlt, hw⟩

/-- What the one firing holds is in its own hands. -/
theorem Held.of_firing {p : PollWaker} {r : Role} (h : Held p v (↑[r] + R))
    (hR : ∀ r ∈ R, fires r = 0) : Held p v ↑[r] := by
  have hown : ∀ {r'}, fires r' = 1 → r' ∈ (↑[r] + R : Multiset Role) →
      r' ∈ (↑[r] : Multiset Role) := by
    intro r' hr' hmem
    rcases Multiset.mem_add.mp hmem with hmem | hmem
    · exact hmem
    · rw [hR r' hmem] at hr'
      cases hr'
  rcases h with ⟨hc, hno⟩ | hmem | hmem
  · exact Or.inl ⟨hc, fun q hq => hno q (Multiset.mem_add.mpr (Or.inl hq))⟩
  · exact Or.inr (Or.inl (hown rfl hmem))
  · exact Or.inr (Or.inr (hown rfl hmem))

theorem Held.add {p : PollWaker} {rs' : List Role} (h : Held p v ↑rs')
    (hR : ∀ r ∈ R, fires r = 0) : Held p v (↑rs' + R) := by
  rcases h with ⟨hc, hno⟩ | hmem | hmem
  · refine Or.inl ⟨hc, fun q hq => ?_⟩
    rcases Multiset.mem_add.mp hq with hq | hq
    · exact hno q hq
    · exact absurd (hR _ hq) Nat.one_ne_zero
  · exact Or.inr (Or.inl (Multiset.mem_add.mpr (Or.inl hmem)))
  · exact Or.inr (Or.inr (Multiset.mem_add.mpr (Or.inl hmem)))

/-- A poll that has not written knows its number and nothing else. -/
theorem Role.Ok.of_not_written {w : PollWaker} {pc pc' : TimerState.PollPc}
    (h : (Role.polling w pc).Ok v) (hpc : ¬ Written pc') : (Role.polling w pc').Ok v := by
  refine ⟨h.1, ?_⟩
  cases pc' with
  | register pc =>
    cases pc with
    | store => exact absurd trivial hpc
    | _ => trivial
  | reload => exact absurd trivial hpc
  | load => trivial

/-! ### Polls -/

/-- A poll goes on without an access that changes anything. -/
theorem Inv.spin {w : PollWaker} {pc pc' : TimerState.PollPc}
    (hI : Inv v (↑[Role.polling w pc] + R)) (hpolls : weigh polls (↑[Role.polling w pc] + R) ≤ 1)
    (hc : claims (.polling w pc) = claims (.polling w pc')) (hpc : ¬ Written pc)
    (hpc' : ¬ Written pc') : Inv v (↑[Role.polling w pc'] + R) := by
  have ⟨hfresh, hclaim, hcell, hfired, hrole, hlast, hpend, hwoken⟩ := hI
  have hR := alone_polling hpolls
  refine ⟨fun h => absurd (hfresh h) (by simp), ?_, hcell, ?_, fun r hr => ?_, hlast,
    fun p hp => (hpend p hp).of_not_written hR hpc (by simp) rfl rfl, hwoken⟩
  · simpa [hc] using hclaim
  · simpa [fires] using hfired
  · rcases mem_single_add.mp hr with rfl | hr
    · exact (hrole _ (mem_single_add.mpr (Or.inl rfl))).of_not_written hpc'
    · exact hrole r (mem_single_add.mpr (Or.inr hr))

/-- A poll claims the cell. -/
theorem Inv.claim {w : PollWaker} {pc : AtomicWaker.RegisterPc}
    (hI : Inv v (↑[Role.polling w (.register pc)] + R))
    (hpolls : weigh polls (↑[Role.polling w (.register pc)] + R) ≤ 1)
    (hpc : pc = .casEmpty ∨ pc = .casStored) (hs : v.cell.state ≠ .waking) :
    Inv (v.setState .waking) (↑[Role.polling w (.register .write)] + R) := by
  have ⟨hfresh, hclaim, hcell, hfired, hrole, hlast, hpend, hwoken⟩ := hI
  have hR := alone_polling hpolls
  have hnot : ¬ Written (.register pc) := by rcases hpc with rfl | rfl <;> exact id
  refine ⟨fun h => absurd (hfresh h) (by simp), ?_, fun h => absurd rfl h, ?_, fun r hr => ?_,
    hlast, fun p hp => (hpend p hp).of_not_written hR hnot (by simp) rfl rfl, hwoken⟩
  · rw [if_neg hs] at hclaim
    rcases hpc with rfl | rfl <;> simpa [claims, View.setState] using hclaim
  · simpa [fires, View.setState] using hfired
  · rcases mem_single_add.mp hr with rfl | hr
    · have hself : (Role.polling w (.register .write)).Ok v :=
        (hrole _ (mem_single_add.mpr (Or.inl rfl))).of_not_written id
      exact hself.mono (Or.inr ⟨Nat.le_refl _, rfl⟩) (Or.inl rfl) id
    · exact (hrole r (mem_single_add.mpr (Or.inr hr))).mono (Or.inl (hR r hr)) (Or.inl rfl) id

/-- A poll writes its waker: that of the latest poll that returned is replaced. -/
theorem Inv.write {w : PollWaker} (hI : Inv v (↑[Role.polling w (.register .write)] + R))
    (hpolls : weigh polls (↑[Role.polling w (.register .write)] + R) ≤ 1) :
    Inv (v.setWaker (some w)) (↑[Role.polling w (.register .store)] + R) := by
  have ⟨hfresh, hclaim, hcell, hfired, hrole, hlast, hpend, hwoken⟩ := hI
  have hR := alone_polling hpolls
  obtain ⟨hs, hRc⟩ := alone_claimed rfl hclaim
  have hw := hrole _ (mem_single_add.mpr (Or.inl rfl))
  refine ⟨fun h => absurd (hfresh h) (by simp), ?_, fun h => absurd hs h, ?_, fun r hr => ?_,
    hlast, fun p hp => Or.inl ?_, hwoken⟩
  · rw [weigh_coe_add] at hclaim ⊢
    exact hclaim
  · simpa [fires, View.setWaker] using hfired
  · rcases mem_single_add.mp hr with rfl | hr
    · exact ⟨hw.1, rfl⟩
    · exact (hrole r (mem_single_add.mpr (Or.inr hr))).mono (Or.inl (hR r hr))
        (Or.inr ⟨hRc r hr, Or.inl (hR r hr)⟩) id
  · exact ⟨w, _, mem_single_add.mpr (Or.inl rfl), hw.1.2 p _ hp, trivial⟩

/-- A poll releases the cell with its waker in it. -/
theorem Inv.store {w : PollWaker} (hI : Inv v (↑[Role.polling w (.register .store)] + R))
    (hpolls : weigh polls (↑[Role.polling w (.register .store)] + R) ≤ 1) :
    Inv (v.setState .stored) (↑[Role.polling w .reload] + R) := by
  have ⟨hfresh, hclaim, hcell, hfired, hrole, hlast, hpend, hwoken⟩ := hI
  have hR := alone_polling hpolls
  obtain ⟨hs, hRc⟩ := alone_claimed rfl hclaim
  have hw := hrole _ (mem_single_add.mpr (Or.inl rfl))
  have hcw : v.cell.waker = some w := hw.2
  refine ⟨fun h => absurd (hfresh h) (by simp), ?_, fun _ => ?_, ?_, fun r hr => ?_, hlast,
    fun p hp => Or.inl ?_, hwoken⟩
  · rw [if_neg (by simp [View.setState])]
    simpa [claims] using (weigh_eq_zero_iff _ _).mpr hRc
  · simp [View.setState, hcw]
  · simpa [fires, View.setState] using hfired
  · rcases mem_single_add.mp hr with rfl | hr
    · exact ⟨hw.1, fun _ => hcw⟩
    · exact (hrole r (mem_single_add.mpr (Or.inr hr))).mono (Or.inl (hR r hr)) (Or.inl rfl) id
  · exact ⟨w, _, mem_single_add.mpr (Or.inl rfl), hw.1.2 p _ hp, trivial⟩

/-- A poll returns. If it returns `Pending`, its waker is in the cell. -/
theorem Inv.return {w : PollWaker} {pc : TimerState.PollPc} {res : Poll Unit}
    (hI : Inv v (↑[Role.polling w pc] + R)) (hpolls : weigh polls (↑[Role.polling w pc] + R) ≤ 1)
    (hc : claims (.polling w pc) = 0)
    (hres : res = .pending → pc = .reload ∧ v.timer.completed = false) :
    Inv { v with hist := { v.hist with lastPoll := some (w, res) } }
      (↑([] : List Role) + R) := by
  have ⟨hfresh, hclaim, hcell, hfired, hrole, hlast, hpend, hwoken⟩ := hI
  have hR := alone_polling hpolls
  have hw := hrole _ (mem_single_add.mpr (Or.inl rfl))
  refine ⟨fun h => absurd (hfresh h) (by simp), ?_, hcell, ?_, fun r hr => ?_, ?_, ?_, hwoken⟩
  · simpa [hc] using hclaim
  · simpa [fires] using hfired
  · rw [Multiset.mem_add] at hr
    rcases hr with hr | hr
    · exact absurd hr (Multiset.notMem_zero r)
    · exact (hrole r (mem_single_add.mpr (Or.inr hr))).mono (Or.inl (hR r hr)) (Or.inl rfl) id
  · rintro p r ⟨⟩
    exact hw.1.1
  · rintro p ⟨⟩
    obtain ⟨rfl, hcomp⟩ := hres rfl
    have hend : ind v.hist.ended = 0 := by
      rw [hcomp, ind_false] at hfired
      omega
    refine Or.inr (Or.inr ⟨?_, Or.inl ⟨hw.2 hcomp, fun q hq => ?_⟩⟩)
    · by_contra he
      simp [show v.hist.ended = true by simpa using he] at hend
    · have hzero : weigh fires R = 0 := by
        rw [weigh_coe_add, hcomp, ind_false] at hfired
        omega
      have hcall : fires (.calling q) = 0 :=
        (weigh_eq_zero_iff _ _).mp hzero _ (by simpa using hq)
      cases hcall

/-! ### The firing -/

/-- What the firing has to show for a step of its own: above all, what becomes of a waker that it
holds. -/
theorem Inv.of_firing {v' : View} {r : Role} {rs' : List Role} (hr : fires r = 1)
    (hI : Inv v (↑[r] + R)) (hreg : v'.registered = v.registered)
    (hhist : v'.hist.polls = v.hist.polls ∧ v'.hist.lastPoll = v.hist.lastPoll)
    (hcomp : v'.timer.completed = v.timer.completed)
    (hclaim : weigh claims (↑rs' + R) = if v'.cell.state = .waking then 1 else 0)
    (hcell : v'.cell.state ≠ .waking → (v'.cell.waker.isSome = true ↔ v'.cell.state = .stored))
    (hfired : (rs'.map fires).sum + ind v'.hist.ended = 1)
    (hown : ∀ r ∈ rs', r.Ok v') (hsame : v'.cell.waker = v.cell.waker ∨ ∀ r ∈ R, claims r = 0)
    (hpend : ∀ p, Held p v ↑[r] →
      (v'.hist.ended = true ∧ p ∈ v'.hist.woken) ∨ (v'.hist.ended = false ∧ Held p v' ↑rs'))
    (hwoken : v'.hist.woken.length ≤ ind v'.hist.ended) : Inv v' (↑rs' + R) := by
  have ⟨hfresh, _, _, hfired₀, hrole, hlast, hpend₀, _⟩ := hI
  obtain ⟨hR, hend, hdone⟩ := alone_firing hr hfired₀
  refine ⟨fun h => absurd (hfresh (hreg ▸ h)) (by simp), hclaim, hcell, ?_, fun r hr => ?_,
    fun p r hp => ?_, fun p hp => ?_, hwoken⟩
  · have hzero : weigh fires R = 0 := (weigh_eq_zero_iff _ _).mpr hR
    rw [weigh_coe_add, hzero, hcomp, hdone, ind_true]
    exact hfired
  · rw [Multiset.mem_add] at hr
    rcases hr with hr | hr
    · exact hown r (Multiset.mem_coe.mp hr)
    · refine (hrole r (mem_single_add.mpr (Or.inr hr))).mono (Or.inr ⟨hhist.1.ge, hhist.2⟩) ?_
        (fun h => hcomp.trans h)
      exact hsame.imp_right fun hc => ⟨hc r hr, Or.inr (hcomp.trans hdone)⟩
  · rw [hhist.1]
    exact hlast p r (hhist.2 ▸ hp)
  · rw [hhist.2] at hp
    rcases hpend₀ p hp with hsup | ⟨he, -⟩ | ⟨-, hheld⟩
    · exact Or.inl (hsup.of_firing hr)
    · rw [hend] at he
      cases he
    · refine Or.inr ((hpend p (hheld.of_firing hR)).imp_right fun hkept => ?_)
      exact ⟨hkept.1, hkept.2.add hR⟩

theorem Inv.fireClaim (hI : Inv v (↑[Role.firing .cas] + R)) (hs : v.cell.state = .stored) :
    Inv (v.setState .waking) (↑[Role.firing .take] + R) := by
  have ⟨_, hclaim, hcell, hfired, _, _, _, hwoken⟩ := hI
  obtain ⟨-, hend, -⟩ := alone_firing rfl hfired
  refine hI.of_firing rfl rfl ⟨rfl, rfl⟩ rfl ?_ (fun h => absurd rfl h) ?_ ?_ (Or.inl rfl) ?_
    hwoken
  · rw [if_neg (by simp [hs])] at hclaim
    simpa [claims, View.setState] using hclaim
  · simp [fires, View.setState, hend]
  · simpa [Role.Ok, View.setState] using (hcell (by simp [hs])).mpr hs
  · rintro p (⟨hc, -⟩ | hmem | hmem)
    · exact Or.inr ⟨hend, Or.inl ⟨hc, by simp⟩⟩
    · simp at hmem
    · simp at hmem

theorem Inv.fireEmpty (hI : Inv v (↑[Role.firing .cas] + R)) (hs : v.cell.state = .empty) :
    Inv { v with hist := { v.hist with ended := true } } (↑([] : List Role) + R) := by
  have ⟨_, hclaim, hcell, hfired, _, _, _, hwoken⟩ := hI
  refine hI.of_firing rfl rfl ⟨rfl, rfl⟩ rfl ?_ hcell rfl (by simp) (Or.inl rfl) ?_
    (hwoken.trans (ind_le_one _))
  · simpa [claims] using hclaim
  · rintro p (⟨hw, -⟩ | hmem | hmem)
    · -- an empty cell has no waker
      have hiff := hcell (by simp [hs])
      simp [hw, hs] at hiff
    · simp at hmem
    · simp at hmem

theorem Inv.fireTake (hI : Inv v (↑[Role.firing .take] + R)) :
    Inv (v.setWaker none) (↑[Role.firing (.store v.cell.waker)] + R) := by
  have ⟨_, hclaim, _, hfired, _, _, _, hwoken⟩ := hI
  obtain ⟨-, hend, -⟩ := alone_firing rfl hfired
  obtain ⟨hs, hRc⟩ := alone_claimed rfl hclaim
  refine hI.of_firing rfl rfl ⟨rfl, rfl⟩ rfl ?_ (fun h => absurd hs h) ?_ ?_ (Or.inr hRc) ?_
    hwoken
  · rw [weigh_coe_add] at hclaim ⊢
    exact hclaim
  · simp [fires, View.setWaker, hend]
  · simp [Role.Ok, View.setWaker]
  · rintro p (⟨hw, -⟩ | hmem | hmem)
    · exact Or.inr ⟨hend, Or.inr (Or.inl (by simp [hw]))⟩
    · simp at hmem
    · simp at hmem

/-- The firing releases the cell, with the waker `o` that it has taken. -/
theorem Inv.fireStore {o : Option PollWaker} {ended : Bool}
    (hI : Inv v (↑[Role.firing (.store o)] + R)) (ho : o.isNone = ended) :
    Inv { v.setState .empty with hist := { v.hist with ended := ended } }
      (↑(o.toList.map Role.calling) + R) := by
  have ⟨_, hclaim, _, hfired, hrole, _, _, hwoken⟩ := hI
  obtain ⟨-, hend, -⟩ := alone_firing rfl hfired
  obtain ⟨hs, hRc⟩ := alone_claimed rfl hclaim
  have hnone : v.cell.waker = none := hrole _ (mem_single_add.mpr (Or.inl rfl))
  have hzero : v.hist.woken.length = 0 := by
    rw [hend, ind_false] at hwoken
    omega
  refine hI.of_firing rfl rfl ⟨rfl, rfl⟩ rfl ?_ (fun _ => ?_) ?_ ?_ (Or.inl rfl) ?_ ?_
  · rw [if_neg (by simp [View.setState]), weigh_coe_add, (weigh_eq_zero_iff _ _).mpr hRc]
    cases o <;> rfl
  · simp [View.setState, hnone]
  · cases o <;> cases ho <;> rfl
  · cases o <;> simp [Role.Ok]
  · rintro p (⟨hw, -⟩ | hmem | hmem)
    · rw [hnone] at hw
      cases hw
    · obtain rfl : some p = o := by simpa using hmem
      cases ho
      exact Or.inr ⟨rfl, Or.inr (Or.inr (by simp))⟩
    · simp at hmem
  · show v.hist.woken.length ≤ _
    omega

/-- The call of the waker returns. -/
theorem Inv.called {p : PollWaker} (hI : Inv v (↑[Role.calling p] + R)) :
    Inv { v with hist := { v.hist with woken := p :: v.hist.woken, ended := true } }
      (↑([] : List Role) + R) := by
  have ⟨_, hclaim, hcell, hfired, _, _, _, hwoken⟩ := hI
  obtain ⟨-, hend, -⟩ := alone_firing rfl hfired
  rw [hend, ind_false] at hwoken
  refine hI.of_firing rfl rfl ⟨rfl, rfl⟩ rfl ?_ hcell rfl (by simp) (Or.inl rfl) ?_ ?_
  · simpa [claims] using hclaim
  · rintro q (⟨-, hno⟩ | hmem | hmem)
    · exact absurd (by simp) (hno p)
    · simp at hmem
    · obtain rfl : q = p := by simpa using hmem
      exact Or.inl ⟨rfl, List.mem_cons_self⟩
  · exact Nat.succ_le_succ hwoken

/-- New roles do not matter for what is kept. -/
theorem Kept.add {v' : View} {p : PollWaker} {rs' : List Role} (h : Kept p v R)
    (hrs' : ∀ q, Role.calling q ∉ rs') (hcell : v'.cell = v.cell)
    (hhist : v'.hist.ended = v.hist.ended ∧ v'.hist.woken = v.hist.woken) :
    Kept p v' (↑rs' + R) := by
  unfold Kept at h ⊢
  rw [hhist.1, hhist.2]
  rcases h with ⟨w, pc, hmem, hlt, hw⟩ | hw | ⟨he, hheld⟩
  · exact Or.inl ⟨w, pc, Multiset.mem_add.mpr (Or.inr hmem), hlt, hw⟩
  · exact Or.inr (Or.inl hw)
  · have hheld' : Held p v (↑([] : List Role) + R) := by
      rw [Multiset.coe_nil, zero_add]
      exact hheld
    exact Or.inr (Or.inr ⟨he, hheld'.mono (by simp) hrs' (by rw [hcell])⟩)

theorem Inv.complete (hI : Inv v R) (hreg : v.registered = true)
    (hcomp : v.timer.completed = false) :
    Inv { v with timer := { v.timer with completed := true } } (↑[Role.firing .cas] + R) := by
  have ⟨_, hclaim, hcell, hfired, hrole, hlast, hpend, hwoken⟩ := hI
  rw [hcomp, ind_false] at hfired
  refine ⟨fun h => absurd h (by simp [hreg]), ?_, hcell, ?_, fun r hr => ?_, hlast,
    fun p hp => (hpend p hp).add (by simp) rfl ⟨rfl, rfl⟩, hwoken⟩
  · simpa [claims] using hclaim
  · simp only [weigh_coe_add, List.map_cons, List.map_nil, List.sum_cons, List.sum_nil, fires,
      ind_true]
    omega
  · rcases mem_single_add.mp hr with rfl | hr
    · trivial
    · exact (hrole r hr).mono (Or.inr ⟨Nat.le_refl _, rfl⟩) (Or.inl rfl) (fun _ => rfl)

theorem Inv.call (hI : Inv v R) (hreg : v.registered = true) (w : Waker)
    (hpolls : weigh polls (↑[Role.polling ⟨w, v.hist.polls⟩ .load] + R) ≤ 1) :
    Inv { v with hist := { v.hist with polls := v.hist.polls + 1 } }
      (↑[Role.polling ⟨w, v.hist.polls⟩ .load] + R) := by
  have ⟨_, hclaim, hcell, hfired, hrole, hlast, hpend, hwoken⟩ := hI
  have hR := alone_polling hpolls
  refine ⟨fun h => absurd h (by simp [hreg]), ?_, hcell, ?_, fun r hr => ?_,
    fun p r hp => Nat.lt_succ_of_lt (hlast p r hp),
    fun p hp => (hpend p hp).add (by simp) rfl ⟨rfl, rfl⟩, hwoken⟩
  · simpa [claims] using hclaim
  · simpa [fires] using hfired
  · rcases mem_single_add.mp hr with rfl | hr
    · exact ⟨⟨Nat.lt_succ_self _, hlast⟩, trivial⟩
    · exact (hrole r hr).mono (Or.inl (hR r hr)) (Or.inl rfl) id

end Alone

/-- **One step keeps the timer's state**, given that polls come one after the other. -/
theorem Step.inv {v v' : View} {rs rs' : List Role} (h : Step v rs v' rs') (R : Multiset Role)
    (hpolls : weigh polls (↑rs + R) ≤ 1) (hpolls' : weigh polls (↑rs' + R) ≤ 1)
    (hI : Inv v (↑rs + R)) : Inv v' (↑rs' + R) := by
  cases h with
  | stutter => exact hI
  | create h =>
    have hzero := hI.fresh h
    rw [hzero]
    exact inv_new true
  | call w h =>
    rw [Multiset.coe_nil, zero_add] at hI
    exact hI.call h w hpolls'
  | loadPending w h => exact hI.spin hpolls rfl id id
  | spin w pc pc' h h' =>
    rcases h with rfl | rfl <;> rcases h' with rfl | rfl <;> exact hI.spin hpolls rfl id id
  | claim w pc h hs => exact hI.claim hpolls h hs
  | write w => exact hI.write hpolls
  | store w => exact hI.store hpolls
  | ready w pc hpc h =>
    rcases hpc with rfl | rfl <;> exact hI.return hpolls rfl (by simp)
  | pending w h => exact hI.return hpolls rfl fun _ => ⟨rfl, h⟩
  | complete hr h =>
    rw [Multiset.coe_nil, zero_add] at hI
    exact hI.complete hr h
  | fireSpin => exact hI
  | fireClaim h => exact hI.fireClaim h
  | fireEmpty h => exact hI.fireEmpty h
  | fireTake => exact hI.fireTake
  | fireNone => exact hI.fireStore (o := none) rfl
  | fireWake w =>
    have hend := (alone_firing rfl hI.fired).2.1
    have hstore := hI.fireStore (o := some w) hend.symm
    exact hstore
  | called w => exact hI.called

/-- A poll begins by a call. -/
theorem Step.polls_cases {v v' : View} {rs rs' : List Role} (h : Step v rs v' rs') :
    (rs'.map polls).sum ≤ (rs.map polls).sum ∨ ∃ w, rs' = [.polling w .load] := by
  cases h with
  | call w _ => exact Or.inr ⟨_, rfl⟩
  | _ => exact Or.inl (by simp [polls])

/-- **After the flag is set every poll returns `Ready`.** -/
theorem Step.completed {v v' : View} {rs rs' : List Role} (h : Step v rs v' rs')
    (hreg : v.registered = true) (hc : v.timer.completed = true) :
    v'.registered = true ∧ v'.timer.completed = true ∧
      (v'.hist.lastPoll = v.hist.lastPoll ∨ ∃ q, v'.hist.lastPoll = some (q, .ready ())) := by
  cases h with
  | create h => simp [hreg] at h
  | ready w _ _ _ => exact ⟨hreg, hc, Or.inr ⟨w, rfl⟩⟩
  | pending _ h => simp [hc] at h
  | complete => exact ⟨hreg, rfl, Or.inl rfl⟩
  | _ => exact ⟨hreg, hc, Or.inl rfl⟩

end SleepCell

end MiniAsync.MultiThread
