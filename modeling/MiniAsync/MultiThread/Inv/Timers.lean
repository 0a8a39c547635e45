/-
  The timer wheel of the multi-threaded runtime. A timer goes from the inbox to
  the heap, from there into the hands of the driver that fires it, and is fired
  then; `process` calls of successive drivers move it, and nothing else does.

  The invariants are about one timer `k` at a time. Where it is, is counted: in
  the inbox, in the heap, in the frame of a driver that has popped it, or among
  the timers whose firing has ended.
-/
import MiniAsync.MultiThread.Inv.Election

namespace MiniAsync.MultiThread

open Interleave

variable {V : Type}

/-! ### Where a timer is -/

/-- One for a driver that has popped the timer `k` and has not ended its firing. -/
def fires (k : ℕ) : Frame V → ℕ
  | .worker (.driveIo (.process _ (.complete _ _ e))) => if e.id = k then 1 else 0
  | .worker (.driveIo (.process _ (.fired _ _ e))) => if e.id = k then 1 else 0
  | _ => 0

/-- One for a driver that has set the flag of the timer `k` and has not ended its firing. -/
def hasCompleted (k : ℕ) : Frame V → ℕ
  | .worker (.driveIo (.process _ (.fired _ _ e))) => if e.id = k then 1 else 0
  | _ => 0

/-- How often the timer `k` is in a list of entries. -/
def occurs (k : ℕ) (l : List TimerEntry) : ℕ := l.countP (·.id = k)

/-- How often the flag of the timer `k` has been set. -/
def completions (k : ℕ) (sh : Shared V) : ℕ := sh.timerHist.completions.countP (·.1 = k)

@[simp] theorem occurs_nil (k : ℕ) : occurs k [] = 0 := rfl

theorem occurs_append (k : ℕ) (l l' : List TimerEntry) :
    occurs k (l ++ l') = occurs k l + occurs k l' :=
  List.countP_append

theorem occurs_eq_zero_iff {k : ℕ} {l : List TimerEntry} :
    occurs k l = 0 ↔ ∀ e ∈ l, e.id ≠ k := by
  simp [occurs, List.countP_eq_zero]

theorem fires_le_drives (k : ℕ) (f : Frame V) : fires k f ≤ drives f := by
  unfold fires
  split
  · split_ifs <;> simp [drives]
  · split_ifs <;> simp [drives]
  · exact Nat.zero_le _

theorem occurs_eraseIdx {k j : ℕ} {l : List TimerEntry} {e : TimerEntry} (h : l[j]? = some e) :
    occurs k (l.eraseIdx j) + (if e.id = k then 1 else 0) = occurs k l := by
  obtain ⟨hj, rfl⟩ := List.getElem?_eq_some_iff.mp h
  have hperm := List.getElem_cons_eraseIdx_perm hj
  rw [occurs, occurs, ← hperm.countP_eq, List.countP_cons]
  simp

section Step

variable {i : ℕ} {sh sh' : Shared V} {f : Frame V} {fs : List (Frame V)}

/-- A step moves a timer from one place to the next, or registers a new one. Here `r` is the
number of other threads that are firing the timer. -/
theorem Exec.timer_place (h : Exec i sh f sh' fs) (k r : ℕ)
    (hI : occurs k sh.inbox + occurs k sh.heap + (fires k f + r) + sh.timerHist.fired.count k
      = if k < sh.timerCount then 1 else 0) :
    occurs k sh'.inbox + occurs k sh'.heap + ((fs.map (fires k)).sum + r)
      + sh'.timerHist.fired.count k = if k < sh'.timerCount then 1 else 0 := by
  cases h
  case drain again =>
    simp only [occurs_append, occurs_nil, fires, List.map_cons, List.map_nil, List.sum_cons,
      List.sum_nil] at hI ⊢
    omega
  case popped again known now j e hj hmin h =>
    have herase := occurs_eraseIdx (k := k) hj
    simp only [fires, List.map_cons, List.map_nil, List.sum_cons, List.sum_nil] at hI ⊢
    omega
  case complete again known now e =>
    simp only [fires, List.map_cons, List.map_nil, List.sum_cons, List.sum_nil] at hI ⊢
    omega
  case fired again known now e =>
    simp only [fires, List.map_cons, List.map_nil, List.sum_cons, List.sum_nil, List.count_cons,
      beq_iff_eq] at hI ⊢
    omega
  case sleepRegister d =>
    have hnew : occurs k [⟨d, sh.timerCount⟩] = if sh.timerCount = k then 1 else 0 := by
      rw [occurs, List.countP_singleton]
      simp
    simp only [occurs_append, hnew, fires, List.map_cons, List.map_nil, List.sum_cons,
      List.sum_nil] at hI ⊢
    split_ifs at hI ⊢ <;> omega
  case callSpawn p | callBlockOn p | callShutdown p => cases p <;> exact hI
  case callSleep p _ | callWake p _ _ | callPollSleep p _ _ _ _ => cases p <;> exact hI
  all_goals exact hI

/-- The flag of a timer is set by the driver that fires it, once for each firing. -/
theorem Exec.timer_completions (h : Exec i sh f sh' fs) (k r : ℕ)
    (hI : completions k sh = hasCompleted k f + r + sh.timerHist.fired.count k) :
    completions k sh' = (fs.map (hasCompleted k)).sum + r + sh'.timerHist.fired.count k := by
  cases h
  case complete again known now e =>
    simp only [completions, hasCompleted, List.map_cons, List.map_nil, List.sum_cons, List.sum_nil,
      List.countP_cons, decide_eq_true_eq] at hI ⊢
    omega
  case fired again known now e =>
    simp only [completions, hasCompleted, List.map_cons, List.map_nil, List.sum_cons, List.sum_nil,
      List.count_cons, beq_iff_eq] at hI ⊢
    omega
  case callSpawn p | callBlockOn p | callShutdown p => cases p <;> exact hI
  case callSleep p _ | callWake p _ _ | callPollSleep p _ _ _ _ => cases p <;> exact hI
  all_goals exact hI

theorem update_completed {W : Type} (timer : ℕ → TimerState W) (j : ℕ) (st : TimerState W)
    (h : st.completed = (timer j).completed) (k : ℕ) :
    (Function.update timer j st k).completed = (timer k).completed := by
  rcases eq_or_ne k j with rfl | hne
  · rw [Function.update_self, h]
  · rw [Function.update_of_ne hne]

theorem Exec.timer_flag (h : Exec i sh f sh' fs) (k : ℕ) (hnew : completions sh.timerCount sh = 0)
    (hI : (sh.timer k).completed = true ↔ 0 < completions k sh) :
    (sh'.timer k).completed = true ↔ 0 < completions k sh' := by
  cases h
  case complete again known now e =>
    rcases eq_or_ne k e.id with rfl | hne
    · simp [completions]
    · simpa [completions, hne, hne.symm] using hI
  case sleepRegister d =>
    change (Function.update sh.timer sh.timerCount TimerState.new k).completed = true ↔
      0 < completions k sh
    rcases eq_or_ne k sh.timerCount with rfl | hne
    · rw [Function.update_self]
      exact iff_of_false (by simp [TimerState.new]) (by omega)
    · rw [Function.update_of_ne hne]
      exact hI
  case pollSleep j w pc _ spurious st h | pollSleepRet j w pc spurious st _ h =>
    have hst := (sh.timer j).poll_completed w spurious pc
    rw [h] at hst
    change (Function.update sh.timer j st k).completed = true ↔ 0 < completions k sh
    rw [update_completed _ _ _ hst]
    exact hI
  case fire j _ _ _ cell _ | fireNone j _ _ cell _ | fireWake j _ _ cell _ _ =>
    change (Function.update sh.timer j ⟨(sh.timer j).completed, cell⟩ k).completed = true ↔
      0 < completions k sh
    rw [update_completed sh.timer j ⟨_, cell⟩ rfl]
    exact hI
  all_goals exact hI

/-! ### What the driver knows -/

/-- What a thread knows of the timers in its position. A `process` call with `known` registered
timers has them out of the inbox; the timeout of `epoll_wait` does not reach beyond a deadline in
the heap. -/
def Frame.TimerOk (sh : Shared V) : Frame V → Prop
  | .worker (.driveIo (.process _ pc)) =>
    match pc with
    | .drain => True
    | .now known | .loop known _ => known ≤ sh.timerCount ∧ ∀ e ∈ sh.inbox, known ≤ e.id
    | .complete known now e | .fired known now e =>
      (known ≤ sh.timerCount ∧ ∀ e ∈ sh.inbox, known ≤ e.id) ∧
        e ∈ sh.timerHist.registered ∧ e.deadline ≤ now
  | .worker (.driveIo (.hasPending now next)) =>
    match next with
    | none => sh.heap = []
    | some d => ∀ e ∈ sh.heap, now + d ≤ e.deadline
  | .worker (.driveIo (.epollWait now timeout)) => ∀ e ∈ sh.heap, now + timeout ≤ e.deadline
  | .sleep (.wakeReactor k) => k < sh.timerCount
  | _ => True

/-- The wheel's lists: the ids are given out in order, and the entries of inbox and heap are
registered ones. -/
structure WheelOk (sh : Shared V) : Prop where
  ids : sh.timerHist.registered.map TimerEntry.id = List.range sh.timerCount
  inbox : ∀ e ∈ sh.inbox, e ∈ sh.timerHist.registered
  heap : ∀ e ∈ sh.heap, e ∈ sh.timerHist.registered
  returned : ∀ k ∈ sh.timerHist.returned, k < sh.timerCount

theorem WheelOk.id_lt (h : WheelOk sh) {e : TimerEntry} (he : e ∈ sh.timerHist.registered) :
    e.id < sh.timerCount := by
  have hmem := List.mem_map_of_mem (f := TimerEntry.id) he
  rw [h.ids] at hmem
  exact List.mem_range.mp hmem

/-- A registered timer is known by its id. -/
theorem WheelOk.eq_of_id (h : WheelOk sh) {e e' : TimerEntry}
    (he : e ∈ sh.timerHist.registered) (he' : e' ∈ sh.timerHist.registered)
    (hid : e.id = e'.id) : e = e' := by
  have hnd : (sh.timerHist.registered.map TimerEntry.id).Nodup := h.ids ▸ List.nodup_range
  exact List.inj_on_of_nodup_map hnd he he' hid

/-- What a step of a thread without the driver token does to the wheel. -/
theorem Exec.wheel_of_not_drives (h : Exec i sh f sh' fs) (hf : drives f = 0) :
    sh'.heap = sh.heap ∧ sh'.timerHist.completions = sh.timerHist.completions ∧
      (sh'.inbox = sh.inbox ∨ ∃ d, sh'.inbox = sh.inbox ++ [⟨d, sh.timerCount⟩]) := by
  cases h
  case sleepRegister d => exact ⟨rfl, rfl, Or.inr ⟨d, rfl⟩⟩
  all_goals first | exact ⟨rfl, rfl, Or.inl rfl⟩ | cases hf

theorem Exec.timerCount_le (h : Exec i sh f sh' fs) : sh.timerCount ≤ sh'.timerCount := by
  cases h
  all_goals first | exact Nat.le_refl _ | exact Nat.le_succ _

theorem Exec.registered_subset (h : Exec i sh f sh' fs) {e : TimerEntry}
    (he : e ∈ sh.timerHist.registered) : e ∈ sh'.timerHist.registered := by
  cases h
  case sleepRegister d => exact List.mem_append_left _ he
  all_goals exact he

theorem Exec.wheelOk (h : Exec i sh f sh' fs) (hW : WheelOk sh) (hf : f.TimerOk sh) :
    WheelOk sh' := by
  obtain ⟨hids, hinbox, hheap, hret⟩ := hW
  cases h
  case drain again =>
    refine ⟨hids, fun e he => (nomatch he), fun e he => ?_, hret⟩
    rcases List.mem_append.mp he with he | he
    · exact hheap e he
    · exact hinbox e he
  case popped again known now j e hj hmin h =>
    exact ⟨hids, hinbox, fun e' he' => hheap e' (List.mem_of_mem_eraseIdx he'), hret⟩
  case sleepRegister d =>
    refine ⟨?_, fun e he => ?_, fun e he => List.mem_append_left _ (hheap e he),
      fun k hk => Nat.lt_succ_of_lt (hret k hk)⟩
    · simp [hids, List.range_succ]
    · rcases List.mem_append.mp he with he | he
      · exact List.mem_append_left _ (hinbox e he)
      · exact List.mem_append_right _ he
  case sleepWake k =>
    refine ⟨hids, hinbox, hheap, fun j hj => ?_⟩
    rcases List.mem_cons.mp hj with rfl | hj
    · exact hf
    · exact hret j hj
  all_goals exact ⟨hids, hinbox, hheap, hret⟩

/-- The step of a driver keeps what it knows, and adds to it. -/
theorem Exec.timerOk (h : Exec i sh f sh' fs) (hW : WheelOk sh) (hf : f.TimerOk sh) :
    ∀ g ∈ fs, g.TimerOk sh' := by
  cases h
  case drain again => simp [Frame.TimerOk]
  case readClock again known t h => simpa [Frame.TimerOk] using hf
  case popped again known now j e hj hmin h =>
    simpa [Frame.TimerOk] using ⟨hf, hW.heap e (List.mem_of_getElem? hj), h⟩
  case complete again known now e => simpa [Frame.TimerOk] using hf
  case fired again known now e => simpa [Frame.TimerOk] using hf.1
  case heapEmpty known now h =>
    simp only [List.mem_singleton, forall_eq]
    exact h
  case noneExpired known now e he hmin h =>
    simp only [List.mem_singleton, forall_eq, Frame.TimerOk]
    intro e' he'
    have hle := hmin e' he'
    omega
  case hasPending now next =>
    simp only [List.mem_singleton, forall_eq, Frame.TimerOk]
    cases next with
    | none =>
      have hnil : sh.heap = [] := hf
      simp [hnil]
    | some d =>
      simp only [driveTimeout, Option.getD_some, ite_self]
      exact hf
  case sleepRegister d => exact List.forall_mem_singleton.mpr (Nat.lt_succ_self _)
  case callBlockOn p => cases p <;> simp [Frame.TimerOk, baseFrame]
  case callSpawn p | callShutdown p | callSleep p _ | callWake p _ _ | callPollSleep p _ _ _ _ =>
    cases p <;> exact List.forall_mem_cons.mpr ⟨trivial, List.forall_mem_singleton.mpr trivial⟩
  case joinReady p _ _ _ _ _ _ _ | joinPending p _ _ _ _ _ _ _ =>
    cases p <;> exact List.forall_mem_singleton.mpr trivial
  -- the other frames know nothing of the timers
  all_goals first
    | exact List.forall_mem_singleton.mpr trivial
    | exact List.forall_mem_nil _
    | exact List.forall_mem_cons.mpr ⟨trivial, List.forall_mem_singleton.mpr trivial⟩

/-- A step of another thread leaves what a thread knows: one of the two is not the driver. -/
theorem Exec.timerOk_stable (h : Exec i sh f sh' fs) {g : Frame V} (hg : g.TimerOk sh)
    (hd : drives f + drives g ≤ 1) : g.TimerOk sh' := by
  have hcount := h.timerCount_le
  cases g with
  | worker pc =>
    cases pc with
    | driveIo pc =>
      obtain ⟨hheap, -, hinbox⟩ :=
        h.wheel_of_not_drives (Nat.le_zero.mp (Nat.le_of_succ_le_succ hd))
      -- the inbox may get a new entry, with a new id
      have hknown : ∀ known, (known ≤ sh.timerCount ∧ ∀ e ∈ sh.inbox, known ≤ e.id) →
          known ≤ sh'.timerCount ∧ ∀ e ∈ sh'.inbox, known ≤ e.id := by
        rintro known ⟨hle, hin⟩
        refine ⟨hle.trans hcount, fun e he => ?_⟩
        rcases hinbox with heq | ⟨d, heq⟩
        · exact hin e (heq ▸ he)
        · rw [heq, List.mem_append, List.mem_singleton] at he
          rcases he with he | rfl
          · exact hin e he
          · exact hle
      cases pc with
      | process again pc =>
        cases pc with
        | drain => trivial
        | now known => exact hknown known hg
        | loop known now => exact hknown known hg
        | complete known now e => exact ⟨hknown known hg.1, h.registered_subset hg.2.1, hg.2.2⟩
        | fired known now e => exact ⟨hknown known hg.1, h.registered_subset hg.2.1, hg.2.2⟩
      | hasPending now next =>
        cases next with
        | none => exact hheap.trans hg
        | some d => exact fun e he => hg e (hheap ▸ he)
      | epollWait now timeout => exact fun e he => hg e (hheap ▸ he)
      | _ => trivial
    | _ => trivial
  | sleep pc =>
    cases pc with
    | wakeReactor k => exact Nat.lt_of_lt_of_le hg hcount
    | _ => trivial
  | _ => trivial

/-- A flag is set only by a `process` call whose clock reading has reached the deadline. -/
def LateEnough (sh : Shared V) : Prop :=
  ∀ e ∈ sh.timerHist.registered, ∀ now, (e.id, now) ∈ sh.timerHist.completions → e.deadline ≤ now

theorem Exec.lateEnough (h : Exec i sh f sh' fs) (hW : WheelOk sh) (hf : f.TimerOk sh)
    (hnew : completions sh.timerCount sh = 0) (hI : LateEnough sh) : LateEnough sh' := by
  cases h
  case complete again known now e =>
    intro e' he' now' hmem
    rcases List.mem_cons.mp hmem with heq | hmem
    · obtain ⟨hid, rfl⟩ := Prod.mk.inj heq
      obtain rfl := hW.eq_of_id he' hf.2.1 hid
      exact hf.2.2
    · exact hI e' he' now' hmem
  case sleepRegister d =>
    intro e' he' now' hmem
    rcases List.mem_append.mp he' with he' | he'
    · exact hI e' he' now' hmem
    · -- a new timer has not been completed
      obtain rfl := List.mem_singleton.mp he'
      have hzero := List.countP_eq_zero.mp hnew _ hmem
      simp at hzero
  all_goals exact hI

/-- The timers that a `process` call with `p.1` registered timers and the clock reading `p.2` had
to fire are fired. -/
def Processed (sh : Shared V) (p : ℕ × ℕ) : Prop :=
  p.1 ≤ sh.timerCount ∧ ∀ e ∈ sh.timerHist.registered, e.id < p.1 → e.deadline ≤ p.2 →
    e.id ∈ sh.timerHist.fired

theorem Exec.processed_stable (h : Exec i sh f sh' fs) {p : ℕ × ℕ} (hp : Processed sh p) :
    Processed sh' p := by
  obtain ⟨hle, hall⟩ := hp
  refine ⟨hle.trans h.timerCount_le, ?_⟩
  cases h
  case fired again known now e =>
    exact fun e' he' hlt hdl => List.mem_cons_of_mem _ (hall e' he' hlt hdl)
  case sleepRegister d =>
    intro e' he' hlt hdl
    rcases List.mem_append.mp he' with he' | he'
    · exact hall e' he' hlt hdl
    · obtain rfl := List.mem_singleton.mp he'
      exact absurd hlt (Nat.not_lt.mpr hle)
  all_goals exact hall

/-- What a step does to the history of `process` calls: nothing, or it is the return of one, with
no entry in the heap that has expired. -/
theorem Exec.processed_eq (h : Exec i sh f sh' fs) :
    sh'.timerHist.processed = sh.timerHist.processed ∨
      ∃ p again, f = atDrive (.process again (.loop p.1 p.2)) ∧
        (∀ e ∈ sh.heap, p.2 < e.deadline) ∧
        sh'.timerHist.processed = p :: sh.timerHist.processed := by
  cases h
  case heapEmpty known now h | heapEmptyAgain known now h =>
    exact Or.inr ⟨(known, now), _, rfl, by simp [h], rfl⟩
  case noneExpired known now e he hmin h | noneExpiredAgain known now e he hmin h =>
    exact Or.inr ⟨(known, now), _, rfl, fun e' he' => Nat.lt_of_lt_of_le h (hmin e' he'), rfl⟩
  all_goals exact Or.inl rfl

theorem Exec.fired_subset (h : Exec i sh f sh' fs) {k : ℕ} (hk : k ∈ sh.timerHist.fired) :
    k ∈ sh'.timerHist.fired := by
  cases h
  case fired again known now e => exact List.mem_cons_of_mem _ hk
  all_goals exact hk

end Step

section Run

variable {n m : ℕ} {c : Config (Shared V) (Frame V)}

/-- Of the executed frame and any other, one is not the driver's. -/
theorem Reachable.drives_le_one (h : Reachable n m c) {f g : Frame V} {R : Multiset (Frame V)}
    (hF : c.frames = f ::ₘ R) (hg : g ∈ R) : drives f + drives g ≤ 1 := by
  have hdriver := h.election.driver
  have hone := ind_le_one c.shared.driverToken
  have hle := le_weigh drives hg
  rw [hF, weigh_cons] at hdriver
  omega

theorem Reachable.timerOk (h : Reachable n m c) :
    WheelOk c.shared ∧ ∀ f ∈ c.frames, f.TimerOk c.shared := by
  refine h.invariant (I := fun sh F => WheelOk sh ∧ ∀ f ∈ F, f.TimerOk sh) ⟨?_, ?_⟩ ?_
  · exact ⟨rfl, fun e he => (nomatch he), fun e he => (nomatch he), fun k hk => (nomatch hk)⟩
  · intro f hf
    rw [start_frames, Multiset.mem_add] at hf
    rcases hf with hf | hf <;> obtain rfl := Multiset.eq_of_mem_replicate hf <;> trivial
  · rintro c c' i f fs R hc - hF - hex ⟨hW, hok⟩
    have hf := hok f (Multiset.mem_cons_self f R)
    refine ⟨hex.wheelOk hW hf, fun g hg => ?_⟩
    rcases Multiset.mem_add.mp hg with hg | hg
    · exact hex.timerOk hW hf g hg
    · exact hex.timerOk_stable (hok g (Multiset.mem_cons_of_mem hg)) (hc.drives_le_one hF hg)

/-- **Every registered timer is in exactly one place.** -/
theorem Reachable.timer_place (h : Reachable n m c) (k : ℕ) :
    occurs k c.shared.inbox + occurs k c.shared.heap + weigh (fires k) c.frames
      + c.shared.timerHist.fired.count k = if k < c.shared.timerCount then 1 else 0 := by
  refine h.invariant (I := fun sh F => occurs k sh.inbox + occurs k sh.heap + weigh (fires k) F
    + sh.timerHist.fired.count k = if k < sh.timerCount then 1 else 0) ?_ ?_
  · rw [weigh_start]
    rfl
  · intro c c' i f fs R _ _ _ _ hex hI
    rw [weigh_cons] at hI
    rw [weigh_coe_add]
    exact hex.timer_place k _ hI

theorem Reachable.timer_completions (h : Reachable n m c) (k : ℕ) :
    completions k c.shared
      = weigh (hasCompleted k) c.frames + c.shared.timerHist.fired.count k := by
  refine h.invariant (I := fun sh F => completions k sh
    = weigh (hasCompleted k) F + sh.timerHist.fired.count k) ?_ ?_
  · rw [weigh_start]
    rfl
  · intro c c' i f fs R _ _ _ _ hex hI
    rw [weigh_cons] at hI
    rw [weigh_coe_add]
    exact hex.timer_completions k _ hI

theorem hasCompleted_le_fires (k : ℕ) (f : Frame V) : hasCompleted k f ≤ fires k f := by
  unfold hasCompleted
  split
  · exact Nat.le_refl _
  · exact Nat.zero_le _

/-- The flag of a timer is set at most once, and not before the timer is registered. -/
theorem Reachable.completions_le (h : Reachable n m c) (k : ℕ) :
    completions k c.shared ≤ if k < c.shared.timerCount then 1 else 0 := by
  have hplace := h.timer_place k
  have hcompl := h.timer_completions k
  have hle := weigh_le_weigh (hasCompleted_le_fires k) c.frames
  omega

theorem Reachable.timer_flag (h : Reachable n m c) (k : ℕ) :
    (c.shared.timer k).completed = true ↔ 0 < completions k c.shared := by
  refine h.invariant (I := fun sh _ => (sh.timer k).completed = true ↔ 0 < completions k sh) ?_ ?_
  · exact iff_of_false (by simp [Shared.new, TimerState.new]) (Nat.lt_irrefl 0)
  · intro c c' i f fs R hc _ _ _ hex hI
    have hnew := hc.completions_le c.shared.timerCount
    rw [if_neg (Nat.lt_irrefl _)] at hnew
    exact hex.timer_flag k (Nat.le_zero.mp hnew) hI

theorem Reachable.lateEnough (h : Reachable n m c) : LateEnough c.shared := by
  refine h.invariant (I := fun sh _ => LateEnough sh) (fun e he => nomatch he) ?_
  intro c c' i f fs R hc _ hF _ hex hI
  obtain ⟨hW, hok⟩ := hc.timerOk
  have hnew := hc.completions_le c.shared.timerCount
  rw [if_neg (Nat.lt_irrefl _)] at hnew
  exact hex.lateEnough hW (hok f (hF ▸ Multiset.mem_cons_self f R)) (Nat.le_zero.mp hnew) hI

/-- A driver at the head of its firing loop fires nothing, and nobody else does. -/
theorem Reachable.not_fires (h : Reachable n m c) {f : Frame V} (hf : f ∈ c.frames)
    (hd : drives f = 1) (hz : ∀ k, fires k f = 0) (k : ℕ) : weigh (fires k) c.frames = 0 := by
  obtain ⟨R, hF⟩ := Multiset.exists_cons_of_mem hf
  rw [weigh_eq_zero_iff]
  intro g hg
  rw [hF, Multiset.mem_cons] at hg
  rcases hg with rfl | hg
  · exact hz k
  · have hone := h.drives_le_one hF hg
    have hle := fires_le_drives k g
    omega

/-- At the head of the firing loop, a timer that is neither in the inbox nor in the heap is
fired. -/
theorem Reachable.fired_of_loop (h : Reachable n m c) {again : Bool} {known now : ℕ}
    (hf : atDrive (.process again (.loop known now)) ∈ c.frames)
    (hheap : ∀ e ∈ c.shared.heap, now < e.deadline) {e : TimerEntry}
    (he : e ∈ c.shared.timerHist.registered) (hin : ∀ e' ∈ c.shared.inbox, e'.id ≠ e.id)
    (hdl : e.deadline ≤ now) : e.id ∈ c.shared.timerHist.fired := by
  obtain ⟨hW, -⟩ := h.timerOk
  have hnot : occurs e.id c.shared.heap = 0 := by
    refine occurs_eq_zero_iff.mpr fun e' he' hid => ?_
    obtain rfl := hW.eq_of_id (hW.heap e' he') he hid
    exact absurd (hheap e' he') (Nat.not_lt.mpr hdl)
  have hinbox := occurs_eq_zero_iff.mpr hin
  have hfires := h.not_fires hf rfl (fun _ => rfl) e.id
  have hplace := h.timer_place e.id
  rw [if_pos (hW.id_lt he)] at hplace
  exact List.count_pos_iff.mp (by omega)

/-- When no entry in the heap has expired, the `process` call has fired what it had to. -/
theorem Reachable.processed_of_loop (h : Reachable n m c) {again : Bool} {known now : ℕ}
    (hf : atDrive (.process again (.loop known now)) ∈ c.frames)
    (hheap : ∀ e ∈ c.shared.heap, now < e.deadline) : Processed c.shared (known, now) := by
  obtain ⟨hknown, hin⟩ := h.timerOk.2 _ hf
  refine ⟨hknown, fun e he hlt hdl => h.fired_of_loop hf hheap he (fun e' he' hid => ?_) hdl⟩
  -- the inbox was drained when the call began
  exact absurd (hin e' he') (Nat.not_le.mpr (hid ▸ hlt))

theorem Reachable.processed (h : Reachable n m c) :
    ∀ p ∈ c.shared.timerHist.processed, Processed c.shared p := by
  refine h.invariant (I := fun sh _ => ∀ p ∈ sh.timerHist.processed, Processed sh p)
    (fun p hp => nomatch hp) ?_
  intro c c' i f fs R hc _ hF _ hex hI p hp
  refine hex.processed_stable ?_
  obtain heq | ⟨q, again, rfl, hheap, heq⟩ := hex.processed_eq
  · exact hI p (heq ▸ hp)
  · rcases List.mem_cons.mp (heq ▸ hp) with rfl | hp
    · exact hc.processed_of_loop (hF ▸ Multiset.mem_cons_self _ R) hheap
    · exact hI p hp

/-- What holds of the timers at any time. -/
structure TimersConserved (c : Config (Shared V) (Frame V)) : Prop where
  /-- At most one worker is between its compare-and-swap on the driver token and its store, so
  the heap has one user. -/
  driver : weigh drives c.frames ≤ 1
  /-- A registered timer is in the inbox, in the heap, being fired or fired, and only there. -/
  place : ∀ e ∈ c.shared.timerHist.registered,
    occurs e.id c.shared.inbox + occurs e.id c.shared.heap + weigh (fires e.id) c.frames
      + c.shared.timerHist.fired.count e.id = 1
  /-- Its flag is set at most once, and exactly once when it is fired. -/
  once : ∀ e ∈ c.shared.timerHist.registered, completions e.id c.shared ≤ 1 ∧
    ((c.shared.timer e.id).completed = true ↔ completions e.id c.shared = 1) ∧
    (e.id ∈ c.shared.timerHist.fired → completions e.id c.shared = 1)
  /-- And only by a `process` call whose clock reading is at or after the deadline. -/
  late : ∀ e ∈ c.shared.timerHist.registered, ∀ now,
    (e.id, now) ∈ c.shared.timerHist.completions → e.deadline ≤ now
  /-- A `process` call that has drained the inbox after the registration, has read a clock at or
  after the deadline and has returned leaves the timer fired. -/
  processed : ∀ p ∈ c.shared.timerHist.processed, ∀ e ∈ c.shared.timerHist.registered,
    e.id < p.1 → e.deadline ≤ p.2 → e.id ∈ c.shared.timerHist.fired

/-- **Timers are conserved**: in every reachable configuration there is one driver at most, every
registered timer is in exactly one place, its flag is set once and not before its deadline, and it
is fired by the first `process` call that has to fire it. -/
theorem timers_conserved (h : Reachable n m c) : TimersConserved c := by
  obtain ⟨hW, -⟩ := h.timerOk
  refine ⟨?_, fun e he => ?_, fun e he => ?_, h.lateEnough, fun p hp => (h.processed p hp).2⟩
  · rw [h.election.driver]
    exact ind_le_one _
  · rw [h.timer_place, if_pos (hW.id_lt he)]
  · have hle := h.completions_le e.id
    rw [if_pos (hW.id_lt he)] at hle
    refine ⟨hle, ?_, fun hfired => ?_⟩
    · rw [h.timer_flag]
      omega
    · have hpos := List.count_pos_iff.mpr hfired
      have hcompl := h.timer_completions e.id
      omega

/-- A timer that a driver has fired at the clock reading `7`. -/
theorem timers_conserved_fired : ∃ c : Config (Shared Unit) (Frame Unit),
    c.shared.timerHist.registered = [⟨5, 0⟩] ∧ c.shared.timerHist.fired = [0] ∧
      c.shared.timerHist.completions = [(0, 7)] ∧ c.shared.timerHist.processed = [(1, 7)] ∧
      TimersConserved c := by
  obtain ⟨c, hc, hreg, hfired, hcompl, hproc⟩ := exists_reachable 1 1
    [(1, .call (.sleep 0)), (1, .now 5), (1, .go), (1, .go),
      (0, .go), (0, .go), (0, .go), (0, .go), (0, .go), (0, .now 7), (0, .pick 0), (0, .go),
      (0, .go), (0, .go), (0, .go)]
    (fun c : Config (Shared Unit) (Frame Unit) => c.shared.timerHist.registered = [⟨5, 0⟩] ∧
      c.shared.timerHist.fired = [0] ∧ c.shared.timerHist.completions = [(0, 7)] ∧
      c.shared.timerHist.processed = [(1, 7)])
    (by decide)
  exact ⟨c, hreg, hfired, hcompl, hproc, timers_conserved hc⟩

end Run

end MiniAsync.MultiThread
