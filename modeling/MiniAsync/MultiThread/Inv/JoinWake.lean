/-
  The wake of an awaiter. Under the lock of the `TaskState` the wrapper of a task
  stores the value, takes the waker of the awaiter and calls it; the call stands
  directly above the wrapper's frame, so when the wrapper goes on the call has
  returned. A call that has returned has had its effect on the awaiter, whatever
  the awaiter was doing, and so the two protocols compose: a task that is removed
  has released its awaiter, unless its future panicked.
-/
import MiniAsync.Interleave.Stack
import MiniAsync.MultiThread.Inv.WakeUp
import MiniAsync.MultiThread.Inv.Join

namespace MiniAsync.MultiThread

open Interleave

variable {V : Type}

/-- If the wrapper of the task `t` took a waker, then a call of that waker, of a task's or of a
foreign one, has returned since the value was stored; one of a task's waker was made since then,
too. -/
structure WakeDone (t : TaskId) (sh : Shared V) : Prop where
  task : ∀ a, (sh.hist t).taken = some (.task a) →
    ∃ b ∈ (sh.hist a).returned, (sh.hist t).storedAt a ≤ b
  foreign : ∀ k, (sh.hist t).taken = some (.other k) →
    (sh.hist t).foreignAt k < sh.foreignWakes k

/-- What is above the frame of a wrapper that holds the lock of the `TaskState`: the wake of the
waker it took, until the wake is done. -/
def Beneath (sh : Shared V) (o : Option (Frame V)) : Frame V → Prop
  | .worker (.pollTask t .unlock) =>
    match o with
    | none => WakeDone t sh
    | some (.wakerWake w _) => (sh.hist t).taken = some w
    | some (.wake a b _ _) => (sh.hist t).taken = some (.task a) ∧ (sh.hist t).storedAt a ≤ b
    | some _ => False
  | _ => True

section Step

variable {i : ℕ} {sh sh' : Shared V} {f : Frame V} {fs : List (Frame V)}

/-- What the history of a task keeps of its store. -/
def published (h : TaskHist V) : Option Waker × (TaskId → ℕ) × (ℕ → ℕ) :=
  (h.taken, h.storedAt, h.foreignAt)

/-- The record of a store changes when the wrapper stores, and is empty for a new task. -/
theorem Exec.published_cases (h : Exec i sh f sh' fs) (t : TaskId) :
    published (sh'.hist t) = published (sh.hist t) ∨
      (∃ v, f = atPoll t (.storeResult v) ∧
        published (sh'.hist t) =
          ((sh.task t).waker, fun a => (sh.hist a).polls, sh.foreignWakes)) ∨
      (t = sh.nextTaskId ∧ sh'.hist t = TaskHist.blank) := by
  cases h
  case storeResult y v hl hw | storeResultWake y v w hl hw =>
    rcases eq_or_ne t y with rfl | hne
    · exact Or.inr (Or.inl ⟨v, rfl, by simp [Shared.resultStored, published]⟩)
    · exact Or.inl (by simp [Shared.resultStored, hne])
  case callSpawn p | callBlockOn p =>
    rcases eq_or_ne t sh.nextTaskId with rfl | hne
    · exact Or.inr (Or.inr ⟨rfl, by simp [Shared.newTask]⟩)
    · exact Or.inl (by simp [Shared.newTask, hne])
  all_goals first
    | exact Or.inl rfl
    | exact Or.inl (Shared.modifyHist_hist published _ _ _ _ rfl)

theorem Exec.returned_mono (h : Exec i sh f sh' fs) {a : TaskId} (ha : sh.Allocated a) {b : ℕ}
    (hb : b ∈ (sh.hist a).returned) : b ∈ (sh'.hist a).returned := by
  cases h
  case callSpawn p | callBlockOn p => simpa [Shared.newTask, Nat.ne_of_lt ha.2] using hb
  case loadWoken y b' _ h | wakeRunning y b' _ h =>
    rcases eq_or_ne a y with rfl | hne
    · simp [wakeReturned, Shared.setStatus, hb]
    · simpa [wakeReturned, Shared.setStatus, hne] using hb
  case wakeRet y b' _ =>
    rcases eq_or_ne a y with rfl | hne
    · simp [wakeReturned, hb]
    · simpa [wakeReturned, hne] using hb
  case storeResult | storeResultWake =>
    rwa [Shared.resultStored, Shared.modifyHist_hist TaskHist.returned _ _ _ _ rfl]
  all_goals first
    | exact hb
    | rwa [Shared.modifyHist_hist TaskHist.returned _ _ _ _ rfl]

theorem published_iff {h h' : TaskHist V} :
    published h' = published h ↔
      h'.taken = h.taken ∧ h'.storedAt = h.storedAt ∧ h'.foreignAt = h.foreignAt := by
  simp only [published, Prod.mk_inj]

theorem Exec.foreignWakes_mono (h : Exec i sh f sh' fs) (k : ℕ) :
    sh.foreignWakes k ≤ sh'.foreignWakes k := by
  cases h
  case wakeOther j _ =>
    rcases eq_or_ne k j with rfl | hne
    · simp [Shared.foreignReturned, Shared.sleepWoken]
    · simp [Shared.foreignReturned, Shared.sleepWoken, hne]
  all_goals exact Nat.le_refl _

/-- A wake that is done stays done. -/
theorem Exec.wakeDone (h : Exec i sh f sh' fs) (hset : WakesSettled sh) {t : TaskId}
    (hpub : published (sh'.hist t) = published (sh.hist t)) (hdone : WakeDone t sh) :
    WakeDone t sh' := by
  obtain ⟨htaken, hat, hfor⟩ := published_iff.mp hpub
  refine ⟨fun a ha => ?_, fun k hk => ?_⟩
  · rw [htaken] at ha
    obtain ⟨b, hb, hle⟩ := hdone.task a ha
    have halloc : sh.Allocated a := of_decide_eq_true (hset a b hb).1.1
    exact ⟨b, h.returned_mono halloc hb, hat ▸ hle⟩
  · rw [htaken] at hk
    rw [hfor]
    exact (hdone.foreign k hk).trans_le (h.foreignWakes_mono k)

/-- The frames that a step leaves: a wrapper that has taken a waker is beneath its wake. -/
theorem Exec.linked (h : Exec i sh f sh' fs) : Linked (Beneath sh') none fs := by
  cases h
  case storeResult y v hl hw =>
    refine ⟨⟨fun a ha => ?_, fun k hk => ?_⟩, trivial⟩
    · simp [Shared.resultStored, hw] at ha
    · simp [Shared.resultStored, hw] at hk
  case storeResultWake y v w hl hw =>
    refine ⟨trivial, ?_, trivial⟩
    simp [Beneath, Shared.resultStored, hw]
  case callSpawn p | callShutdown p | callSleep p _ | callWake p _ _ | callPollSleep p _ _ _ _ =>
    cases p <;> exact ⟨trivial, trivial, trivial⟩
  case callBlockOn p => cases p <;> exact ⟨trivial, trivial, trivial, trivial⟩
  case joinReady p _ _ _ _ _ _ _ | joinPending p _ _ _ _ _ _ _ =>
    cases p <;> exact ⟨trivial, trivial⟩
  all_goals first
    | exact ⟨trivial, trivial⟩
    | exact trivial
    | exact ⟨trivial, trivial, trivial⟩

/-- A step of the wake above a wrapper: it goes on, or it returns and is done. -/
theorem Exec.beneath (h : Exec i sh f sh' fs) {t : TaskId}
    (hle : ∀ a, (sh.hist t).storedAt a ≤ (sh.hist a).polls)
    (hle' : ∀ k, (sh.hist t).foreignAt k ≤ sh.foreignWakes k)
    (hpub : published (sh'.hist t) = published (sh.hist t))
    (hb : Beneath sh (some f) (atPoll t .unlock)) :
    Beneath sh' fs.getLast? (atPoll t .unlock) := by
  obtain ⟨htaken, hat, hfor⟩ := published_iff.mp hpub
  have hret : ∀ {a b}, (sh.hist t).taken = some (.task a) ∧ (sh.hist t).storedAt a ≤ b →
      b ∈ (sh'.hist a).returned → WakeDone t sh' := by
    rintro a b ⟨htk, hle⟩ hmem
    refine ⟨fun a' ha' => ?_, fun k hk => ?_⟩
    · rw [htaken, htk] at ha'
      cases ha'
      exact ⟨b, hmem, hat ▸ hle⟩
    · rw [htaken, htk] at hk
      cases hk
  cases h
  case wakeTask y _ => exact ⟨htaken.trans hb, hat ▸ hle y⟩
  case wakeOther j _ =>
    refine ⟨fun a ha => ?_, fun k hk => ?_⟩
    · cases ha.symm.trans (htaken.trans hb)
    · cases hk.symm.trans (htaken.trans hb)
      rw [hfor]
      simpa [Shared.foreignReturned, Shared.sleepWoken] using Nat.lt_succ_of_le (hle' j)
  case loadIdle | loadRunning | retryIdle | retryRunning => exact hb
  case wakeIdle y b _ _ => exact ⟨htaken.trans hb.1, hat ▸ hb.2⟩
  case loadWoken | wakeRunning | wakeRet => exact hret hb (by simp [wakeReturned])
  case callSpawn p | callBlockOn p | callShutdown p | callSleep p _ | callWake p _ _ =>
    cases p <;> cases hb
  case callPollSleep p _ _ _ _ | joinReady p _ _ _ _ _ _ _ | joinPending p _ _ _ _ _ _ _ =>
    cases p <;> cases hb
  -- no other frame is above a wrapper
  all_goals exact hb.elim

/-- The relation is about wrappers that hold the lock only. -/
theorem beneath_cases (sh : Shared V) (o : Option (Frame V)) (g : Frame V) :
    Beneath sh o g ∨ ∃ t, g = atPoll t .unlock := by
  cases g with
  | worker pc =>
    cases pc with
    | pollTask t pc =>
      cases pc with
      | unlock => exact Or.inr ⟨t, rfl⟩
      | _ => exact Or.inl trivial
    | _ => exact Or.inl trivial
  | _ => exact Or.inl trivial

theorem Exec.beneath_stable (h : Exec i sh f sh' fs) (hset : WakesSettled sh) {t : TaskId}
    {o : Option (Frame V)} (hpub : published (sh'.hist t) = published (sh.hist t))
    (hb : Beneath sh o (atPoll t .unlock)) : Beneath sh' o (atPoll t .unlock) := by
  obtain ⟨htaken, hat, -⟩ := published_iff.mp hpub
  cases o with
  | none => exact h.wakeDone hset hpub hb
  | some g =>
    cases g with
    | wakerWake w _ => exact htaken.trans hb
    | wake a b _ pc => exact ⟨htaken.trans hb.1, hat ▸ hb.2⟩
    | _ => exact hb.elim

theorem Exec.woken_cases (h : Exec i sh f sh' fs) {t : TaskId}
    (hw : (sh'.hist t).woken = true) : (sh.hist t).woken = true ∨ f = atPoll t .unlock := by
  cases h
  case unlock y =>
    rcases eq_or_ne t y with rfl | hne
    · exact Or.inr rfl
    · rw [Shared.modifyHist_hist_of_ne _ hne] at hw
      exact Or.inl hw
  case callSpawn p | callBlockOn p =>
    rcases eq_or_ne t sh.nextTaskId with rfl | hne
    · simp [Shared.newTask, TaskHist.blank] at hw
    · exact Or.inl (by simpa [Shared.newTask, hne] using hw)
  case storeResult | storeResultWake =>
    rw [Shared.resultStored, Shared.modifyHist_hist TaskHist.woken _ _ _ _ rfl] at hw
    exact Or.inl hw
  case loadWoken | wakeRunning | wakeRet =>
    rw [wakeReturned, Shared.modifyHist_hist TaskHist.woken _ _ _ _ rfl] at hw
    exact Or.inl hw
  all_goals first
    | exact Or.inl hw
    | rw [Shared.modifyHist_hist TaskHist.woken _ _ _ _ rfl] at hw
      exact Or.inl hw

end Step

section Run

variable {n m : ℕ} {c : Config (Shared V) (Frame V)}

theorem Reachable.polls_le {i : ℕ} {f : Frame V} {sh' : Shared V} {fs : List (Frame V)}
    {R : Multiset (Frame V)} (h : Reachable n m c) (hF : c.frames = f ::ₘ R)
    (hex : Exec i c.shared f sh' fs) (a : TaskId) :
    (c.shared.hist a).polls ≤ (sh'.hist a).polls := by
  obtain ⟨hsh, hval⟩ := h.valid
  have hI := h.lifecycle a
  rw [hF, tally_cons] at hI
  exact (hex.lifecycle hsh (hval f (hF ▸ Multiset.mem_cons_self f R)) a).polls_le _ hI

/-- The polls counted at a store are not more than those of today. -/
theorem Reachable.storedAt_le (h : Reachable n m c) (t a : TaskId) :
    (c.shared.hist t).storedAt a ≤ (c.shared.hist a).polls := by
  refine h.invariant (I := fun sh _ => (sh.hist t).storedAt a ≤ (sh.hist a).polls)
    (Nat.zero_le _) ?_
  intro c c' i f fs R hc _ hF _ hex hI
  have hpolls := hc.polls_le hF hex a
  rcases hex.published_cases t with hpub | ⟨v, -, hpub⟩ | ⟨-, hnew⟩
  · rw [(published_iff.mp hpub).2.1]
    exact hI.trans hpolls
  · have hat : (c'.shared.hist t).storedAt = fun a => (c.shared.hist a).polls :=
      congrArg (·.2.1) hpub
    rw [hat]
    exact hpolls
  · rw [hnew]
    exact Nat.zero_le _

theorem Reachable.foreignAt_le (h : Reachable n m c) (t : TaskId) (k : ℕ) :
    (c.shared.hist t).foreignAt k ≤ c.shared.foreignWakes k := by
  refine h.invariant (I := fun sh _ => (sh.hist t).foreignAt k ≤ sh.foreignWakes k)
    (Nat.zero_le _) ?_
  intro c c' i f fs R _ _ _ _ hex hI
  have hmono := hex.foreignWakes_mono k
  rcases hex.published_cases t with hpub | ⟨v, -, hpub⟩ | ⟨-, hnew⟩
  · rw [(published_iff.mp hpub).2.2]
    exact hI.trans hmono
  · have hat : (c'.shared.hist t).foreignAt = c.shared.foreignWakes := congrArg (·.2.2) hpub
    rw [hat]
    exact hmono
  · rw [hnew]
    exact Nat.zero_le _

/-- While a wrapper holds the lock, the record of its store does not change. -/
theorem Reachable.published_of_unlock {i : ℕ} {f : Frame V} {sh' : Shared V}
    {fs : List (Frame V)} {R : Multiset (Frame V)} (h : Reachable n m c)
    (hF : c.frames = f ::ₘ R) (hex : Exec i c.shared f sh' fs) {t : TaskId}
    (ht : atPoll t .unlock ∈ R) : published (sh'.hist t) = published (c.shared.hist t) := by
  rcases hex.published_cases t with hpub | ⟨v, rfl, -⟩ | ⟨rfl, -⟩
  · exact hpub
  · -- the worker that stores and the one that unlocks are both inside the poll
    have hone := h.card_positions_le t
    have hmem : .unlocking ∈ allRoles Frame.position t R :=
      mem_allRoles.mpr ⟨_, ht, rfl⟩
    have hpos := Multiset.card_pos_iff_exists_mem.mpr ⟨_, hmem⟩
    rw [hF, allRoles_cons, rolesOf_self Frame.position rfl, Multiset.card_add, Multiset.coe_card,
      List.length_singleton] at hone
    omega
  · have halloc := h.valid.2 _ (hF ▸ Multiset.mem_cons_of_mem ht) (.task c.shared.nextTaskId)
      (by simp [Frame.mentions])
    exact absurd halloc.2 (Nat.lt_irrefl _)

/-- **A wrapper that holds the lock is beneath the wake of its awaiter, or the wake is done.** -/
theorem Reachable.beneath (h : Reachable n m c) :
    ∀ st ∈ c.threads, Linked (Beneath c.shared) none st := by
  refine Machine.ReachesVia.stack_invariant h ?_ ?_
  · intro st hst
    rcases List.mem_append.mp hst with hst | hst <;> obtain rfl := List.eq_of_mem_replicate hst <;>
      exact ⟨trivial, trivial⟩
  · intro c c' i x f fs R hc hc' _ hF _ hexec _
    have hex : Exec i c.shared f c'.shared fs := exec_cases hexec
    have hc : Reachable n m c := hc
    obtain ⟨hset, -⟩ := hc.wakesSettled
    refine ⟨hex.linked, fun g hg hb => ?_, fun o g hg hb => ?_⟩
    · rcases beneath_cases c'.shared fs.getLast? g with htriv | ⟨t, rfl⟩
      · exact htriv
      · exact hex.beneath (hc.storedAt_le t) (hc.foreignAt_le t)
          (hc.published_of_unlock hF hex hg) hb
    · rcases beneath_cases c'.shared o g with htriv | ⟨t, rfl⟩
      · exact htriv
      · exact hex.beneath_stable hset (hc.published_of_unlock hF hex hg) hb

/-- A wrapper that has released the lock has made its wake. -/
theorem Reachable.wakeDone (h : Reachable n m c) {t : TaskId}
    (hw : (c.shared.hist t).woken = true) : WakeDone t c.shared := by
  refine Machine.ReachesVia.frame_invariant h
    (I := fun sh _ => (sh.hist t).woken = true → WakeDone t sh) (fun hw => nomatch hw) ?_ hw
  intro c c' i x f fs R hc _ _ htop hF _ hexec hI hw
  have hc : Reachable n m c := hc
  have hex : Exec i c.shared f c'.shared fs := exec_cases hexec
  obtain ⟨hset, -⟩ := hc.wakesSettled
  have hdone : WakeDone t c.shared := by
    rcases hex.woken_cases hw with hw | rfl
    · exact hI hw
    · exact linked_of_top hc.beneath htop
  rcases hex.published_cases t with hpub | ⟨v, rfl, -⟩ | ⟨-, hnew⟩
  · exact hex.wakeDone hset hpub hdone
  · -- after the wake the poll has ended, and no worker stores the value again
    have hw : (c.shared.hist t).woken = true := (hex.woken_cases hw).resolve_right (by simp)
    have hfin : (c.shared.hist t).finished = true := (hc.handover t).woken hw
    have hone := hc.card_positions_le t
    rw [hF, allRoles_cons, rolesOf_self Frame.position rfl, hfin] at hone
    have hfalse := (Handover.alone hone).2
    cases hfalse
  · rw [hnew] at hw
    cases hw

/-- **A task that is removed has released its awaiter**, in every run in which its future does not
panic and its handle is not polled after it has yielded the value; and the call of the waker that
the wrapper of a spawned task took has returned. -/
theorem removed_released {n m : ℕ} {c : Config (Shared V) (Frame V)} {x : TaskId}
    (h : (machine V).ReachesVia (fun d i ch => ¬ Panics x d i ch ∧ ¬ PollsAgain x d ch)
      (start V n m) c) (hrem : (c.shared.hist x).removed = true) :
    Released x c.shared ∧ ((c.shared.task x).root = false → WakeDone x c.shared) := by
  have hflags := not_strayed h
  rw [strayed, Bool.or_eq_false_iff] at hflags
  have hr : Reachable n m c := h.reaches
  have hfin := hr.finished_of_removed hrem
  have hI := hr.handover x
  refine ⟨hI.released hfin hflags.1 hflags.2, fun hroot => hr.wakeDone ?_⟩
  exact ((hI.finished hfin).resolve_left (ne_true_of_eq_false hflags.1)).2 hroot

/-- The task `2` awaits the handle of the task `1`, whose future returns a value. -/
theorem removed_released_value : ∃ c : Config (Shared Unit) (Frame Unit),
    (c.shared.hist 1).removed = true ∧ (c.shared.hist 1).lastPending = some (.task 2) ∧
      (c.shared.task 1).root = false ∧ Released 1 c.shared ∧ WakeDone 1 c.shared := by
  obtain ⟨c, hc, hrem, hlast, hroot⟩ := Machine.exists_reachesVia_of_run (M := machine Unit)
    [(2, .call .spawn), (2, .go), (2, .go), (2, .go), (2, .go), (2, .go),
      (2, .call .spawn), (2, .go), (2, .go), (2, .go), (2, .go), (2, .go),
      (0, .go), (0, .go), (0, .go), (0, .go), (1, .go), (1, .go), (1, .go), (1, .go),
      (1, .call (.pollJoin 1 (.task 2))), (0, .ret (.ready ())), (0, .go), (0, .go), (0, .go),
      (0, .go), (0, .go), (0, .go)]
    (fun c : Config (Shared Unit) (Frame Unit) => (c.shared.hist 1).removed = true ∧
      (c.shared.hist 1).lastPending = some (.task 2) ∧ (c.shared.task 1).root = false)
    (by decide : ((machine Unit).run (fun d i ch => ¬ Panics 1 d i ch ∧ ¬ PollsAgain 1 d ch)
      (start Unit 2 1) _).any _ = true)
  obtain ⟨hrel, hdone⟩ := removed_released hc hrem
  exact ⟨c, hrem, hlast, hroot, hrel, hdone hroot⟩

/-- The wrapper of the task `t` has stored the value and has finished its wake: it has gone on, or
it is about to release the lock. -/
def WakeFinished (t : TaskId) (c : Config (Shared V) (Frame V)) : Prop :=
  (c.shared.hist t).stored = true ∧
    ((c.shared.hist t).woken = true ∨ ∃ i, c.top i = some (atPoll t .unlock))

/-- **Join delivery.** The handle of a task yields at most one value, the one that the future
returned. And when the wrapper has stored the value and finished its wake, the value has not been
taken, and the latest poll of the handle was made by a task `a` with its own waker and returned
`Pending`, then `a` is SCHEDULED or NOTIFIED or has begun a poll since the store. -/
theorem join_delivers (h : Reachable n m c) (t : TaskId) :
    ((c.shared.hist t).yielded.length ≤ 1 ∧
      ∀ v ∈ (c.shared.hist t).yielded, (c.shared.hist t).output = some v) ∧
    ∀ a, WakeFinished t c → (c.shared.hist t).yielded = [] →
      (c.shared.hist t).lastPoll = some ⟨some a, .task a, false⟩ →
      (c.shared.task a).status = .scheduled ∨ (c.shared.task a).status = .notified ∨
        (c.shared.hist t).storedAt a < (c.shared.hist a).polls := by
  refine ⟨(h.handover t).yielded, fun a hfin hy hlast => ?_⟩
  obtain ⟨hstored, hwake⟩ := hfin
  have htaken : (c.shared.hist t).taken = some (.task a) :=
    (h.handover t).taken_of_lastPoll hstored hy hlast rfl
  have hdone : WakeDone t c.shared := by
    rcases hwake with hw | ⟨i, htop⟩
    · exact h.wakeDone hw
    · exact linked_of_top h.beneath htop
  -- the wake call has returned, so it has had its effect on `a`
  obtain ⟨b, hb, hle⟩ := hdone.task a htaken
  obtain ⟨-, hlt | hwoken⟩ := h.wakesSettled.1 a b hb
  · exact Or.inr (Or.inr (Nat.lt_of_le_of_lt hle hlt))
  · rcases Lifecycle.woken_iff.mp hwoken with hs | hs
    · exact Or.inl hs
    · exact Or.inr (Or.inl hs)

/-- The task `2` polls the handle of the task `1` and is still inside its poll when the value of
the task `1` is stored. -/
theorem join_delivers_running : ∃ c : Config (Shared Unit) (Frame Unit),
    WakeFinished 1 c ∧ (c.shared.hist 1).lastPoll = some ⟨some 2, .task 2, false⟩ ∧
      ((c.shared.task 2).status = .scheduled ∨ (c.shared.task 2).status = .notified ∨
        (c.shared.hist 1).storedAt 2 < (c.shared.hist 2).polls) := by
  obtain ⟨c, hc, hstored, hwoken, hy, hlast⟩ := exists_reachable 2 1
    [(2, .call .spawn), (2, .go), (2, .go), (2, .go), (2, .go), (2, .go),
      (2, .call .spawn), (2, .go), (2, .go), (2, .go), (2, .go), (2, .go),
      (0, .go), (0, .go), (0, .go), (0, .go), (1, .go), (1, .go), (1, .go), (1, .go),
      (1, .call (.pollJoin 1 (.task 2))), (0, .ret (.ready ())), (0, .go), (0, .go), (0, .go),
      (0, .go), (0, .go)]
    (fun c : Config (Shared Unit) (Frame Unit) => (c.shared.hist 1).stored = true ∧
      (c.shared.hist 1).woken = true ∧ (c.shared.hist 1).yielded = [] ∧
      (c.shared.hist 1).lastPoll = some ⟨some 2, .task 2, false⟩)
    (by decide)
  exact ⟨c, ⟨hstored, Or.inl hwoken⟩, hlast,
    (join_delivers hc 1).2 2 ⟨hstored, Or.inl hwoken⟩ hy hlast⟩

end Run

end MiniAsync.MultiThread
