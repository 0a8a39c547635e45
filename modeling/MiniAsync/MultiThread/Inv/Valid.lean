/-
  Well-formedness of the shared state: the two fields of the ready queue agree,
  and every task id that the queue, a stored waker or a call frame mentions has
  been handed out by `next_task_id`.
-/
import MiniAsync.MultiThread.Inv.Exec

namespace MiniAsync.MultiThread

open Interleave

variable {V : Type}

theorem Shared.ValidWaker.mono {sh sh' : Shared V} (hle : sh.nextTaskId ≤ sh'.nextTaskId)
    {w : Waker} (h : sh.ValidWaker w) : sh'.ValidWaker w := by
  cases w with
  | task x => exact ⟨h.1, h.2.trans_le hle⟩
  | other n => trivial

/-- The wakers a call frame holds, a task that it works on counted as its waker. -/
def Frame.mentions : Frame V → List Waker
  | .worker (.pollTask x _) => [.task x]
  | .worker (.driveIo (.collect _ ws)) => ws
  | .worker (.driveIo (.wakeAll ws)) => ws
  | .wakerWake w _ => [w]
  | .wake x _ _ _ => [.task x]
  | .enqueue x _ => [.task x]
  | .spawn x _ => [.task x]
  | .blockOn x _ => [.task x]
  | .pollSleep _ w _ => [w.waker]
  | .fire _ pc => pc.held.toList.map PollWaker.waker
  | _ => []

/-- The ids a call frame mentions are allocated. -/
def Frame.Valid (sh : Shared V) (f : Frame V) : Prop := ∀ w ∈ f.mentions, sh.ValidWaker w

/-- The ids the shared state mentions are allocated, and the ready queue is well formed. -/
structure Shared.Valid (sh : Shared V) : Prop where
  queue : ∀ x ∈ sh.readyQueue.queue, sh.Allocated x
  wf : sh.readyQueue.WF
  next : 1 ≤ sh.nextTaskId
  join : ∀ x w, (sh.task x).waker = some w → sh.ValidWaker w
  timer : ∀ k w, (sh.timer k).waker.waker = some w → sh.ValidWaker w.waker

section Step

variable {i : ℕ} {sh sh' : Shared V} {f : Frame V} {fs : List (Frame V)}

theorem Exec.nextTaskId_le (h : Exec i sh f sh' fs) : sh.nextTaskId ≤ sh'.nextTaskId := by
  cases h
  all_goals first | exact Nat.le_refl _ | exact Nat.le_succ _

/-- The waker that a firing timer hands on is valid. -/
theorem fire_waker_valid (hsh : sh.Valid) {k : ℕ} {pc : AtomicWaker.WakePc PollWaker}
    {spurious : Bool} {cell : AtomicWaker PollWaker}
    {next : AtomicWaker.WakePc PollWaker ⊕ Option PollWaker}
    (hf : (.fire k pc : Frame V).Valid sh)
    (h : (sh.timer k).waker.wake spurious pc = (cell, next)) (w : PollWaker)
    (hw : next.elim AtomicWaker.WakePc.held id = some w) : sh.ValidWaker w.waker := by
  rcases (sh.timer k).waker.wake_held spurious pc (by rw [h]; exact hw) with hpc | hcell
  · exact hf w.waker (by simp [Frame.mentions, hpc])
  · exact hsh.timer k w hcell

theorem frames_valid_pair {g : Frame V} (hf : f.Valid sh) (hg : g.Valid sh) :
    ∀ f' ∈ [f, g], f'.Valid sh :=
  List.forall_mem_cons.mpr ⟨hf, List.forall_mem_singleton.mpr hg⟩

theorem Exec.frames_valid (h : Exec i sh f sh' fs) (hsh : sh.Valid) (hf : f.Valid sh) :
    ∀ g ∈ fs, g.Valid sh' := by
  have hmono : ∀ w, sh.ValidWaker w → sh'.ValidWaker w := fun w => .mono h.nextTaskId_le
  have hkeep : f.Valid sh' := fun w hw => hmono w (hf w hw)
  unfold Frame.Valid at hf hkeep ⊢
  cases h
  case dequeueSome x q hl h =>
    have hx : x ∈ sh.readyQueue.queue := by simp [ReadyQueue.dequeue_eq_some h]
    simpa [Frame.mentions] using hmono (.task x) (hsh.queue x hx)
  case storeResultWake x v w hl hw =>
    have hx := hmono _ (hf (.task x) (by simp [Frame.mentions]))
    simpa [Frame.mentions, hx] using hmono _ (hsh.join x w hw)
  case callSpawn p =>
    have hnew : (sh.newTask false).ValidWaker (.task sh.nextTaskId) :=
      ⟨hsh.next, Nat.lt_succ_self _⟩
    simpa [Frame.mentions, hnew] using fun w hw => hmono w (hf w hw)
  case callBlockOn p =>
    have hnew : (sh.newTask true).ValidWaker (.task sh.nextTaskId) :=
      ⟨hsh.next, Nat.lt_succ_self _⟩
    simpa [Frame.mentions, hnew] using fun w hw => hmono w (hf w hw)
  case fire k pc pc' spurious cell h =>
    simpa [Frame.mentions] using fun w hw => hmono w.waker (fire_waker_valid hsh hf h w hw)
  case fireWake k pc spurious cell w h =>
    simpa [Frame.mentions] using hmono w.waker (fire_waker_valid hsh hf h w rfl)
  case storeScheduled x => exact frames_valid_pair hkeep (List.forall_mem_nil _)
  case wakeIdle x b h => exact frames_valid_pair hkeep hkeep
  case complete => exact frames_valid_pair (List.forall_mem_nil _) (List.forall_mem_nil _)
  case epollReturn ws _ hws => exact List.forall_mem_singleton.mpr hws
  case wakeAllNext w ws =>
    exact frames_valid_pair (List.forall_mem_singleton.mpr (hkeep w List.mem_cons_self))
      fun w' hw' => hkeep w' (List.mem_cons_of_mem w hw')
  case callSleep | callShutdown => exact frames_valid_pair (List.forall_mem_nil _) hkeep
  case callWake _ _ hw | callPollSleep _ _ _ _ hw =>
    exact frames_valid_pair (List.forall_mem_singleton.mpr hw) hkeep
  -- the others keep what the frame mentions, or nothing of it
  all_goals first
    | exact List.forall_mem_nil _
    | exact List.forall_mem_singleton.mpr hkeep
    | exact List.forall_mem_singleton.mpr (List.forall_mem_nil _)

/-- The shared state stays valid when its ids stay and its new wakers are valid. -/
theorem Shared.Valid.of_wakers (hsh : sh.Valid) (hq : sh'.readyQueue = sh.readyQueue)
    (hn : sh.nextTaskId ≤ sh'.nextTaskId)
    (hj : ∀ x w, (sh'.task x).waker = some w → (sh.task x).waker = some w ∨ sh.ValidWaker w)
    (ht : ∀ k w, (sh'.timer k).waker.waker = some w →
      (sh.timer k).waker.waker = some w ∨ sh.ValidWaker w.waker) : sh'.Valid := by
  refine ⟨?_, hq ▸ hsh.wf, hsh.next.trans hn, ?_, ?_⟩
  · intro x hx
    obtain ⟨hpos, hlt⟩ := hsh.queue x (hq ▸ hx)
    exact ⟨hpos, hlt.trans_le hn⟩
  · intro x w hw
    rcases hj x w hw with hw | hw
    · exact (hsh.join x w hw).mono hn
    · exact hw.mono hn
  · intro k w hw
    rcases ht k w hw with hw | hw
    · exact (hsh.timer k w hw).mono hn
    · exact hw.mono hn

/-- An update at one place brings in no waker but that of the new value. -/
theorem update_waker {β W : Type} {P : W → Prop} (waker : β → Option W) (g : ℕ → β) {a : ℕ}
    {b : β} (hb : ∀ w, waker b = some w → waker (g a) = some w ∨ P w) (x : ℕ) (w : W)
    (h : waker (Function.update g a b x) = some w) : waker (g x) = some w ∨ P w := by
  by_cases hx : x = a
  · subst hx
    exact hb w (by simpa using h)
  · exact Or.inl (by simpa [hx] using h)

theorem Shared.Valid.pollSleep (hsh : sh.Valid) {k : ℕ} {w : PollWaker}
    (hw : sh.ValidWaker w.waker) {pc : TimerState.PollPc} {spurious : Bool}
    {st : TimerState PollWaker} {next : TimerState.PollPc ⊕ Poll Unit}
    (h : (sh.timer k).poll w spurious pc = (st, next)) :
    ({ sh with timer := Function.update sh.timer k st } : Shared V).Valid := by
  refine hsh.of_wakers rfl (Nat.le_refl _) (fun _ _ => Or.inl) ?_
  refine update_waker (P := fun w => sh.ValidWaker w.waker) (·.waker.waker) sh.timer
    fun w' hw' => ?_
  have hpoll := (sh.timer k).poll_waker w spurious pc
  rw [h] at hpoll
  rcases hpoll with he | he
  · exact Or.inl (he ▸ hw')
  · cases he.symm.trans hw'
    exact Or.inr hw

theorem Shared.Valid.setTimerWaker (hsh : sh.Valid) {k : ℕ} {pc : AtomicWaker.WakePc PollWaker}
    {spurious : Bool} {cell : AtomicWaker PollWaker}
    {next : AtomicWaker.WakePc PollWaker ⊕ Option PollWaker}
    (h : (sh.timer k).waker.wake spurious pc = (cell, next)) :
    (sh.setTimerWaker k cell).Valid := by
  refine hsh.of_wakers rfl (Nat.le_refl _) (fun _ _ => Or.inl) ?_
  refine update_waker (P := fun w => sh.ValidWaker w.waker) (·.waker.waker) sh.timer
    fun w' hw' => ?_
  have hwake := (sh.timer k).waker.wake_waker spurious pc
  rw [h] at hwake
  rcases hwake with he | he
  · exact Or.inl (he ▸ hw')
  · cases he.symm.trans hw'

/-- The history is not looked at. -/
theorem Shared.Valid.modifySleep (hsh : sh.Valid) (k : ℕ) (g : SleepHist → SleepHist) :
    (sh.modifySleep k g).Valid :=
  ⟨hsh.queue, hsh.wf, hsh.next, hsh.join, hsh.timer⟩

theorem Exec.shared_valid (h : Exec i sh f sh' fs) (hsh : sh.Valid) (hf : f.Valid sh) :
    sh'.Valid := by
  cases h
  case dequeueSome x q hl h =>
    have hq := ReadyQueue.dequeue_eq_some h
    have hwf := ReadyQueue.dequeue_wf hsh.wf
    rw [h] at hwf
    exact ⟨fun y hy => hsh.queue y (by simp [hq, hy]), hwf, hsh.next, hsh.join, hsh.timer⟩
  case push x hl =>
    refine ⟨fun y hy => ?_, ReadyQueue.enqueue_wf hsh.wf x, hsh.next, hsh.join, hsh.timer⟩
    rcases ReadyQueue.mem_enqueue hsh.wf hy with hy | rfl
    · exact hsh.queue y hy
    · exact hf (.task y) (by simp [Frame.mentions])
  case pollSleep k w pc pc' spurious st h =>
    exact hsh.pollSleep (hf w.waker (by simp [Frame.mentions])) h
  case pollSleepRet k w pc spurious st r h =>
    exact (hsh.pollSleep (hf w.waker (by simp [Frame.mentions])) h).modifySleep k _
  case fire h | fireWake h => exact hsh.setTimerWaker h
  case fireNone k _ _ _ h => exact (hsh.setTimerWaker h).modifySleep k _
  all_goals
    refine hsh.of_wakers rfl (by first | exact Nat.le_refl _ | exact Nat.le_succ _) ?_ ?_
  all_goals try exact fun _ _ => Or.inl
  case joinPending p x w hx hr hl hw h =>
    refine update_waker Task.waker sh.task ?_
    rintro _ ⟨⟩
    exact Or.inr hw
  case complete again known now e =>
    refine update_waker (P := fun w => sh.ValidWaker w.waker) (·.waker.waker) sh.timer ?_
    exact fun _ => Or.inl
  case sleepRegister deadline =>
    refine update_waker (P := fun w => sh.ValidWaker w.waker) (·.waker.waker) sh.timer ?_
    rintro _ ⟨⟩
  -- the other updates of a task leave its waker or take it out
  all_goals
    refine update_waker Task.waker sh.task fun w h => ?_
    first | exact Or.inl h | cases h

end Step

/-- **Ids are allocated**: in every reachable configuration the shared state and all call frames
mention allocated ids only. -/
theorem Reachable.valid {n m : ℕ} {c : Config (Shared V) (Frame V)} (h : Reachable n m c) :
    c.shared.Valid ∧ ∀ f ∈ c.frames, f.Valid c.shared := by
  refine h.invariant (I := fun sh F => sh.Valid ∧ ∀ f ∈ F, f.Valid sh) ⟨?_, ?_⟩ ?_
  · exact ⟨by simp [Shared.new], ReadyQueue.new_wf, Nat.le_refl _, by simp [Shared.new, Task.blank],
      by simp [Shared.new, TimerState.new, AtomicWaker.new]⟩
  · intro f hf
    rw [start_frames, Multiset.mem_add] at hf
    rcases hf with hf | hf <;> obtain rfl := Multiset.eq_of_mem_replicate hf <;>
      simp [Frame.Valid, Frame.mentions]
  · rintro c c' i f fs R - - - - hex ⟨hsh, hF⟩
    have hf : f.Valid c.shared := hF f (Multiset.mem_cons_self f R)
    refine ⟨hex.shared_valid hsh hf, fun g hg => ?_⟩
    rcases Multiset.mem_add.mp hg with hg | hg
    · exact hex.frames_valid hsh hf g hg
    · exact fun w hw => (hF g (Multiset.mem_cons_of_mem hg) w hw).mono hex.nextTaskId_le

end MiniAsync.MultiThread
