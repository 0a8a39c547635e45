/-
  `TcpListener::accept` (`net.rs` and `multi_thread/net.rs`, which agree here).

  `accept` takes `&self`, so several tasks can wait for one listener; each of them
  registers the listener's descriptor for reading. A registration has one slot for
  a waker in each direction, so a second waiter takes the place of the first, which
  is then woken by nobody (`second_waiter_replaces_first`). A waiter is kept as long
  as another task polls `accept` only when a connection is there, when the kernel
  refuses its registration, or when the slot is free (`accept_waiter_kept`).
-/
import MiniAsync.Reactor.Arming

namespace MiniAsync.Accept

open Kernel Trace

/-- A waker, told apart by who stored it: `Accept::poll` of the task `t`, or a future of another
descriptor. -/
inductive Waiter where
  | accept (t : ℕ)
  | other (n : ℕ)
deriving DecidableEq

def Waiter.isAccept : Waiter → Bool
  | .accept _ => true
  | .other _ => false

/-- What the non-blocking `accept` of the listener says. -/
inductive Outcome where
  /-- A connection, and whether `set_nonblocking` succeeds for it. -/
  | connection (nonblocking : Bool)
  | wouldBlock
  | error
deriving DecidableEq

/-- What `Accept::poll` returns. -/
inductive Accepted where
  | ready (ok : Bool)
  | pending
deriving DecidableEq

/-- `Accept::poll` of the task `t` for the listener with the descriptor `listener`. -/
def poll (r : Reactor Waiter) (listener : Fd) (t : ℕ) (outcome : Outcome) (refused : Bool) :
    Accepted × Reactor Waiter :=
  match outcome with
  | .connection nonblocking => (.ready nonblocking, r)
  | .wouldBlock =>
    let (ok, r) := r.registerReadable listener (.accept t) refused
    (if ok then .pending else .ready false, r)
  | .error => (.ready false, r)

inductive Op where
  | poll (t : ℕ) (outcome : Outcome) (refused : Bool)
  /-- Anything else that happens to the reactor. -/
  | other (op : Reactor.Op Waiter)
deriving DecidableEq

inductive Result where
  | accepted (a : Accepted)
  | other (res : Reactor.Result Waiter)
deriving DecidableEq

/-- The operation is not one of `Accept::poll`'s: no other future registers the listener's
descriptor or stores the waker of a task that waits for it. -/
def foreign (listener : Fd) : Reactor.Op Waiter → Bool
  | .registerReadable fd w _ | .registerWritable fd w _ => fd != listener && !w.isAccept
  | _ => true

def step (listener : Fd) (s : Reactor.World Waiter) : Op → Option (Result × Reactor.World Waiter)
  | .poll t outcome refused =>
    if s.CanRegister listener then
      let (a, r) := poll s.reactor listener t outcome refused
      some (.accepted a, { s with reactor := r })
    else none
  | .other op =>
    if foreign listener op then
      (s.step op).map fun (res, s') => (.other res, s')
    else none

abbrev system (listener : Fd) : System (Reactor.World Waiter) Op Result := ofFn (step listener)

/-! ### The slot of the listener -/

/-- The waker that is stored for the listener. -/
def slot (r : Reactor Waiter) (listener : Fd) : Option Waiter :=
  (r.registrations listener).bind (·.readWaker)

/-- The event takes the waker of the task `t` out of its slot rightly: it wakes the task, or the
task registers anew, or the listener is dropped. -/
def releases (listener : Fd) (t : ℕ) : Op × Result → Bool
  | (.poll t' _ _, .accepted .pending) => t' == t
  | (.other .process, .other (.woken ws)) => .accept t ∈ ws
  | (.other (.deregister fd), _) => fd == listener
  | _ => false

/-- A task that finds no connection and whose registration is not refused finds the slot free, or
its own waker in it. -/
def singleWaiter (listener : Fd) (s : Reactor.World Waiter) : Op → Bool
  | .poll t .wouldBlock false => (slot s.reactor listener).all (· == .accept t)
  | _ => true

section Slot

variable {r : Reactor Waiter} {listener fd : Fd} {t : ℕ} {w : Waiter}

theorem slot_of_registrations_eq {r' : Reactor Waiter}
    (h : r'.registrations listener = r.registrations listener) :
    slot r' listener = slot r listener := by
  rw [slot, h, slot]

theorem slot_of_entry {reg : Registration Waiter} (h : r.registrations listener = some reg) :
    slot r listener = reg.readWaker := by
  rw [slot, h, Option.bind_some]

theorem slot_register_of_ne (hne : listener ≠ fd) (w : Waiter) (isRead refused : Bool) :
    slot (r.register fd w isRead refused).2 listener = slot r listener := by
  obtain hfail | ⟨reg, -, hok⟩ := Reactor.register_cases r fd w isRead refused
  · rw [hfail]
  · rw [hok]
    exact slot_of_registrations_eq (Function.update_of_ne hne _ _)

/-- `Accept::poll` stores the task's waker if it returns `Pending`, which takes an `accept` that
would block and a registration that is not refused; else it changes nothing. -/
theorem poll_cases (r : Reactor Waiter) (listener : Fd) (t : ℕ) (outcome : Outcome)
    (refused : Bool) :
    (∃ ok, poll r listener t outcome refused = (.ready ok, r)) ∨
      (outcome = .wouldBlock ∧ refused = false) ∧
      ∃ r', poll r listener t outcome refused = (.pending, r') ∧
        slot r' listener = some (.accept t) := by
  cases outcome with
  | connection nonblocking => exact Or.inl ⟨nonblocking, rfl⟩
  | error => exact Or.inl ⟨false, rfl⟩
  | wouldBlock =>
    obtain hfail | ⟨reg, hw, hok⟩ := Reactor.register_cases r listener (.accept t) true refused
    · refine Or.inl ⟨false, ?_⟩
      simp only [poll, Reactor.registerReadable, hfail, Bool.false_eq_true, if_false]
    · have hrefused : refused = false := by
        refine Bool.eq_false_iff.mpr fun h => ?_
        rw [h] at hok
        have hfail := Reactor.register_refused r listener (.accept t) true
        rw [hok] at hfail
        cases hfail
      refine Or.inr ⟨⟨rfl, hrefused⟩, r.arm listener reg, ?_, ?_⟩
      · simp only [poll, Reactor.registerReadable, hok, if_true]
      · exact (slot_of_entry (Function.update_self _ _ _)).trans hw

/-- An event wakes the waker of the listener or leaves it. -/
theorem slot_collect (hslot : slot r listener = some w) (ev : Event) :
    slot (r.collect ev).1 listener = some w ∨ w ∈ (r.collect ev).2 := by
  unfold Reactor.collect
  split_ifs
  · exact Or.inl hslot
  · split
    · exact Or.inl hslot
    · rename_i reg hreg
      rcases eq_or_ne listener ev.fd with rfl | hne
      · have hread : reg.readWaker = some w := by
          rw [slot_of_entry hreg] at hslot
          exact hslot
        -- an error or a hang-up wakes a reader as well
        by_cases hfires : (ev.read || (ev.err || ev.hup)) = true
        · refine Or.inr (List.mem_append_left _ ?_)
          simp only [Reactor.takeWaker, hfires, if_true, Registration.waker, hread]
          exact List.mem_singleton_self w
        · refine Or.inl ?_
          have hkept : ∀ writeFires, (Reactor.takeWaker
              (Reactor.takeWaker reg true (ev.read || (ev.err || ev.hup))).1 false
              writeFires).1.waker true = some w := by
            intro writeFires
            rw [Reactor.takeWaker_waker, if_neg (by simp), Reactor.takeWaker_waker,
              if_neg (fun h => hfires h.2)]
            exact hread
          exact (slot_of_entry (Function.update_self _ _ _)).trans (hkept _)
      · exact Or.inl ((slot_of_registrations_eq (Function.update_of_ne hne _ _)).trans hslot)

theorem slot_collectAll (hslot : slot r listener = some w) (evs : List Event) :
    slot (r.collectAll evs).1 listener = some w ∨ w ∈ (r.collectAll evs).2 := by
  induction evs generalizing r with
  | nil => exact Or.inl hslot
  | cons ev evs ih =>
    rcases slot_collect hslot ev with hslot | hmem
    · exact (ih hslot).imp_right (List.mem_append_right _)
    · exact Or.inr (List.mem_append_left _ hmem)

end Slot

/-! ### Whole runs -/

section Runs

variable {listener wakeFd : Fd} {s s' : Reactor.World Waiter} {t : ℕ}

/-- A registration of another descriptor. -/
theorem slot_register_foreign {fd : Fd} {w : Waiter} (hf : (fd != listener && !w.isAccept) = true)
    (isRead refused : Bool) :
    slot (s.reactor.register fd w isRead refused).2 listener = slot s.reactor listener := by
  rw [Bool.and_eq_true, bne_iff_ne] at hf
  exact slot_register_of_ne hf.1.symm w isRead refused

/-- Another operation leaves the waker of the task in its slot or releases it rightly. -/
theorem slot_world_step {op : Reactor.Op Waiter} {res : Reactor.Result Waiter}
    (hf : foreign listener op = true) (hs : Reactor.World.Step s op res s')
    (hslot : slot s.reactor listener = some (.accept t)) :
    slot s'.reactor listener = some (.accept t) ∨
      releases listener t (.other op, .other res) = true := by
  cases hs with
  | opened _ | closed _ _ | deregisterDel _ | wake | epollWait _ _ => exact Or.inl hslot
  | registerReadable hcan => exact Or.inl ((slot_register_foreign hf true _).trans hslot)
  | registerWritable hcan => exact Or.inl ((slot_register_foreign hf false _).trans hslot)
  | @deregister fd =>
    rcases eq_or_ne fd listener with rfl | hne
    · exact Or.inr (beq_self_eq_true fd)
    · exact Or.inl ((slot_of_registrations_eq (Function.update_of_ne hne.symm _ _)).trans hslot)
  | @process evs hbatch => exact (slot_collectAll hslot evs).imp_right decide_eq_true

/-- **One operation.** If no other task registers, the waker stays or is released rightly. -/
theorem slot_step {op : Op} {res : Result} (hsingle : singleWaiter listener s op = true)
    (hs : step listener s op = some (res, s'))
    (hslot : slot s.reactor listener = some (.accept t)) :
    slot s'.reactor listener = some (.accept t) ∨ releases listener t (op, res) = true := by
  cases op with
  | poll t' outcome refused =>
    simp only [step] at hs
    split_ifs at hs
    obtain ⟨ok, hready⟩ | ⟨⟨rfl, rfl⟩, r', hpending, hslot'⟩ :=
      poll_cases s.reactor listener t' outcome refused
    · rw [hready] at hs
      cases hs
      exact Or.inl hslot
    · -- only the task itself may register here
      rw [singleWaiter, hslot] at hsingle
      rw [hpending] at hs
      cases hs
      have ht : t = t' := by simpa using hsingle
      rw [← ht] at hslot'
      exact Or.inl hslot'
  | other op =>
    simp only [step] at hs
    split_ifs at hs with hf
    obtain ⟨⟨res', s₁⟩, hworld, heq⟩ := Option.map_eq_some_iff.mp hs
    cases heq
    exact slot_world_step hf (Reactor.World.step_cases hworld) hslot

theorem slot_of_poll_pending {outcome : Outcome} {refused : Bool}
    (hs : step listener s (.poll t outcome refused) = some (.accepted .pending, s')) :
    slot s'.reactor listener = some (.accept t) := by
  simp only [step] at hs
  split_ifs at hs
  obtain ⟨ok, hready⟩ | ⟨-, r', hpending, hslot⟩ :=
    poll_cases s.reactor listener t outcome refused
  · rw [hready] at hs
    cases hs
  · rw [hpending] at hs
    cases hs
    exact hslot

/-- **A waiter is kept.** In every run in which no task that finds no connection registers while the
waker of another task is stored: after a task's `Accept::poll` returned `Pending`, its waker is
stored until a reactor event wakes it, the task registers again or the listener is dropped. -/
theorem accept_waiter_kept {h₁ h₂ : List (Op × Result)} {outcome : Outcome} {refused : Bool}
    (hr : Run (ofFn (guarded (fun s op => singleWaiter listener s op = true) (step listener)))
      (Reactor.World.start wakeFd)
      (h₁ ++ (.poll t outcome refused, .accepted .pending) :: h₂) s) :
    slot s.reactor listener = some (.accept t) ∨ ∃ e ∈ h₂, releases listener t e = true := by
  obtain ⟨s₁, s₂, -, hpoll, hr₂⟩ := hr.exists_of_append_cons
  have hslot : slot s₂.reactor listener = some (.accept t) :=
    slot_of_poll_pending (guarded_eq_some hpoll).2
  refine hr₂.invariant (I := fun h s => slot s.reactor listener = some (.accept t) ∨
    ∃ e ∈ h, releases listener t e = true) (Or.inl hslot) ?_
  intro h s op res s' _ hkept hs
  obtain ⟨hsingle, hs⟩ := guarded_eq_some hs
  rcases hkept with hslot | ⟨e, he, hrel⟩
  · refine (slot_step hsingle hs hslot).imp_right fun hrel => ?_
    exact ⟨_, List.mem_append_right _ (List.mem_singleton_self _), hrel⟩
  · exact Or.inr ⟨e, List.mem_append_left _ he, hrel⟩

/-- A task polls `accept`, the batch that the kernel has returned is processed, and the task has
been woken; a second task then waits. -/
theorem accept_waiter_kept_woken :
    ∃ (h₂ : List (Op × Result)) (s : Reactor.World Waiter),
      Run (ofFn (guarded (fun s op => singleWaiter 5 s op = true) (step 5)))
        (Reactor.World.start 3)
        ([(.other (.open 5), .other .done)] ++
          (.poll 1 .wouldBlock false, .accepted .pending) :: h₂) s ∧
      slot s.reactor 5 = some (.accept 2) ∧
      (slot s.reactor 5 = some (.accept 1) ∨ ∃ e ∈ h₂, releases 5 1 e = true) := by
  obtain ⟨h, s, hr, hh, hslot⟩ := exists_run_of_exec
    (f := guarded (fun s op => singleWaiter 5 s op = true) (step 5)) (s := Reactor.World.start 3)
    [.other (.open 5), .poll 1 .wouldBlock false,
      .other (.epollWait [⟨5, true, false, false, false⟩]), .other .process,
      .poll 2 .wouldBlock false]
    (fun p => p.1 = [(.other (.open 5), .other .done)] ++
        (.poll 1 .wouldBlock false, .accepted .pending) :: p.1.drop 2 ∧
      slot p.2.reactor 5 = some (.accept 2)) (by decide)
  dsimp only at hh
  rw [hh] at hr
  exact ⟨h.drop 2, s, hr, hslot, accept_waiter_kept hr⟩

/-- **The second waiter replaces the first.** Two tasks wait for one listener; a connection arrives
and the reactor wakes the second task. The waker of the first is gone although nothing has woken
it, its task has not registered again and the listener is alive. -/
theorem second_waiter_replaces_first :
    ∃ (h₂ : List (Op × Result)) (s : Reactor.World Waiter),
      Run (system 5) (Reactor.World.start 3)
        ([(.other (.open 5), .other .done)] ++
          (.poll 1 .wouldBlock false, .accepted .pending) :: h₂) s ∧
      (.other .process, .other (.woken [.accept 2])) ∈ h₂ ∧
      slot s.reactor 5 ≠ some (.accept 1) ∧ ∀ e ∈ h₂, releases 5 1 e = false := by
  obtain ⟨h, s, hr, hh, hrest⟩ := exists_run_of_exec
    (f := step 5) (s := Reactor.World.start 3)
    [.other (.open 5), .poll 1 .wouldBlock false, .poll 2 .wouldBlock false,
      .other (.epollWait [⟨5, true, false, false, false⟩]), .other .process]
    (fun p => p.1 = [(.other (.open 5), .other .done)] ++
        (.poll 1 .wouldBlock false, .accepted .pending) :: p.1.drop 2 ∧
      (.other .process, .other (.woken [.accept 2])) ∈ p.1.drop 2 ∧
      slot p.2.reactor 5 ≠ some (.accept 1) ∧ ∀ e ∈ p.1.drop 2, releases 5 1 e = false)
    (by decide)
  dsimp only at hh
  rw [hh] at hr
  exact ⟨h.drop 2, s, hr, hrest⟩

end Runs

end MiniAsync.Accept
