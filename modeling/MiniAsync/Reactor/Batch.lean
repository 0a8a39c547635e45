/-
  What `Reactor::poll` does with a batch of events, bit for bit.

  `processEvent` is the body of the loop over the words that `epoll_wait` returns: it
  tests bits, takes wakers and makes one `epoll_ctl` call or none. `processBatch_collectAll`
  says that `collectAll` is this loop with the words read as events and masks.

  The wakers are values in slots, one slot for each descriptor and direction. An event
  empties the slots that it fires (`processEvent_take`), so the loop empties the slots of
  all events in their order (`processBatch_take`), and what is woken and what is left are
  facts about `Slots.take`. The calls are a fact about each event by itself, because the
  descriptors of a batch are distinct.
-/
import MiniAsync.Reactor.Arming
import MiniAsync.Slots.Take

namespace MiniAsync.Reactor

open Kernel Trace

variable {W : Type}

/-- The directions that have a waker, as bits. -/
def interestBits (reg : Registration W) : BitVec 32 :=
  (if reg.readWaker.isSome then epollIn else 0) ||| (if reg.writeWaker.isSome then epollOut else 0)

/-- The body of the loop over `&events[..n]`: the reactor, the wakers that are pushed and the calls
of `epoll_ctl`, whose refusal is ignored. -/
def processEvent (r : Reactor W) (refused : Fd → Bool) (ev : EpollEvent) :
    Reactor W × List W × List CtlCall :=
  if ev.fd = r.wakeFd then ({ r with counter := 0 }, [], [])
  else
    match r.registrations ev.fd with
    | none => (r, [], [])
    | some reg =>
      let errOrHup := hasAny ev.events (epollErr ||| epollHup)
      let (reg, readers) := takeWaker reg true (hasAny ev.events epollIn || errOrHup)
      let (reg, writers) := takeWaker reg false (hasAny ev.events epollOut || errOrHup)
      let remaining := interestBits reg
      if remaining ≠ 0 then
        let call : CtlCall := ⟨.mod, ev.fd, remaining ||| (epollEt ||| epollOneshot)⟩
        ({ r.setReg ev.fd (some reg) with epoll := r.epoll.issue call (refused ev.fd) },
          readers ++ writers, [call])
      else (r.setReg ev.fd (some reg), readers ++ writers, [])

/-- The loop, with `wakers_to_wake` and the calls of `epoll_ctl` in their order. -/
def processBatch (r : Reactor W) (refused : Fd → Bool) :
    List EpollEvent → Reactor W × List W × List CtlCall
  | [] => (r, [], [])
  | ev :: evs =>
    let (r₁, ws, calls) := r.processEvent refused ev
    let (r₂, ws', calls') := r₁.processBatch refused evs
    (r₂, ws ++ ws', calls ++ calls')

/-- The event has the bit of the direction, or an error or a hang-up. -/
def fires (ev : EpollEvent) (isRead : Bool) : Bool :=
  hasAny ev.events ((if isRead then epollIn else epollOut) ||| epollErr ||| epollHup)

/-- The waker that is stored for a descriptor and a direction. -/
def stored (r : Reactor W) (slot : Fd × Bool) : Option W :=
  (r.registrations slot.1).bind (·.waker slot.2)

/-! ### Words and events -/

theorem fires_read (ev : EpollEvent) :
    (hasAny ev.events epollIn || hasAny ev.events (epollErr ||| epollHup)) = fires ev true := by
  rw [fires, if_pos rfl, BitVec.or_assoc, hasAny_or _ epollIn]

theorem fires_write (ev : EpollEvent) :
    (hasAny ev.events epollOut || hasAny ev.events (epollErr ||| epollHup)) = fires ev false := by
  rw [fires, if_neg Bool.false_ne_true, BitVec.or_assoc, hasAny_or _ epollOut]

theorem interestBits_ne_zero (reg : Registration W) :
    interestBits reg ≠ 0 ↔ (reg.readWaker.isSome || reg.writeWaker.isSome) = true := by
  unfold interestBits
  cases reg.readWaker.isSome <;> cases reg.writeWaker.isSome <;> decide

theorem decode_interestBits (reg : Registration W) :
    Mask.decode (interestBits reg ||| (epollEt ||| epollOneshot)) = reg.mask := by
  unfold interestBits Registration.mask
  cases reg.readWaker.isSome <;> cases reg.writeWaker.isSome <;> decide

/-- The call that arms an entry again, if it has a waker. -/
def rearm (fd : Fd) (reg : Registration W) : List CtlCall :=
  if interestBits reg ≠ 0 then [⟨.mod, fd, interestBits reg ||| (epollEt ||| epollOneshot)⟩] else []

/-- What the event leaves of an entry. -/
def survivor (ev : EpollEvent) (reg : Registration W) : Registration W :=
  (takeWaker (takeWaker reg true (fires ev true)).1 false (fires ev false)).1

/-- **What one event does.** An event of the eventfd or of a descriptor without an entry is skipped;
any other event takes wakers out of its entry, and arms the entry again for those that are left. -/
theorem processEvent_cases (r : Reactor W) (refused : Fd → Bool) (ev : EpollEvent) :
    ((ev.fd = r.wakeFd ∨ r.registrations ev.fd = none) ∧
      (r.processEvent refused ev).1.registrations = r.registrations ∧
      (r.processEvent refused ev).2 = ([], [])) ∨
    ∃ reg, ev.fd ≠ r.wakeFd ∧ r.registrations ev.fd = some reg ∧
      (r.processEvent refused ev).1.registrations =
        Function.update r.registrations ev.fd (some (survivor ev reg)) ∧
      (r.processEvent refused ev).2.1 = (takeWaker reg true (fires ev true)).2 ++
        (takeWaker (takeWaker reg true (fires ev true)).1 false (fires ev false)).2 ∧
      (r.processEvent refused ev).2.2 = rearm ev.fd (survivor ev reg) := by
  by_cases hwake : ev.fd = r.wakeFd
  · refine Or.inl ⟨Or.inl hwake, ?_⟩
    rw [processEvent, if_pos hwake]
    exact ⟨rfl, rfl⟩
  cases hreg : r.registrations ev.fd with
  | none =>
    refine Or.inl ⟨Or.inr rfl, ?_⟩
    simp only [processEvent, if_neg hwake, hreg, and_self]
  | some reg =>
    refine Or.inr ⟨reg, hwake, rfl, ?_⟩
    unfold processEvent rearm survivor
    simp only [if_neg hwake, hreg, fires_read, fires_write]
    split_ifs <;> exact ⟨rfl, rfl, rfl⟩

theorem processEvent_wakeFd (r : Reactor W) (refused : Fd → Bool) (ev : EpollEvent) :
    (r.processEvent refused ev).1.wakeFd = r.wakeFd := by
  unfold processEvent
  split_ifs
  · rfl
  · cases r.registrations ev.fd with
    | none => rfl
    | some reg =>
      dsimp only
      split_ifs <;> rfl

theorem processEvent_collect (r : Reactor W) (ev : EpollEvent) :
    ((r.processEvent (fun _ => false) ev).1, (r.processEvent (fun _ => false) ev).2.1) =
      r.collect ev.decode := by
  rw [EpollEvent.decode]
  unfold processEvent collect
  dsimp only
  split_ifs with hwake
  · rfl
  · cases r.registrations ev.fd with
    | none => rfl
    | some reg =>
      simp only [hasAny_or, interestBits_ne_zero]
      split_ifs with hleft
      · simp only [Epoll.issue, decode_interestBits]
      · rfl

/-- `collectAll` is the loop with the words read as events and masks, when the kernel refuses no
call. -/
theorem processBatch_collectAll (r : Reactor W) (evs : List EpollEvent) :
    ((r.processBatch (fun _ => false) evs).1, (r.processBatch (fun _ => false) evs).2.1) =
      r.collectAll (evs.map EpollEvent.decode) := by
  induction evs generalizing r with
  | nil => rfl
  | cons ev evs ih =>
    rw [List.map_cons, collectAll, ← processEvent_collect]
    dsimp only
    rw [← ih]
    rfl

/-! ### The slots of the wakers -/

/-- The slots that an event fires, read before write. The reactor's own descriptor has none. -/
def fired (wakeFd : Fd) (ev : EpollEvent) : List (Fd × Bool) :=
  if ev.fd = wakeFd then [] else ([true, false].filter (fires ev)).map (ev.fd, ·)

theorem mem_fired {wakeFd : Fd} {ev : EpollEvent} {slot : Fd × Bool} :
    slot ∈ fired wakeFd ev ↔ ev.fd ≠ wakeFd ∧ ev.fd = slot.1 ∧ fires ev slot.2 = true := by
  obtain ⟨fd, d⟩ := slot
  unfold fired
  split_ifs with hwake
  · simp [hwake]
  · cases d <;> simp [hwake, and_comm]

theorem stored_setReg (r : Reactor W) (fd : Fd) (reg : Registration W) (slot : Fd × Bool) :
    (r.setReg fd (some reg)).stored slot =
      if slot.1 = fd then reg.waker slot.2 else r.stored slot := by
  rcases eq_or_ne slot.1 fd with rfl | hne
  · simp only [stored, setReg, Function.update_self, Option.bind_some, if_true]
  · simp only [stored, setReg, Function.update_of_ne hne, if_neg hne]

/-- Taking a waker out of an entry is taking the value of a slot. -/
theorem take_takeWaker {r : Reactor W} {fd : Fd} {reg : Registration W}
    (hreg : r.registrations fd = some reg) (isRead fires : Bool) :
    Slots.take r.stored (if fires then [(fd, isRead)] else []) =
      ((r.setReg fd (some (takeWaker reg isRead fires).1)).stored,
        (takeWaker reg isRead fires).2) := by
  have hstored : ∀ d, r.stored (fd, d) = reg.waker d := fun d => by
    rw [stored, hreg, Option.bind_some]
  refine Prod.ext (funext fun slot => ?_) ?_
  · obtain ⟨fd', d⟩ := slot
    show _ = (r.setReg fd _).stored (fd', d)
    rw [Slots.take_slots, stored_setReg, takeWaker_waker]
    rcases eq_or_ne fd' fd with rfl | hne
    · rw [if_pos rfl, ← hstored]
      cases fires <;> simp
    · rw [if_neg hne]
      cases fires <;> simp [hne]
  · cases fires with
    | false => rfl
    | true => exact (List.append_nil _).trans (congrArg Option.toList (hstored isRead))

theorem fired_of_ne {wakeFd : Fd} {ev : EpollEvent} (hne : ev.fd ≠ wakeFd) :
    fired wakeFd ev = (if fires ev true then [(ev.fd, true)] else []) ++
      if fires ev false then [(ev.fd, false)] else [] := by
  rw [fired, if_neg hne]
  cases hread : fires ev true <;> cases hwrite : fires ev false <;> simp [hread, hwrite]

theorem stored_congr {r r' : Reactor W} (h : r'.registrations = r.registrations) :
    r'.stored = r.stored := by
  unfold stored
  rw [h]

/-- **One event empties the slots that it fires.** -/
theorem processEvent_take (r : Reactor W) (refused : Fd → Bool) (ev : EpollEvent) :
    Slots.take r.stored (fired r.wakeFd ev) =
      ((r.processEvent refused ev).1.stored, (r.processEvent refused ev).2.1) := by
  obtain ⟨hskip, hregs, hout⟩ | ⟨reg, hne, hreg, hregs, hwoken, -⟩ :=
    r.processEvent_cases refused ev
  · rw [stored_congr hregs, hout]
    refine Slots.take_of_empty fun slot hslot => ?_
    obtain ⟨hne, hfd, -⟩ := mem_fired.mp hslot
    rw [stored, ← hfd, hskip.resolve_left hne, Option.bind_none]
  · -- the two directions are taken one after the other
    have hmid : (r.setReg ev.fd (some (takeWaker reg true (fires ev true)).1)).registrations ev.fd =
        some (takeWaker reg true (fires ev true)).1 := Function.update_self _ _ _
    rw [fired_of_ne hne, Slots.take_append, take_takeWaker hreg, take_takeWaker hmid, hwoken]
    refine Prod.ext (stored_congr ?_) rfl
    rw [hregs]
    exact Function.update_idem _ _ _

/-- **The loop empties the slots that the events fire, in their order.** -/
theorem processBatch_take (r : Reactor W) (refused : Fd → Bool) (evs : List EpollEvent) :
    Slots.take r.stored (evs.flatMap (fired r.wakeFd)) =
      ((r.processBatch refused evs).1.stored, (r.processBatch refused evs).2.1) := by
  induction evs generalizing r with
  | nil => rfl
  | cons ev evs ih =>
    rw [List.flatMap_cons, Slots.take_append, processEvent_take r refused ev,
      ← processEvent_wakeFd r refused ev, ih]
    rfl

/-- The events of a batch with distinct descriptors fire no slot twice. -/
theorem nodup_fired (wakeFd : Fd) {evs : List EpollEvent}
    (hnd : (evs.map EpollEvent.fd).Nodup) : (evs.flatMap (fired wakeFd)).Nodup := by
  rw [List.nodup_flatMap]
  refine ⟨fun ev _ => ?_, (List.pairwise_map.mp hnd).imp fun hne slot hmem hmem' => ?_⟩
  · unfold fired
    split_ifs
    · exact List.nodup_nil
    · exact ((by decide : [true, false].Nodup).filter _).map (Prod.mk_right_injective ev.fd)
  · exact hne ((mem_fired.mp hmem).2.1.trans (mem_fired.mp hmem').2.1.symm)

/-! ### The entries and the calls -/

/-- An event concerns the entry of its descriptor alone, and keeps it. -/
theorem processEvent_registrations (r : Reactor W) (refused : Fd → Bool) (ev : EpollEvent) :
    (∀ fd, fd ≠ ev.fd →
      (r.processEvent refused ev).1.registrations fd = r.registrations fd) ∧
    ∀ fd, ((r.processEvent refused ev).1.registrations fd).isSome =
      (r.registrations fd).isSome := by
  obtain ⟨-, hregs, -⟩ | ⟨reg, -, hreg, hregs, -⟩ := r.processEvent_cases refused ev
  · rw [hregs]
    exact ⟨fun _ _ => rfl, fun _ => rfl⟩
  · rw [hregs]
    refine ⟨fun fd hfd => Function.update_of_ne hfd _ _, fun fd => ?_⟩
    rcases eq_or_ne fd ev.fd with rfl | hfd
    · rw [Function.update_self, hreg]
      rfl
    · rw [Function.update_of_ne hfd]

theorem processBatch_registrations_isSome (r : Reactor W) (refused : Fd → Bool)
    (evs : List EpollEvent) (fd : Fd) :
    ((r.processBatch refused evs).1.registrations fd).isSome = (r.registrations fd).isSome := by
  induction evs generalizing r with
  | nil => rfl
  | cons ev evs ih => exact (ih _).trans ((processEvent_registrations r refused ev).2 fd)

theorem processBatch_registrations_of_notMem (r : Reactor W) (refused : Fd → Bool)
    {evs : List EpollEvent} {fd : Fd} (hfd : fd ∉ evs.map EpollEvent.fd) :
    (r.processBatch refused evs).1.registrations fd = r.registrations fd := by
  induction evs generalizing r with
  | nil => rfl
  | cons ev evs ih =>
    rw [List.map_cons, List.mem_cons, not_or] at hfd
    exact (ih _ hfd.2).trans ((processEvent_registrations r refused ev).1 fd hfd.1)

/-- The call that arms what is stored for a descriptor: exactly the directions with a waker,
edge-triggered and one-shot. There is none if no waker is stored. -/
def rearmCall (r : Reactor W) (fd : Fd) : Option CtlCall :=
  let read := (r.stored (fd, true)).isSome
  let write := (r.stored (fd, false)).isSome
  if read || write then
    some ⟨.mod, fd, (if read then epollIn else 0) ||| (if write then epollOut else 0) |||
      (epollEt ||| epollOneshot)⟩
  else none

theorem rearmCall_of_registered {r : Reactor W} {fd : Fd} {reg : Registration W}
    (hreg : r.registrations fd = some reg) : (r.rearmCall fd).toList = rearm fd reg := by
  simp only [rearmCall, rearm, stored, hreg, Option.bind_some, interestBits_ne_zero]
  simp only [Registration.waker, interestBits, if_true, Bool.false_eq_true, if_false]
  split_ifs <;> rfl

theorem rearmCall_of_unregistered {r : Reactor W} {fd : Fd} (hreg : r.registrations fd = none) :
    r.rearmCall fd = none := by
  simp only [rearmCall, stored, hreg, Option.bind_none]
  rfl

theorem rearmCall_congr {r r' : Reactor W} {fd : Fd}
    (h : r'.registrations fd = r.registrations fd) : r'.rearmCall fd = r.rearmCall fd := by
  simp only [rearmCall, stored, h]

/-- The call of one event is the one for what the event leaves. -/
theorem processEvent_calls (r : Reactor W) (refused : Fd → Bool) (ev : EpollEvent) :
    (r.processEvent refused ev).2.2 =
      if ev.fd = r.wakeFd then [] else ((r.processEvent refused ev).1.rearmCall ev.fd).toList := by
  obtain ⟨hskip, hregs, hout⟩ | ⟨reg, hne, -, hregs, -, hcalls⟩ := r.processEvent_cases refused ev
  · rw [hout]
    split_ifs with hwake
    · rfl
    · rw [rearmCall_of_unregistered ((congrFun hregs _).trans (hskip.resolve_left hwake))]
      rfl
  · have hleft : (r.processEvent refused ev).1.registrations ev.fd = some (survivor ev reg) := by
      rw [hregs, Function.update_self]
    rw [if_neg hne, hcalls, rearmCall_of_registered hleft]

/-- **The calls of the loop**, when every descriptor has one event: one for each event whose
descriptor keeps a waker to the end of the loop. -/
theorem processBatch_calls (r : Reactor W) (refused : Fd → Bool) {evs : List EpollEvent}
    (hnd : (evs.map EpollEvent.fd).Nodup) :
    (r.processBatch refused evs).2.2 = (evs.filter (·.fd ≠ r.wakeFd)).flatMap
      fun ev => ((r.processBatch refused evs).1.rearmCall ev.fd).toList := by
  induction evs generalizing r with
  | nil => rfl
  | cons ev evs ih =>
    obtain ⟨hfd, hevs⟩ := List.nodup_cons.mp hnd
    -- no later event concerns the descriptor
    have hlast : (r.processBatch refused (ev :: evs)).1.rearmCall ev.fd =
        (r.processEvent refused ev).1.rearmCall ev.fd :=
      rearmCall_congr (processBatch_registrations_of_notMem _ refused hfd)
    have hcalls : (r.processBatch refused (ev :: evs)).2.2 = (r.processEvent refused ev).2.2 ++
        ((r.processEvent refused ev).1.processBatch refused evs).2.2 := rfl
    rw [hcalls, ih _ hevs, processEvent_wakeFd, processEvent_calls]
    by_cases hwake : ev.fd = r.wakeFd
    · rw [if_pos hwake, List.filter_cons_of_neg (by simpa using hwake)]
      rfl
    · rw [if_neg hwake, List.filter_cons_of_pos (by simpa using hwake), List.flatMap_cons, hlast]
      rfl

/-! ### A whole batch -/

/-- **Event batches.** Whatever the map, the event bits and the kernel's answers are: the wakers
that are called are those in the slots that the batch fires, each once, in the order of the batch
and the reader before the writer; these slots are empty afterwards, every other slot and the keys of
the map are as before, and so no waker is lost or doubled; and `epoll_ctl` is called once for each
descriptor of the batch that keeps a waker, with exactly the directions that are left, `EPOLLET` and
`EPOLLONESHOT`. The reactor's own descriptor is only drained. -/
theorem batch_wakes_fired (r : Reactor W) (refused : Fd → Bool) (evs : List EpollEvent)
    (hnd : (evs.map EpollEvent.fd).Nodup) :
    let (r', woken, calls) := r.processBatch refused evs
    let slots := evs.flatMap (fired r.wakeFd)
    woken = slots.filterMap r.stored ∧ slots.Nodup ∧
      (∀ slot, slot ∈ slots ↔
        ∃ ev ∈ evs, ev.fd ≠ r.wakeFd ∧ ev.fd = slot.1 ∧ fires ev slot.2 = true) ∧
      (∀ slot ∈ slots, r'.stored slot = none) ∧
      (∀ slot, slot ∉ slots → r'.stored slot = r.stored slot) ∧
      (∀ fd, (r'.registrations fd).isSome = (r.registrations fd).isSome) ∧
      (∀ S : Finset (Fd × Bool), (∀ slot ∈ slots, slot ∈ S) →
        Slots.held r.stored S = woken + Slots.held r'.stored S) ∧
      calls = (evs.filter (·.fd ≠ r.wakeFd)).filterMap fun ev => r'.rearmCall ev.fd := by
  have htake := processBatch_take r refused evs
  have hkeys := processBatch_registrations_isSome r refused evs
  have hcalls := processBatch_calls r refused hnd
  rcases hout : r.processBatch refused evs with ⟨r', woken, calls⟩
  simp only [hout] at htake hkeys hcalls
  obtain ⟨hslots, hwoken⟩ := Prod.ext_iff.mp htake
  have hslot := fun slot =>
    (congrFun hslots slot).symm.trans (Slots.take_slots r.stored _ slot)
  refine ⟨?_, nodup_fired r.wakeFd hnd, fun slot => ?_, fun slot hmem => ?_, fun slot hmem => ?_,
    hkeys, fun S hS => ?_, ?_⟩
  · exact hwoken.symm.trans (Slots.take_taken r.stored (nodup_fired r.wakeFd hnd))
  · simp only [List.mem_flatMap, mem_fired]
  · exact (hslot slot).trans (if_pos hmem)
  · exact (hslot slot).trans (if_neg hmem)
  · have hheld := Slots.take_conserves r.stored hS
    rw [htake] at hheld
    exact hheld
  · rw [List.filterMap_eq_flatMap_toList]
    exact hcalls

/-- A batch of four: the eventfd, a writer that fires and leaves its reader, an unknown descriptor
and a hang-up of both directions. -/
theorem batch_wakes_fired_mixed :
    let r : Reactor ℕ := ⟨fun fd => if fd = 5 then some ⟨some 10, some 11⟩
      else if fd = 6 then some ⟨some 20, some 21⟩ else none, Epoll.new, 3, 1⟩
    let evs : List EpollEvent := [⟨epollIn, 3⟩, ⟨epollOut, 5⟩, ⟨epollIn, 9⟩, ⟨epollHup, 6⟩]
    (evs.map EpollEvent.fd).Nodup ∧
      (r.processBatch (fun _ => false) evs).2.1 = [11, 20, 21] ∧
      (r.processBatch (fun _ => false) evs).2.1 =
        (evs.flatMap (fired r.wakeFd)).filterMap r.stored ∧
      (r.processBatch (fun _ => false) evs).2.2 =
        [⟨.mod, 5, epollIn ||| (epollEt ||| epollOneshot)⟩] := by
  intro r evs
  have hnd : (evs.map EpollEvent.fd).Nodup := by decide
  exact ⟨hnd, by decide, (batch_wakes_fired r (fun _ => false) evs hnd).1, by decide⟩

/-! ### The batches of a run -/

section Runs

variable {wakeFd : Fd} {h : List (Op W × Result W)} {s s' : World W}

/-- A batch that waits to be processed has one event for each descriptor. -/
theorem World.run_batch_nodup (hr : Run (World.system W) (World.start wakeFd) h s) :
    ∀ evs, s.batch = some evs → (evs.map Event.fd).Nodup := by
  refine hr.invariant (I := fun _ s => ∀ evs, s.batch = some evs → (evs.map Event.fd).Nodup)
    (fun evs hb => by cases hb) fun h s op res s' _ hnd hs => ?_
  cases World.step_cases hs with
  | epollWait hbatch hevs =>
    rintro evs ⟨⟩
    exact hevs.1.2.1
  | process hbatch => rintro evs ⟨⟩
  | opened | closed | registerReadable | registerWritable | deregister | deregisterDel | wake =>
    exact hnd

/-- In every state that the reactor can reach, `poll` calls exactly the wakers of the batch that it
has taken: its own descriptor is in no map, so the exception for it is void. -/
theorem World.run_process_woken (hr : Run (World.system W) (World.start wakeFd) h s)
    {evs : List EpollEvent} (hb : s.batch = some (evs.map EpollEvent.decode)) {ws : List W}
    (hs : s.step .process = some (.woken ws, s')) :
    ws = evs.flatMap fun ev =>
      ([true, false].filter (fires ev)).filterMap fun d => s.reactor.stored (ev.fd, d) := by
  have hnd : (evs.map EpollEvent.fd).Nodup := by
    have hnd := World.run_batch_nodup hr _ hb
    rwa [List.map_map] at hnd
  have hwoken : ws = (s.reactor.collectAll (evs.map EpollEvent.decode)).2 := by
    simp only [World.step, hb, Option.some.injEq, Prod.mk.injEq, Result.woken.injEq] at hs
    exact hs.1.symm
  have htake := congrArg Prod.snd (processBatch_take s.reactor (fun _ => false) evs)
  rw [hwoken, ← processBatch_collectAll]
  refine htake.symm.trans ?_
  rw [Slots.take_taken _ (nodup_fired _ hnd), List.filterMap_flatMap]
  refine List.flatMap_congr fun ev _ => ?_
  unfold fired
  split_ifs with hwake
  · have hnone : ∀ d, s.reactor.stored (ev.fd, d) = none := fun d => by
      rw [stored, hwake, (World.run_ok hr).wakeFd, Option.bind_none]
    simp only [hnone, List.filterMap_nil]
    exact (List.filterMap_eq_nil_iff.mpr fun _ _ => rfl).symm
  · rw [List.filterMap_map]
    rfl

end Runs

end MiniAsync.Reactor
