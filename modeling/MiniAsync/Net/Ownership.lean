/-
  Who owns which descriptor.

  The reactor relies on its callers: a descriptor is open when it is registered, it is
  not closed before its `deregister` is done, and it is not registered during its
  `deregister`. `TcpListener` and `TcpStream` keep to this because the object that
  owns a descriptor is the only one to know its number, and because a future borrows
  the object.

  `Owned` ties the objects to the descriptors: every open descriptor but the eventfd
  has one owner, and how far the owner is tells what the reactor knows of the
  descriptor. `Borrowed` ties the futures to the objects. Together they give
  `net_discipline`: the guards of `Reactor.World.step` are always met.
-/
import MiniAsync.Net.Basic
import MiniAsync.Resource.Holders

namespace MiniAsync.Net

open Kernel Reactor Trace Resource

variable {W σ ε χ : Type}

/-- What is known of a descriptor: to the kernel, to the reactor and to the calls of `deregister`
that are under way; and whether its socket, if it has one, is in non-blocking mode. -/
structure View where
  isOpen : Bool
  registered : Bool
  closing : Bool
  mode : Option Bool

def view (w : World W) (sockets : Fd → Option (Socket σ)) (fd : Fd) : View :=
  ⟨w.isOpen fd, (w.reactor.registrations fd).isSome, w.closing fd,
    (sockets fd).map Socket.nonblocking⟩

/-- What is known of a descriptor without owner: only the eventfd is open. -/
def idleView (wakeFd fd : Fd) : View := ⟨decide (fd = wakeFd), false, false, none⟩

/-- What is known of the descriptor of an owner. -/
structure Owner.Fits (wakeFd : Fd) (o : Owner) (v : View) : Prop where
  ne_wakeFd : o.fd ≠ wakeFd
  isOpen : v.isOpen = true
  mode : ∃ mode, v.mode = some mode ∧ (o.phase = .live → mode = true)
  phase : match o.phase with
    | .raw _ => v.registered = false ∧ v.closing = false
    | .live => v.closing = false
    | .dropping del => v.registered = false ∧ v.closing = del

/-- Every open descriptor but the eventfd has one owner. -/
structure Owned (wakeFd : Fd) (s : State W σ) : Prop where
  eventfd : s.world.reactor.wakeFd = wakeFd
  held : Held Owner.fd (Owner.Fits wakeFd) (idleView wakeFd) (view s.world s.sockets) s.owners

theorem Owned.isOpen_iff {wakeFd : Fd} {s : State W σ} (h : Owned wakeFd s) (fd : Fd) :
    s.world.isOpen fd = true ↔ fd = wakeFd ∨ ∃ k o, s.owners k = some o ∧ o.fd = fd := by
  constructor
  · intro hopen
    by_contra hno
    rw [not_or] at hno
    have hidle := congrArg View.isOpen (h.held.idle fd fun k o ho hfd => hno.2 ⟨k, o, ho, hfd⟩)
    rw [show (view s.world s.sockets fd).isOpen = true from hopen] at hidle
    exact hno.1 (of_decide_eq_true hidle.symm)
  · rintro (rfl | ⟨k, o, ho, rfl⟩)
    · have hnone : ∀ k o, s.owners k = some o → o.fd ≠ fd := fun k o ho =>
        (h.held.fits k o ho).ne_wakeFd
      exact (congrArg View.isOpen (h.held.idle fd hnone)).trans (decide_eq_true rfl)
    · exact (h.held.fits k o ho).isOpen

/-- Every future borrows a live object; a `TcpStream` lends itself to one future only. -/
structure Borrowed (owners : ℕ → Option Owner) (futures : ℕ → Option (Future W)) : Prop where
  lender : ∀ f t, futures f = some t → ∃ o, owners t.owner = some o ∧ o.phase = .live ∧
    f ∈ o.borrowers ∧ (t.kind = .accept ↔ o.isListener = true)
  borrower : ∀ k o f, owners k = some o → f ∈ o.borrowers → ∃ t, futures f = some t ∧ t.owner = k
  exclusive : ∀ k o, owners k = some o → o.borrowers.Nodup ∧
    (o.isListener = false → o.borrowers.length ≤ 1)

/-! ### What the steps of the reactor do to a descriptor -/

section Views

variable {w w' : World W} (sockets : Fd → Option (Socket σ)) {fd : Fd} {res : Reactor.Result W}

/-- A registration is about its descriptor. -/
theorem register_of_ne (r : Reactor W) {fd' : Fd} (hne : fd' ≠ fd) (x : W) (isRead refused : Bool) :
    (r.register fd x isRead refused).2.registrations fd' = r.registrations fd' ∧
      (r.register fd x isRead refused).2.epoll.interest fd' = r.epoll.interest fd' := by
  obtain hfail | ⟨reg, -, hok⟩ := register_cases r fd x isRead refused
  · rw [hfail]
    exact ⟨rfl, rfl⟩
  · rw [hok]
    exact ⟨Function.update_of_ne hne _ _, Epoll.set_of_ne _ hne _⟩

theorem register_wakeFd (r : Reactor W) (fd : Fd) (x : W) (isRead refused : Bool) :
    (r.register fd x isRead refused).2.wakeFd = r.wakeFd := by
  obtain hfail | ⟨reg, -, hok⟩ := register_cases r fd x isRead refused
  · rw [hfail]
  · rw [hok]
    rfl

/-- The removal of a registration, which is to be followed by `EPOLL_CTL_DEL` if there was one. -/
theorem view_deregister (h : World.Step w (.deregister fd) res w') :
    (∀ fd', fd' ≠ fd → view w' sockets fd' = view w sockets fd') ∧
      view w' sockets fd = ⟨w.isOpen fd, false,
        (w.reactor.registrations fd).isSome || w.closing fd,
        (sockets fd).map Socket.nonblocking⟩ := by
  cases h with
  | deregister =>
    unfold view deregisterRemove setReg
    dsimp only
    rw [Function.update_self, Option.isSome_none]
    cases (w.reactor.registrations fd).isSome with
    | true =>
      simp only [if_true, Function.update_self, Bool.true_or, and_true]
      intro fd' hne
      rw [Function.update_of_ne hne, Function.update_of_ne hne]
    | false =>
      simp only [Bool.false_eq_true, if_false, Bool.false_or, and_true]
      intro fd' hne
      rw [Function.update_of_ne hne]

theorem collect_isSome (r : Reactor W) (ev : Event) (fd : Fd) :
    ((r.collect ev).1.registrations fd).isSome = (r.registrations fd).isSome := by
  obtain ⟨hreg, -, -⟩ | ⟨-, hsome, reg, hreg, -⟩ := collect_cases r ev
  · rw [hreg]
  · rw [hreg]
    by_cases hfd : fd = ev.fd
    · subst hfd
      rw [Function.update_self, hsome]
      rfl
    · rw [Function.update_of_ne hfd]

theorem collectAll_isSome (r : Reactor W) (evs : List Event) (fd : Fd) :
    ((r.collectAll evs).1.registrations fd).isSome = (r.registrations fd).isSome ∧
      (r.collectAll evs).1.wakeFd = r.wakeFd := by
  induction evs generalizing r with
  | nil => exact ⟨rfl, rfl⟩
  | cons ev evs ih =>
    obtain ⟨hsome, hwake⟩ := ih (r.collect ev).1
    exact ⟨hsome.trans (collect_isSome r ev fd), hwake.trans (collect_wakeFd r ev)⟩

end Views

/-! ### One step -/

section Step

variable {K : Tcp σ ε χ} {wakeFd : Fd} {s s' : State W σ} {k f : ℕ} {o : Owner}

theorem nonblocking_setNonblocking {sock sock' : Socket σ} {getErr setErr : Option Errno}
    (h : setNonblocking sock getErr setErr = .ok sock') : sock'.nonblocking = true := by
  cases getErr with
  | some e => cases h
  | none =>
    cases setErr with
    | some e => cases h
    | none =>
      cases h
      show hasAny (sock.flags ||| oNonblock) oNonblock = true
      have hor : (sock.flags ||| oNonblock) &&& oNonblock = oNonblock := by
        ext i
        rw [BitVec.getElem_and, BitVec.getElem_or]
        cases oNonblock[i] <;> simp
      rw [hasAny, hor]
      decide

/-- A call or an event leaves the mode of a socket alone. -/
theorem view_setState {w : World W} {sockets : Fd → Option (Socket σ)} {fd : Fd}
    {sock : Socket σ} (hsock : sockets fd = some sock) (st : σ) :
    view w (Function.update sockets fd (some { sock with state := st })) = view w sockets := by
  funext fd'
  unfold view
  by_cases hfd : fd' = fd
  · subst hfd
    rw [Function.update_self, hsock, Option.map_some, Option.map_some]
    rfl
  · rw [Function.update_of_ne hfd]

theorem Owned.setFuture (h : Owned wakeFd s) (f : ℕ) (t : Option (Future W)) :
    Owned wakeFd (s.setFuture f t) :=
  ⟨h.eventfd, h.held⟩

theorem Owned.returned (h : Owned wakeFd s) (poll : Option ℕ) : Owned wakeFd (s.returned poll) := by
  cases poll with
  | none => exact h
  | some f => exact h.setFuture f _

/-- The kernel gives a descriptor that is not in use. -/
theorem Owned.adopted (h : Owned wakeFd s) {fd : Fd} {sock : Socket σ} {l : Bool}
    {poll : Option ℕ} (hk : s.owners k = none) (hfd : ¬ s.world.isOpen fd = true) :
    Owned wakeFd (s.adopted k fd sock l poll) := by
  rw [h.isOpen_iff, not_or] at hfd
  refine ⟨h.eventfd, h.held.adopt hk (fun j q hj heq => hfd.2 ⟨j, q, hj, heq⟩) ?_ ?_⟩
  · intro fd' hne
    unfold view State.adopted
    simp only [Function.update_of_ne hne]
  · -- nothing was known of it
    have hidle := h.held.idle fd fun j q hj heq => hfd.2 ⟨j, q, hj, heq⟩
    refine ⟨hfd.1, Function.update_self .., ⟨sock.nonblocking, ?_, fun hlive => ?_⟩, ?_, ?_⟩
    · show (Function.update s.sockets fd (some sock) fd).map Socket.nonblocking = _
      rw [Function.update_self, Option.map_some]
    · cases hlive
    · exact congrArg View.registered hidle
    · exact congrArg View.closing hidle

theorem Owned.setState (h : Owned wakeFd s) {fd : Fd} {sock : Socket σ}
    (hsock : s.sockets fd = some sock) (st : σ) : Owned wakeFd (s.setState fd sock st) := by
  refine ⟨h.eventfd, ?_⟩
  show Held _ _ _ (view s.world (Function.update s.sockets fd _)) s.owners
  rw [view_setState hsock st]
  exact h.held

/-- A change of the owner that is not about its descriptor. -/
theorem Owned.setOwner (h : Owned wakeFd s) (ho : s.owners k = some o) {o' : Owner}
    (hfd : o'.fd = o.fd) (hphase : o'.phase = o.phase) :
    Owned wakeFd (s.setOwner k (some o')) := by
  refine ⟨h.eventfd, h.held.update ho hfd (fun _ _ => rfl) ?_⟩
  obtain ⟨hne, hopen, hmode, hfits⟩ := h.held.fits k o ho
  constructor
  · rw [hfd]
    exact hne
  · exact hopen
  · rw [hphase]
    exact hmode
  · rw [hphase]
    exact hfits

theorem idle_eq_some {t : Future W} {fd : Fd} {sock : Socket σ}
    (h : s.idle f = some (t, fd, sock)) :
    s.futures f = some t ∧ t.pos = .idle ∧ s.sockets fd = some sock ∧
      ∃ o, s.owners t.owner = some o ∧ o.fd = fd := by
  unfold State.idle at h
  obtain ⟨t', ht, h⟩ := Option.bind_eq_some_iff.mp h
  obtain ⟨o, ho, h⟩ := Option.bind_eq_some_iff.mp h
  obtain ⟨sock', hsock, h⟩ := Option.bind_eq_some_iff.mp h
  split at h
  · rename_i hpos
    cases h
    exact ⟨ht, hpos, hsock, o, ho, rfl⟩
  · cases h

/-- The socket of the closed descriptor is gone, and its number is free. -/
theorem Owned.closed (h : Owned wakeFd s) (ho : s.owners k = some o) {world : World W}
    (hworld : World.Step s.world (.close o.fd) .done world) :
    Owned wakeFd (s.closed k o.fd world) := by
  obtain ⟨hne, hopen, -, -⟩ := h.held.fits k o ho
  cases hworld with
  | closed hcan hreg =>
    refine ⟨h.eventfd, h.held.remove ho (fun fd hfd => ?_) ?_⟩
    · unfold view
      simp only [State.closed, State.setOwner, State.unready, State.setSocket,
        Function.update_of_ne hfd]
    · unfold view idleView
      simp only [State.closed, State.setOwner, State.unready, State.setSocket,
        Function.update_self, hreg, hcan.2.2, hne, decide_false, Option.isSome_none,
        Option.map_none]

/-- `set_nonblocking` has put the socket into its mode. -/
theorem Owned.made (h : Owned wakeFd s) (ho : s.owners k = some o) {poll : Option ℕ}
    (hphase : o.phase = .raw poll) {sock sock' : Socket σ} {getErr setErr : Option Errno}
    (hset : setNonblocking sock getErr setErr = .ok sock') :
    Owned wakeFd ((s.setSocket o.fd (some sock')).setOwner k (some { o with phase := .live })) := by
  obtain ⟨hne, hopen, -, hfits⟩ := h.held.fits k o ho
  rw [hphase] at hfits
  refine ⟨h.eventfd, h.held.update ho rfl (fun fd hfd => ?_) ?_⟩
  · unfold view
    simp only [State.setOwner, State.setSocket, Function.update_of_ne hfd]
  · refine ⟨hne, hopen, ⟨true, ?_, fun _ => rfl⟩, hfits.2⟩
    show (Function.update s.sockets o.fd (some sock') o.fd).map Socket.nonblocking = _
    rw [Function.update_self, Option.map_some, nonblocking_setNonblocking hset]

/-- A live object may be registered. -/
theorem Owned.register (h : Owned wakeFd s) (ho : s.owners k = some o) (hlive : o.phase = .live)
    (w : W) (isRead refused : Bool) : Owned wakeFd { s with world := { s.world with
      reactor := (s.world.reactor.register o.fd w isRead refused).2 } } := by
  obtain ⟨hne, hopen, hmode, hfits⟩ := h.held.fits k o ho
  rw [hlive] at hfits
  refine ⟨(register_wakeFd ..).trans h.eventfd, ?_⟩
  have hother : ∀ fd, fd ≠ o.fd →
      view { s.world with reactor := (s.world.reactor.register o.fd w isRead refused).2 }
        s.sockets fd = view s.world s.sockets fd := by
    intro fd hfd
    unfold view
    rw [(register_of_ne _ hfd ..).1]
  have hheld := h.held.update ho rfl hother ⟨hne, hopen, hmode, by rw [hlive]; exact hfits⟩
  rw [← ho, Function.update_eq_self] at hheld
  exact hheld

/-- The first half of `deregister`, in `drop`. -/
theorem Owned.drop (h : Owned wakeFd s) (ho : s.owners k = some o) (hphase : o.phase = .live)
    {world : World W} (hworld : World.Step s.world (.deregister o.fd) .done world) :
    Owned wakeFd (({ s with world := world }).setOwner k
      (some { o with phase := .dropping (s.world.reactor.registrations o.fd).isSome })) := by
  obtain ⟨hne, hopen, ⟨mode, hmode, -⟩, hfits⟩ := h.held.fits k o ho
  rw [hphase] at hfits
  have hclosing : s.world.closing o.fd = false := hfits
  obtain ⟨hother, hself⟩ := view_deregister s.sockets hworld
  refine ⟨?_, h.held.update ho rfl hother ?_⟩
  · cases hworld with
    | deregister => exact h.eventfd
  · show Owner.Fits wakeFd _ (view world s.sockets o.fd)
    rw [hself, hclosing, Bool.or_false]
    exact ⟨hne, hopen, ⟨mode, hmode, fun hlive => by cases hlive⟩, rfl, rfl⟩

/-- The second half of `deregister`. -/
theorem Owned.dropDel (h : Owned wakeFd s) (ho : s.owners k = some o)
    (hphase : o.phase = .dropping true) {world : World W}
    (hworld : World.Step s.world (.deregisterDel o.fd) .done world) :
    Owned wakeFd ((({ s with world := world }).unready o.fd).setOwner k
      (some { o with phase := .dropping false })) := by
  obtain ⟨hne, hopen, ⟨mode, hmode, -⟩, hfits⟩ := h.held.fits k o ho
  rw [hphase] at hfits
  cases hworld with
  | deregisterDel hclosing =>
    refine ⟨h.eventfd, h.held.update ho rfl (fun fd hfd => ?_) ?_⟩
    · unfold view
      simp only [State.setOwner, State.unready, deregisterDel, Function.update_of_ne hfd]
    · refine ⟨hne, hopen, ⟨mode, hmode, fun hlive => by cases hlive⟩, hfits.1, ?_⟩
      exact Function.update_self ..

/-- `Reactor::poll` takes wakers, and no registration. -/
theorem Owned.process (h : Owned wakeFd s) {res : Reactor.Result W} {world : World W}
    (hworld : World.Step s.world .process res world) :
    Owned wakeFd { s with world := world } := by
  cases hworld with
  | @process evs hbatch =>
    refine ⟨(collectAll_isSome _ evs 0).2.trans h.eventfd, ?_⟩
    have hviews : view { s.world with
        reactor := (s.world.reactor.collectAll evs).1, batch := none } s.sockets =
        view s.world s.sockets := by
      funext fd
      unfold view
      rw [(collectAll_isSome _ evs fd).1]
    rw [hviews]
    exact h.held

/-- **Every step keeps the descriptors owned.** -/
theorem Owned.step {op : Op W σ ε χ} {res : Result W} (h : Owned wakeFd s)
    (hb : Borrowed s.owners s.futures) (hs : State.Step K s op res s') : Owned wakeFd s' := by
  cases hs with
  | bind hk hfd => exact h.adopted hk hfd
  | connect hk hfd => exact h.adopted hk hfd
  | made ho hphase _ hset => exact (h.made ho hphase hset).returned _
  | unmade ho _ _ _ hworld => exact (h.closed ho hworld).returned _
  | future ho _ _ =>
    apply Owned.setFuture
    exact h.setOwner ho rfl rfl
  | dropFuture _ ho _ =>
    apply Owned.setFuture
    exact h.setOwner ho rfl rfl
  | failed _ hidle _ => exact h.setState (idle_eq_some hidle).2.2.1 _
  | wouldBlock _ hidle _ _ =>
    apply Owned.setFuture
    exact h.setState (idle_eq_some hidle).2.2.1 _
  | @accepted f w c k fd flags t lfd sock conn st hk hfd hidle _ _ =>
    have hlistener := h.setState (idle_eq_some hidle).2.2.1 st
    apply Owned.setFuture
    exact hlistener.adopted hk hfd
  | read hidle _ _ =>
    apply Owned.setFuture
    exact h.setState (idle_eq_some hidle).2.2.1 _
  | written hidle _ _ => exact h.setState (idle_eq_some hidle).2.2.1 _
  | @register f refused t o w ok world ht ho hpos hworld =>
    obtain ⟨o', ho', hlive, -⟩ := hb.lender f t ht
    obtain rfl : o' = o := Option.some.inj (ho'.symm.trans ho)
    obtain ⟨-, rfl⟩ := State.register_step_cases hworld
    have hreg := h.register ho hlive w t.kind.isRead refused.isSome
    apply Owned.setFuture
    exact ⟨hreg.eventfd, hreg.held⟩
  | drop ho hphase _ hworld => exact h.drop ho hphase hworld
  | dropDel ho hphase hworld => exact h.dropDel ho hphase hworld
  | close ho _ hworld => exact h.closed ho hworld
  | wake => exact ⟨h.eventfd, h.held⟩
  | epollWait _ hworld =>
    cases hworld with
    | epollWait _ _ => exact ⟨h.eventfd, h.held⟩
  | process _ hworld =>
    have hprocess := h.process hworld
    exact ⟨hprocess.eventfd, hprocess.held⟩
  | @happens _ _ _ st hsock _ =>
    have hsocket := h.setState hsock st
    exact ⟨hsocket.eventfd, hsocket.held⟩

end Step

/-! ### The futures -/

section Borrowed

variable {owners : ℕ → Option Owner} {futures : ℕ → Option (Future W)} {k f : ℕ} {o o' : Owner}

theorem Borrowed.not_mem (h : Borrowed owners futures) (ho : owners k = some o)
    (hphase : o.phase ≠ .live) : o.borrowers = [] := by
  rw [List.eq_nil_iff_forall_not_mem]
  intro f hf
  obtain ⟨t, ht, rfl⟩ := h.borrower k o f ho hf
  obtain ⟨o', ho', hlive, -⟩ := h.lender f t ht
  rw [Option.some.inj (ho'.symm.trans ho)] at hlive
  exact hphase hlive

/-- The object goes on; it stays live if it is borrowed. -/
theorem Borrowed.update (h : Borrowed owners futures) (ho : owners k = some o)
    (hl : o'.isListener = o.isListener) (hb : o'.borrowers = o.borrowers)
    (hphase : o.borrowers = [] ∨ o'.phase = .live) :
    Borrowed (Function.update owners k (some o')) futures := by
  constructor
  · intro f t ht
    obtain ⟨q, hq, hlive, hmem, hkind⟩ := h.lender f t ht
    by_cases hk : t.owner = k
    · rw [hk] at hq
      obtain rfl : q = o := Option.some.inj (hq.symm.trans ho)
      refine ⟨o', ?_, ?_, hb ▸ hmem, hl ▸ hkind⟩
      · rw [hk]
        exact Function.update_self ..
      · rcases hphase with hnil | hphase
        · rw [hnil] at hmem
          cases hmem
        · exact hphase
    · exact ⟨q, (Function.update_of_ne hk ..).trans hq, hlive, hmem, hkind⟩
  · intro j q f hj hf
    rcases update_eq_some hj with ⟨rfl, hq⟩ | ⟨-, hq⟩
    · rw [← Option.some.inj hq, hb] at hf
      exact h.borrower j o f ho hf
    · exact h.borrower j q f hq hf
  · intro j q hj
    rcases update_eq_some hj with ⟨rfl, hq⟩ | ⟨-, hq⟩
    · rw [← Option.some.inj hq, hb, hl]
      exact h.exclusive j o ho
    · exact h.exclusive j q hq

/-- A new object is not borrowed. -/
theorem Borrowed.adopt (h : Borrowed owners futures) (hk : owners k = none)
    (hb : o.borrowers = []) : Borrowed (Function.update owners k (some o)) futures := by
  constructor
  · intro f t ht
    obtain ⟨q, hq, hrest⟩ := h.lender f t ht
    have hne : t.owner ≠ k := by
      intro heq
      rw [heq, hk] at hq
      cases hq
    exact ⟨q, (Function.update_of_ne hne ..).trans hq, hrest⟩
  · intro j q f hj hf
    rcases update_eq_some hj with ⟨rfl, hq⟩ | ⟨-, hq⟩
    · rw [← Option.some.inj hq, hb] at hf
      cases hf
    · exact h.borrower j q f hq hf
  · intro j q hj
    rcases update_eq_some hj with ⟨rfl, hq⟩ | ⟨-, hq⟩
    · rw [← Option.some.inj hq, hb]
      exact ⟨List.nodup_nil, fun _ => Nat.zero_le 1⟩
    · exact h.exclusive j q hq

/-- An object that is not live can go. -/
theorem Borrowed.remove (h : Borrowed owners futures) (ho : owners k = some o)
    (hphase : o.phase ≠ .live) : Borrowed (Function.update owners k none) futures := by
  have hcases : ∀ j q, Function.update owners k none j = some q → owners j = some q := by
    intro j q hj
    rcases update_eq_some hj with ⟨-, hq⟩ | ⟨-, hq⟩
    · cases hq
    · exact hq
  constructor
  · intro f t ht
    obtain ⟨q, hq, hlive, hrest⟩ := h.lender f t ht
    have hne : t.owner ≠ k := by
      intro heq
      rw [heq] at hq
      rw [Option.some.inj (hq.symm.trans ho)] at hlive
      exact hphase hlive
    exact ⟨q, (Function.update_of_ne hne ..).trans hq, hlive, hrest⟩
  · intro j q f hj hf
    exact h.borrower j q f (hcases j q hj) hf
  · intro j q hj
    exact h.exclusive j q (hcases j q hj)

/-- A poll leaves the borrow alone. -/
theorem Borrowed.poll (h : Borrowed owners futures) {t t' : Future W} (ht : futures f = some t)
    (howner : t'.owner = t.owner) (hkind : t'.kind = .accept ↔ t.kind = .accept) :
    Borrowed owners (Function.update futures f (some t')) := by
  constructor
  · intro f' q hfq
    rcases update_eq_some hfq with ⟨rfl, hq⟩ | ⟨-, hq⟩
    · rw [← Option.some.inj hq, howner, hkind]
      exact h.lender f' t ht
    · exact h.lender f' q hq
  · intro j q f' hj hf'
    obtain ⟨u, hu, huk⟩ := h.borrower j q f' hj hf'
    by_cases hff : f' = f
    · subst hff
      refine ⟨t', Function.update_self .., ?_⟩
      rw [howner, ← huk, Option.some.inj (ht.symm.trans hu)]
    · exact ⟨u, (Function.update_of_ne hff ..).trans hu, huk⟩
  · exact h.exclusive

theorem borrowable_iff (o : Owner) (kind : FutureKind) : State.borrowable o kind = true ↔
    o.phase = .live ∧ (kind = .accept ↔ o.isListener = true) ∧
      (o.isListener = false → o.borrowers = []) := by
  cases hl : o.isListener <;> cases kind <;> simp [State.borrowable, hl]

theorem Borrowed.borrow (h : Borrowed owners futures) {kind : FutureKind} (ho : owners k = some o)
    (hf : futures f = none) (hborrow : State.borrowable o kind = true) :
    Borrowed (Function.update owners k (some { o with borrowers := f :: o.borrowers }))
      (Function.update futures f (some ⟨k, kind, .idle⟩)) := by
  obtain ⟨hlive, hkind, hnil⟩ := (borrowable_iff o kind).mp hborrow
  have hnew : ∀ j q f', owners j = some q → f' ∈ q.borrowers → f' ≠ f := by
    intro j q f' hj hf' heq
    obtain ⟨t, ht, -⟩ := h.borrower j q f' hj hf'
    rw [heq, hf] at ht
    cases ht
  constructor
  · intro f' t hft
    rcases update_eq_some hft with ⟨rfl, ht⟩ | ⟨-, ht⟩
    · rw [← Option.some.inj ht]
      exact ⟨_, Function.update_self .., hlive, List.mem_cons_self, hkind⟩
    · obtain ⟨q, hq, hrest⟩ := h.lender f' t ht
      by_cases hk : t.owner = k
      · rw [hk] at hq ⊢
        rw [Option.some.inj (hq.symm.trans ho)] at hrest
        exact ⟨_, Function.update_self .., hrest.1, List.mem_cons_of_mem _ hrest.2.1, hrest.2.2⟩
      · exact ⟨q, (Function.update_of_ne hk ..).trans hq, hrest⟩
  · intro j q f' hj hf'
    have hold : ∀ q', owners j = some q' → f' ∈ q'.borrowers →
        ∃ t, Function.update futures f (some ⟨k, kind, .idle⟩) f' = some t ∧ t.owner = j := by
      intro q' hq' hmem
      obtain ⟨t, ht, htj⟩ := h.borrower j q' f' hq' hmem
      exact ⟨t, (Function.update_of_ne (hnew j q' f' hq' hmem) ..).trans ht, htj⟩
    rcases update_eq_some hj with ⟨rfl, hq⟩ | ⟨-, hq⟩
    · rw [← Option.some.inj hq] at hf'
      rcases List.mem_cons.mp hf' with rfl | hmem
      · exact ⟨_, Function.update_self .., rfl⟩
      · exact hold o ho hmem
    · exact hold q hq hf'
  · intro j q hj
    rcases update_eq_some hj with ⟨rfl, hq⟩ | ⟨-, hq⟩
    · rw [← Option.some.inj hq]
      refine ⟨List.nodup_cons.mpr ⟨fun hmem => hnew j o f ho hmem rfl, (h.exclusive j o ho).1⟩, ?_⟩
      intro hl
      rw [hnil hl]
      exact Nat.le_refl 1
    · exact h.exclusive j q hq

theorem Borrowed.giveBack (h : Borrowed owners futures) {t : Future W} (ht : futures f = some t)
    (ho : owners t.owner = some o) :
    Borrowed (Function.update owners t.owner (some { o with borrowers := o.borrowers.erase f }))
      (Function.update futures f none) := by
  have hother : ∀ j q f', owners j = some q → f' ∈ q.borrowers → f' ≠ f →
      ∃ u, Function.update futures f none f' = some u ∧ u.owner = j := by
    intro j q f' hq hmem hne
    obtain ⟨u, hu, huj⟩ := h.borrower j q f' hq hmem
    exact ⟨u, (Function.update_of_ne hne ..).trans hu, huj⟩
  constructor
  · intro f' u hfu
    rcases update_eq_some hfu with ⟨-, hu⟩ | ⟨hne, hu⟩
    · cases hu
    · obtain ⟨q, hq, hrest⟩ := h.lender f' u hu
      by_cases hk : u.owner = t.owner
      · rw [hk] at hq ⊢
        rw [Option.some.inj (hq.symm.trans ho)] at hrest
        refine ⟨_, Function.update_self .., hrest.1, ?_, hrest.2.2⟩
        exact (List.mem_erase_of_ne hne).mpr hrest.2.1
      · exact ⟨q, (Function.update_of_ne hk ..).trans hq, hrest⟩
  · intro j q f' hj hf'
    rcases update_eq_some hj with ⟨rfl, hq⟩ | ⟨hjk, hq⟩
    · rw [← Option.some.inj hq] at hf'
      obtain ⟨hne, hmem⟩ := (h.exclusive _ o ho).1.mem_erase_iff.mp hf'
      exact hother _ o f' ho hmem hne
    · refine hother j q f' hq hf' fun heq => hjk ?_
      obtain ⟨u, hu, huj⟩ := h.borrower j q f' hq hf'
      rw [← huj, Option.some.inj (hu.symm.trans (heq ▸ ht))]
  · intro j q hj
    rcases update_eq_some hj with ⟨rfl, hq⟩ | ⟨-, hq⟩
    · rw [← Option.some.inj hq]
      obtain ⟨hnodup, hle⟩ := h.exclusive _ o ho
      exact ⟨hnodup.erase f, fun hl => Nat.le_trans List.length_erase_le (hle hl)⟩
    · exact h.exclusive j q hq

theorem Borrowed.returned {s : State W σ} (h : Borrowed s.owners s.futures) (poll : Option ℕ) :
    Borrowed (s.returned poll).owners (s.returned poll).futures := by
  cases poll with
  | none => exact h
  | some f =>
    show Borrowed s.owners (Function.update s.futures f ((s.futures f).map _))
    cases ht : s.futures f with
    | none =>
      rw [Option.map_none, ← ht, Function.update_eq_self]
      exact h
    | some t => exact h.poll ht rfl Iff.rfl

/-- **Every step keeps the borrows.** -/
theorem Borrowed.step {K : Tcp σ ε χ} {s s' : State W σ} {op : Op W σ ε χ} {res : Result W}
    (h : Borrowed s.owners s.futures) (hs : State.Step K s op res s') :
    Borrowed s'.owners s'.futures := by
  cases hs with
  | bind hk _ => exact h.adopt hk rfl
  | connect hk _ => exact h.adopt hk rfl
  | made ho hphase _ _ =>
    apply Borrowed.returned
    exact h.update ho rfl rfl (.inr rfl)
  | unmade ho hphase _ _ _ =>
    apply Borrowed.returned
    apply h.remove ho
    rw [hphase]
    exact Phase.noConfusion
  | future ho hf hborrow => exact h.borrow ho hf hborrow
  | dropFuture ht ho _ => exact h.giveBack ht ho
  | failed _ _ _ => exact h
  | wouldBlock _ hidle _ _ => exact h.poll (idle_eq_some hidle).1 rfl Iff.rfl
  | @accepted f w c k fd flags t lfd sock conn st hk hfd hidle hkind _ =>
    have hadopt := h.adopt (o := ⟨fd, false, .raw (some f), []⟩) hk rfl
    exact hadopt.poll (idle_eq_some hidle).1 rfl Iff.rfl
  | read hidle hkind _ =>
    refine h.poll (idle_eq_some hidle).1 rfl ?_
    rw [hkind]
    simp
  | written _ _ _ => exact h
  | register ht _ _ _ => exact h.poll ht rfl Iff.rfl
  | drop ho hphase hborrow _ => exact h.update ho rfl rfl (.inl hborrow)
  | dropDel ho hphase _ =>
    refine h.update ho rfl rfl (.inl (h.not_mem ho ?_))
    rw [hphase]
    exact Phase.noConfusion
  | close ho hphase _ =>
    apply h.remove ho
    rw [hphase]
    exact Phase.noConfusion
  | wake | epollWait _ _ | process _ _ | happens _ _ => exact h

end Borrowed

end MiniAsync.Net
