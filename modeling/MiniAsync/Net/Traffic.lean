/-
  The bytes that a `TcpStream` carries.

  The futures of a stream come and go: they are polled, woken, polled again with other
  buffers, dropped before they are ready. `stream_traffic` says what all of this does to
  the bytes, over any run and with any kernel that keeps a `Ledger`: every byte that
  arrives is handed out once and in order, and what is sent is exactly what the polls of
  `AsyncWrite` have said. A future that is dropped while it waits has taken nothing and
  given nothing.

  A history tells which future has been polled but not whose it is, so that `recorded`
  adds the future, as it was when it was polled.
-/
import MiniAsync.Net.Discipline

namespace MiniAsync.Net

open Kernel Reactor Trace Resource

variable {W σ ε χ : Type} {K : Tcp σ ε χ} {wakeFd : Fd} {s s' : State W σ}

/-- A line of the history: the operation, what it has returned, and the future that it polls. -/
abbrev Entry (W σ ε χ : Type) := Op W σ ε χ × Result W × Option (Future W)

namespace State

/-- The future that is polled. -/
def polled (s : State W σ) (op : Op W σ ε χ) : Option (Future W) :=
  op.polls.bind fun p => s.futures p.1

/-- A step, with the future that is polled in it. -/
def recordedStep (K : Tcp σ ε χ) (s : State W σ) (op : Op W σ ε χ) :
    Option ((Result W × Option (Future W)) × State W σ) :=
  (s.step K op).map fun p => ((p.1, s.polled op), p.2)

abbrev recorded (W : Type) (K : Tcp σ ε χ) :
    System (State W σ) (Op W σ ε χ) (Result W × Option (Future W)) :=
  ofFn (recordedStep K)

end State

/-- The bytes that arrive at the descriptor. -/
def arrived (L : K.Ledger) (fd : Fd) : Entry W σ ε χ → List UInt8
  | (.happens fd' e, _) => if fd' = fd then L.arrived e else []
  | _ => []

/-- The bytes that a poll of an `AsyncRead` of the object has put into its buffer. -/
def taken (k : ℕ) : Entry W σ ε χ → List UInt8
  | (.pollRead _ _ _, .read bytes, some t) => if t.owner = k then bytes else []
  | _ => []

/-- The bytes that a poll of an `AsyncWrite` of the object says to have written. -/
def given (k : ℕ) : Entry W σ ε χ → List UInt8
  | (.pollWrite _ _ _, .written n, some ⟨k', .write buf, _⟩) =>
    if k' = k then buf.take n else []
  | _ => []

/-- The object `k` is a `TcpStream` with the descriptor `fd`, and it has been made. -/
def Holds (owners : ℕ → Option Owner) (k : ℕ) (fd : Fd) : Prop :=
  ∃ o, owners k = some o ∧ o.fd = fd ∧ o.isListener = false ∧ ∀ poll, o.phase ≠ .raw poll

/-- The connection of the object `k` is `st`. -/
structure Connected (s : State W σ) (k : ℕ) (fd : Fd) (st : σ) : Prop where
  owner : Holds s.owners k fd
  socket : ∃ flags, s.sockets fd = some ⟨flags, st⟩

section Holds

variable {owners : ℕ → Option Owner} {k k' : ℕ} {fd : Fd}

theorem Holds.of_ne (h : Holds owners k fd) (hk : k ≠ k') (q : Option Owner) :
    Holds (Function.update owners k' q) k fd := by
  unfold Holds
  rw [Function.update_of_ne hk]
  exact h

/-- An object is lent, given back, or on its way to be closed. -/
theorem Holds.setOwner (h : Holds owners k fd) {q : Owner} (hq : owners k' = some q)
    {phase : Phase} (hphase : ∀ poll, phase ≠ .raw poll) (borrowers : List ℕ) :
    Holds (Function.update owners k' (some ⟨q.fd, q.isListener, phase, borrowers⟩)) k fd := by
  by_cases hk : k = k'
  · subst hk
    obtain ⟨o, ho, rfl, hl, -⟩ := h
    obtain rfl : o = q := Option.some.inj (ho.symm.trans hq)
    exact ⟨_, Function.update_self .., rfl, hl, hphase⟩
  · exact h.of_ne hk _

end Holds

section Step

variable {L : K.Ledger} {k : ℕ} {fd : Fd} {st : σ} {op : Op W σ ε χ} {res : Result W}
  {e : Entry W σ ε χ}

/-- What a step has to do: the connection carries the bytes that the entry tells of. -/
def Moves (L : K.Ledger) (s' : State W σ) (k : ℕ) (fd : Fd) (st : σ) (e : Entry W σ ε χ) : Prop :=
  ∃ st', Connected s' k fd st' ∧ L.Carries st st' (arrived L fd e) (taken k e) (given k e)

/-- A step that keeps the object and leaves its socket alone. -/
theorem Connected.keep (h : Connected s k fd st) (howner : Holds s'.owners k fd)
    (hsock : s'.sockets fd = s.sockets fd)
    (hsilent : arrived L fd e = [] ∧ taken k e = [] ∧ given k e = []) : Moves L s' k fd st e := by
  refine ⟨st, ⟨howner, ?_⟩, ?_⟩
  · rw [hsock]
    exact h.socket
  · rw [hsilent.1, hsilent.2.1, hsilent.2.2]
    exact .refl st

/-- The future that a poll works on. -/
theorem polled_eq {f : ℕ} {w : W} {c : χ} {t : Future W} {sock : Socket σ}
    (hop : op.polls = some (f, w, c)) (hidle : s.idle f = some (t, fd, sock)) :
    s.polled op = some t := by
  rw [State.polled, hop]
  exact (idle_eq_some hidle).1

theorem silent_of_polls {p : ℕ × W × χ} (hop : op.polls = some p) {r : Result W}
    (hr : r = .done ∨ ∃ e, r = .failed e) (t : Option (Future W)) :
    arrived L fd (op, r, t) = [] ∧ taken k (op, r, t) = [] ∧ given k (op, r, t) = [] := by
  cases op with
  | pollAccept _ _ _ _ _ _ | pollRead _ _ _ | pollWrite _ _ _ =>
    rcases hr with rfl | ⟨e, rfl⟩
    · exact ⟨rfl, rfl, rfl⟩
    · exact ⟨rfl, rfl, rfl⟩
  | _ => cases hop

/-- A `read` or a `write` that would block or fails moves nothing. -/
theorem carries_call {kind : FutureKind} {st' : σ} {c : χ} {out : Outcome Unit}
    (hcall : kind.call K st c = (out, st')) (hkind : kind ≠ .accept) (hout : out ≠ .ok ()) :
    L.Carries st st' [] [] [] := by
  cases kind with
  | accept => exact absurd rfl hkind
  | read buf =>
    obtain ⟨rfl, rfl⟩ := Prod.mk.inj hcall
    cases hread : K.read st buf.length c with
    | mk answer st' =>
      rw [hread] at hout
      cases answer with
      | ok bytes => exact absurd rfl hout
      | wouldBlock => exact .of_eq (L.read_again hread).1 (L.read_again hread).2
      | error e => exact .of_eq (L.read_error hread).1 (L.read_error hread).2
  | write buf =>
    obtain ⟨rfl, rfl⟩ := Prod.mk.inj hcall
    cases hwrite : K.write st buf c with
    | mk answer st' =>
      rw [hwrite] at hout
      cases answer with
      | ok n => exact absurd rfl hout
      | wouldBlock => exact .of_eq (L.write_again hwrite).1 (L.write_again hwrite).2
      | error e => exact .of_eq (L.write_error hwrite).1 (L.write_error hwrite).2

/-- The futures of a stream are reads and writes. -/
theorem Holds.kind_ne_accept (hinv : Inv wakeFd s) (h : Holds s.owners k fd) {f : ℕ} {t : Future W}
    (ht : s.futures f = some t) (hk : t.owner = k) : t.kind ≠ .accept := by
  obtain ⟨o, ho, -, hl, -⟩ := h
  obtain ⟨q, hq, -, -, hlistener⟩ := hinv.borrowed.lender f t ht
  rw [hk] at hq
  obtain rfl : q = o := Option.some.inj (hq.symm.trans ho)
  intro hkind
  rw [hlistener.mp hkind] at hl
  cases hl

/-- A poll moves bytes of the object that its future borrows, and of no other. -/
theorem Connected.transfer (hinv : Inv wakeFd s) (h : Connected s k fd st) {f : ℕ} {t : Future W}
    {fd' : Fd} {sock : Socket σ} {st₁ : σ} {a b : List UInt8}
    (hidle : s.idle f = some (t, fd', sock)) (howner : Holds s'.owners k fd)
    (hsock : s'.sockets fd = (s.setState fd' sock st₁).sockets fd)
    (hcarries : t.owner = k → L.Carries sock.state st₁ [] a b) (harrived : arrived L fd e = [])
    (htaken : taken k e = if t.owner = k then a else [])
    (hgiven : given k e = if t.owner = k then b else []) : Moves L s' k fd st e := by
  obtain ⟨o, ho, rfl, -⟩ := h.owner
  obtain ⟨-, -, hsock', q, hq, rfl⟩ := idle_eq_some hidle
  obtain ⟨flags, hsock₀⟩ := h.socket
  by_cases hk : t.owner = k
  · have hcarries := hcarries hk
    rw [hk] at hq
    obtain rfl : q = o := Option.some.inj (hq.symm.trans ho)
    obtain rfl : sock = ⟨flags, st⟩ := Option.some.inj (hsock'.symm.trans hsock₀)
    refine ⟨st₁, ⟨howner, flags, hsock.trans (Function.update_self ..)⟩, ?_⟩
    rw [harrived, htaken, hgiven, if_pos hk, if_pos hk]
    exact hcarries
  · have hne : o.fd ≠ q.fd := hinv.owned.held.ne_of_ne hq (Ne.symm hk) ho
    refine h.keep howner (hsock.trans (Function.update_of_ne hne _ _)) ⟨harrived, ?_, ?_⟩
    · rw [htaken, if_neg hk]
    · rw [hgiven, if_neg hk]

/-- A poll that gives nothing and takes nothing. -/
theorem Connected.unmoved (hinv : Inv wakeFd s) (h : Connected s k fd st) {f : ℕ} {t : Future W}
    {fd' : Fd} {sock : Socket σ} {st₁ : σ} {c : χ} {out : Outcome Unit}
    (hidle : s.idle f = some (t, fd', sock)) (howner : Holds s'.owners k fd)
    (hsock : s'.sockets fd = (s.setState fd' sock st₁).sockets fd)
    (hcall : t.kind.call K sock.state c = (out, st₁)) (hout : out ≠ .ok () ∨ t.kind = .accept)
    (hsilent : arrived L fd e = [] ∧ taken k e = [] ∧ given k e = []) : Moves L s' k fd st e := by
  refine h.transfer hinv hidle howner hsock (a := []) (b := []) (fun hk => ?_) hsilent.1
    (hsilent.2.1.trans (ite_self _).symm) (hsilent.2.2.trans (ite_self _).symm)
  have hkind := h.owner.kind_ne_accept hinv (idle_eq_some hidle).1 hk
  exact carries_call hcall hkind (hout.resolve_right hkind)

/-- **One step.** -/
theorem Connected.step (hinv : Inv wakeFd s) (h : Connected s k fd st) (hop : op ≠ .close k)
    (hs : State.Step K s op res s') : Moves L s' k fd st (op, res, s.polled op) := by
  obtain ⟨o, ho, rfl, -, hraw⟩ := h.owner
  obtain ⟨flags, hsock⟩ := h.socket
  -- the objects that are made and those that are closed are not this one
  have hnew : ∀ k', s.owners k' = none → k ≠ k' := by
    rintro k' hk' rfl
    cases hk'.symm.trans ho
  have hopen : ∀ fd', ¬ s.world.isOpen fd' = true → o.fd ≠ fd' := by
    rintro fd' hfd' rfl
    exact hfd' (hinv.owned.held.fits k o ho).isOpen
  have hother : ∀ k' q, s.owners k' = some q → k ≠ k' → o.fd ≠ q.fd :=
    fun k' q hq hk => hinv.owned.held.ne_of_ne hq hk ho
  have hmaking : ∀ k' q poll, s.owners k' = some q → q.phase = .raw poll → k ≠ k' := by
    rintro k' q poll hq hphase rfl
    rw [Option.some.inj (hq.symm.trans ho)] at hphase
    exact hraw poll hphase
  have hborrowed : ∀ q : Owner, q.phase = .live → ∀ poll, q.phase ≠ .raw poll := by
    intro q hlive poll hphase
    rw [hlive] at hphase
    cases hphase
  cases hs with
  | bind hk hfd =>
    exact h.keep (h.owner.of_ne (hnew _ hk) _) (Function.update_of_ne (hopen _ hfd) _ _)
      ⟨rfl, rfl, rfl⟩
  | connect hk hfd =>
    exact h.keep (h.owner.of_ne (hnew _ hk) _) (Function.update_of_ne (hopen _ hfd) _ _)
      ⟨rfl, rfl, rfl⟩
  | @made k' _ _ q poll _ _ hq hphase _ _ =>
    have hk := hmaking k' q poll hq hphase
    refine h.keep ?_ ?_ ⟨rfl, rfl, rfl⟩
    · rw [State.returned_owners]
      exact h.owner.of_ne hk _
    · rw [State.returned_sockets]
      exact Function.update_of_ne (hother k' q hq hk) _ _
  | @unmade k' _ _ q poll _ _ _ hq hphase _ _ hworld =>
    have hk := hmaking k' q poll hq hphase
    refine h.keep ?_ ?_ ⟨rfl, rfl, rfl⟩
    · rw [State.returned_owners]
      exact h.owner.of_ne hk _
    · rw [State.returned_sockets]
      exact Function.update_of_ne (hother k' q hq hk) _ _
  | @future f' k' kind' q hq hf' hborrow =>
    refine h.keep (h.owner.setOwner hq (hborrowed q ?_) _) rfl ⟨rfl, rfl, rfl⟩
    exact ((borrowable_iff _ _).mp hborrow).1
  | @dropFuture f' t q ht hq _ =>
    obtain ⟨q', hq', hlive, -⟩ := hinv.borrowed.lender f' t ht
    obtain rfl : q' = q := Option.some.inj (hq'.symm.trans hq)
    exact h.keep (h.owner.setOwner hq (hborrowed q' hlive) _) rfl ⟨rfl, rfl, rfl⟩
  | failed hpolls hidle hcall =>
    exact h.unmoved hinv hidle h.owner rfl hcall (.inl nofun)
      (silent_of_polls hpolls (.inr ⟨_, rfl⟩) _)
  | wouldBlock hpolls hidle hcall _ =>
    exact h.unmoved hinv hidle h.owner rfl hcall (.inl nofun)
      (silent_of_polls hpolls (.inl rfl) _)
  | @accepted f' _ c k' fd' _ t lfd sock conn st' hk hfd hidle hkind hcall =>
    have hlistener : t.kind.call K sock.state c = (.ok (), st') := by
      rw [hkind, FutureKind.call, hcall]
      rfl
    exact h.unmoved hinv hidle (h.owner.of_ne (hnew _ hk) _)
      (Function.update_of_ne (hopen _ hfd) _ _) hlistener (.inr hkind)
      (silent_of_polls rfl (.inl rfl) _)
  | read hidle _ hread =>
    rw [polled_eq rfl hidle]
    exact h.transfer hinv hidle h.owner rfl (fun _ => Tcp.Ledger.carries_read hread) rfl rfl
      (ite_self _).symm
  | @written f w c t _ _ buf n _ hidle hkind hwrite =>
    rw [polled_eq rfl hidle]
    obtain ⟨k', kind, pos⟩ := t
    obtain rfl : kind = .write buf := hkind
    exact h.transfer hinv hidle h.owner rfl (fun _ => Tcp.Ledger.carries_write hwrite) rfl
      (ite_self _).symm rfl
  | register ht hq hpos hworld => exact h.keep h.owner rfl ⟨rfl, rfl, rfl⟩
  | @drop k' q world hq hphase hborrow hworld =>
    exact h.keep (h.owner.setOwner hq (fun _ => Phase.noConfusion) _) rfl ⟨rfl, rfl, rfl⟩
  | @dropDel k' q world hq hphase hworld =>
    exact h.keep (h.owner.setOwner hq (fun _ => Phase.noConfusion) _) rfl ⟨rfl, rfl, rfl⟩
  | @close k' q world hq hphase hworld =>
    have hk : k ≠ k' := fun heq => hop (congrArg Op.close heq.symm)
    exact h.keep (h.owner.of_ne hk _) (Function.update_of_ne (hother k' q hq hk) _ _)
      ⟨rfl, rfl, rfl⟩
  | wake => exact h.keep h.owner rfl ⟨rfl, rfl, rfl⟩
  | epollWait _ _ => exact h.keep h.owner rfl ⟨rfl, rfl, rfl⟩
  | process _ _ => exact h.keep h.owner rfl ⟨rfl, rfl, rfl⟩
  | @happens fd' e sock st' hsock' hhappens =>
    by_cases hfd : fd' = o.fd
    · subst hfd
      obtain rfl : sock = ⟨flags, st⟩ := Option.some.inj (hsock'.symm.trans hsock)
      refine ⟨st', ⟨h.owner, flags, Function.update_self ..⟩, ?_⟩
      show L.Carries st st' (if o.fd = o.fd then L.arrived e else []) [] []
      rw [if_pos rfl]
      exact Tcp.Ledger.carries_happens hhappens
    · exact h.keep h.owner (Function.update_of_ne (Ne.symm hfd) _ _) ⟨if_neg hfd, rfl, rfl⟩

end Step

/-! ### Whole runs -/

section Runs

variable {L : K.Ledger} {k : ℕ} {fd : Fd} {st : σ} {g : List (Op W σ ε χ × Result W)}
  {h : List (Entry W σ ε χ)}

theorem step_of_recordedStep {op : Op W σ ε χ} {res : Result W} {t : Option (Future W)}
    (hs : s.recordedStep K op = some ((res, t), s')) :
    s.step K op = some (res, s') ∧ t = s.polled op := by
  obtain ⟨⟨res', s''⟩, hstep, heq⟩ := Option.map_eq_some_iff.mp hs
  cases heq
  exact ⟨hstep, rfl⟩

/-- The run without the record. -/
theorem exists_run_of_recorded {s₀ : State W σ} (hr : Run (State.recorded W K) s₀ h s) :
    Run (State.system W K) s₀ (h.map fun e => (e.1, e.2.1)) s := by
  refine hr.invariant (I := fun h s => Run (State.system W K) s₀ (h.map fun e => (e.1, e.2.1)) s)
    .nil ?_
  intro h s op r s' _ ih hs
  rw [List.map_append]
  exact ih.snoc (step_of_recordedStep hs).1

/-- **A whole run.** -/
theorem Connected.run (hr : Run (State.system W K) (.start wakeFd) g s) (hc : Connected s k fd st)
    (hr' : Run (State.recorded W K) s h s') (hopen : ∀ e ∈ h, e.1 ≠ .close k) :
    ∃ st', Connected s' k fd st' ∧
      L.Carries st st' (h.flatMap (arrived L fd)) (h.flatMap (taken k)) (h.flatMap (given k)) := by
  revert hopen
  refine hr'.invariant (I := fun h s' => (∀ e ∈ h, e.1 ≠ .close k) →
    ∃ st', Connected s' k fd st' ∧ L.Carries st st' (h.flatMap (arrived L fd))
      (h.flatMap (taken k)) (h.flatMap (given k))) ?_ ?_
  · exact fun _ => ⟨st, hc, .refl st⟩
  · intro h₁ s₁ op r s₂ hrun ih hs hopen
    obtain ⟨st₁, hc₁, hcarries⟩ := ih fun e he => hopen e (List.mem_append_left _ he)
    obtain ⟨hstep, hpolled⟩ := step_of_recordedStep (t := r.2) hs
    have hinv := run_inv (hr.append (exists_run_of_recorded hrun))
    have hlast := hopen (op, r) (List.mem_append_right _ (List.mem_singleton_self _))
    obtain ⟨st₂, hc₂, hcarries'⟩ := hc₁.step (L := L) hinv hlast (State.step_cases hstep)
    rw [← hpolled] at hcarries'
    refine ⟨st₂, hc₂, ?_⟩
    rw [List.flatMap_append, List.flatMap_append, List.flatMap_append, List.flatMap_singleton,
      List.flatMap_singleton, List.flatMap_singleton]
    exact hcarries.trans hcarries'

/-- A poll of an `AsyncRead` that is ready has filled the front of its buffer; if it says that there
is nothing, then there is nothing any more. -/
theorem Connected.read (L : K.Ledger) (hc : Connected s k fd st) {f : ℕ} {w : W} {c : χ}
    {buf bytes : List UInt8} {pos : Pos W} (ht : s.futures f = some ⟨k, .read buf, pos⟩)
    (hs : s.step K (.pollRead f w c) = some (.read bytes, s')) :
    bytes.length ≤ buf.length ∧
      s'.futures f = some ⟨k, .read (bytes ++ buf.drop bytes.length), .idle⟩ ∧
      ∀ flags' st', s'.sockets fd = some ⟨flags', st'⟩ → bytes = [] → buf ≠ [] →
        L.ended st' = true ∧ L.rx st' = [] := by
  obtain ⟨o, ho, rfl, -⟩ := hc.owner
  cases State.step_cases hs with
  | @read _ _ _ t fd' sock buf' _ st₁ hidle hkind hread =>
    obtain ⟨ht', hpos, hsock, q, hq, rfl⟩ := idle_eq_some hidle
    obtain rfl : t = ⟨k, .read buf, pos⟩ := Option.some.inj (ht'.symm.trans ht)
    cases hkind
    cases hpos
    obtain rfl : q = o := Option.some.inj (hq.symm.trans ho)
    refine ⟨(L.read_ok hread).1, Function.update_self .., fun flags' st' hsock' hbytes hbuf => ?_⟩
    have hsock₁ : (s.setState q.fd sock st₁).sockets q.fd = _ := Function.update_self ..
    cases Option.some.inj (hsock₁.symm.trans hsock')
    subst hbytes
    exact L.read_end hread fun hzero => hbuf (List.eq_nil_of_length_eq_zero hzero)

end Runs

/-- **A stream loses nothing and makes nothing up**, if `read` and `write` of the kernel keep a
ledger of the bytes. From any state in which `k` is a stream, over any run in which it is not
closed, whatever its futures and all others do: the bytes that the polls of its reads have handed
out, followed by those that wait in the kernel, are those that waited at first followed by those
that have arrived since; and the bytes that the kernel has taken are those that the polls of its
writes have said to have written. A read that is ready has put at most as many bytes as fit into
its buffer, at the front, and has left the rest of the buffer alone; if it has room and there are
none, no more bytes come and every byte has been handed out. -/
theorem stream_traffic (L : K.Ledger) {g : List (Op W σ ε χ × Result W)} {k : ℕ} {o : Owner}
    {flags : BitVec 32} {st : σ} {h : List (Entry W σ ε χ)}
    (hr : Run (State.system W K) (.start wakeFd) g s) (ho : s.owners k = some o)
    (hlive : o.phase = .live) (hstream : o.isListener = false)
    (hsock : s.sockets o.fd = some ⟨flags, st⟩)
    (hr' : Run (State.recorded W K) s h s') (hopen : ∀ e ∈ h, e.1 ≠ .close k) :
    ∃ flags' st', s'.sockets o.fd = some ⟨flags', st'⟩ ∧
      h.flatMap (taken k) ++ L.rx st' = L.rx st ++ h.flatMap (arrived L o.fd) ∧
      L.tx st' = L.tx st ++ h.flatMap (given k) ∧
      ∀ h₁ f w c buf pos bytes,
        h = h₁ ++ [(.pollRead f w c, .read bytes, some ⟨k, .read buf, pos⟩)] →
        bytes.length ≤ buf.length ∧
          s'.futures f = some ⟨k, .read (bytes ++ buf.drop bytes.length), .idle⟩ ∧
          (bytes = [] → buf ≠ [] → L.ended st' = true ∧ L.rx st' = []) := by
  have hc : Connected s k o.fd st := by
    refine ⟨⟨o, ho, rfl, hstream, fun poll hphase => ?_⟩, flags, hsock⟩
    rw [hlive] at hphase
    cases hphase
  obtain ⟨st', ⟨-, flags', hsock'⟩, hrx, htx⟩ := hc.run (L := L) hr hr' hopen
  refine ⟨flags', st', hsock', hrx, htx, ?_⟩
  intro h₁ f w c buf pos bytes heq
  subst heq
  -- the state before the last poll
  obtain ⟨s₁, s₂, hr₁, hs, hnil⟩ := hr'.exists_of_append_cons
  obtain rfl := hnil.eq_of_nil
  obtain ⟨st₁, hc₁, -⟩ := hc.run (L := L) hr hr₁ fun e he => hopen e (List.mem_append_left _ he)
  obtain ⟨hstep, hpolled⟩ := step_of_recordedStep hs
  obtain ⟨hlen, hfuture, hend⟩ := hc₁.read L hpolled.symm hstep
  exact ⟨hlen, hfuture, hend flags' st' hsock'⟩

/-- Three bytes and the end of the stream, read with two futures. The first of them waits when the
third byte arrives, and is dropped. -/
theorem stream_traffic_end :
    ∃ (g : List (Op ℕ _ _ _ × Result ℕ)) (s s' : State ℕ _) (h : List (Entry ℕ _ _ _))
      (st' : Buffered.Endpoint),
      Run (State.system ℕ Buffered.tcp) (.start 3) g s ∧
      Run (State.recorded ℕ Buffered.tcp) s h s' ∧
      h.getLast? = some (.pollRead 1 9 ⟨none, 0⟩, .read [], some ⟨0, .read [3, 0], .idle⟩) ∧
      h.flatMap (taken 0) = [1, 2, 3] ∧ st'.rx = [] ∧ st'.ended = true := by
  obtain ⟨g, s, hr, howner, hsock, hnext⟩ := exists_run_of_exec
    (f := State.step (W := ℕ) Buffered.tcp) (s := State.start 3)
    [.connect 0 5 2 (.stream ⟨[], false, 0, 8, [], false, false⟩), .setNonblocking 0 none none]
    (fun p => p.2.owners 0 = some ⟨5, false, .live, []⟩ ∧
      p.2.sockets 5 = some ⟨0x802, .stream ⟨[], false, 0, 8, [], false, false⟩⟩ ∧
      (exec (State.recordedStep Buffered.tcp) p.2 [.future 0 0 (.read [0, 0, 0]),
        .happens 5 (.bytes [1, 2]), .pollRead 0 9 ⟨none, 7⟩, .pollRead 0 9 ⟨none, 7⟩,
        .happens 5 (.bytes [3]), .register 0 none, .dropFuture 0, .future 1 0 (.read [0, 0]),
        .pollRead 1 9 ⟨none, 0⟩, .happens 5 .fin, .pollRead 1 9 ⟨none, 0⟩]).any (fun q =>
          q.1.getLast? =
            some (.pollRead 1 9 ⟨none, 0⟩, .read [], some ⟨0, .read [3, 0], .idle⟩) ∧
          (∀ e ∈ q.1, e.1 ≠ .close 0) ∧ q.1.flatMap (taken 0) = [1, 2, 3]) = true)
    (by decide)
  obtain ⟨⟨h, s'⟩, hexec, hq⟩ := (Option.any_eq_true _ _).mp hnext
  obtain ⟨hlast, hopen, htaken⟩ := of_decide_eq_true hq
  have hr' := run_of_exec hexec
  obtain ⟨flags', st', -, -, -, hend⟩ :=
    stream_traffic Buffered.ledger hr howner rfl rfl hsock hr' hopen
  obtain ⟨h₁, rfl⟩ := List.getLast?_eq_some_iff.mp hlast
  obtain ⟨-, -, hnil⟩ := hend h₁ 1 9 ⟨none, 0⟩ [3, 0] .idle [] rfl
  obtain ⟨hended, hrx⟩ := hnil rfl (List.cons_ne_nil _ _)
  exact ⟨g, s, s', h₁ ++ _, st', hr, hr', hlast, htaken, hrx, hended⟩

end MiniAsync.Net
