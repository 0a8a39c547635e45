/-
  A TCP with bounded buffers: an instance of `Tcp` that meets `Quiet` and has a `Ledger`.

  It answers as Linux does: a socket is writable when at least a third of its send buffer
  is free, although a `write` goes through as soon as there is any room; a `read` with an
  empty buffer would block like any other when nothing has arrived. How many bytes a call
  moves beyond the first, and whether it fails, is open.
-/
import MiniAsync.Kernel.Tcp
import Mathlib.Tactic.Common

namespace MiniAsync.Kernel.Buffered

/-- One end of a connection. -/
structure Stream where
  /-- The bytes that have arrived and have not been read. -/
  rx : List UInt8
  /-- The peer has closed its side. -/
  fin : Bool
  /-- How many bytes are in the send buffer, and how many more it can take. -/
  queued : ℕ
  room : ℕ
  /-- The bytes that have been written since the connection was made. -/
  tx : List UInt8
  err : Bool
  hup : Bool
deriving DecidableEq

inductive Endpoint where
  /-- The connections that wait to be accepted. -/
  | listener (backlog : List Stream)
  | stream (s : Stream)
deriving DecidableEq

/-- What is open in a call. -/
structure Choice where
  fails : Option Errno
  more : ℕ
deriving DecidableEq

inductive Event where
  | connection (s : Stream)
  | bytes (bs : List UInt8)
  | fin
  /-- Bytes have left the send buffer. -/
  | sent (n : ℕ)
  | error
  | hangup
deriving DecidableEq

namespace Stream

def read (s : Stream) (len : ℕ) (c : Choice) : Outcome (List UInt8) × Stream :=
  match c.fails with
  | some e => (.error e, s)
  | none =>
    if s.rx ≠ [] then
      let n := min (c.more + 1) len
      (.ok (s.rx.take n), { s with rx := s.rx.drop n })
    else if s.fin then (.ok [], s)
    else (.wouldBlock, s)

def write (s : Stream) (buf : List UInt8) (c : Choice) : Outcome ℕ × Stream :=
  match c.fails with
  | some e => (.error e, s)
  | none =>
    if buf = [] then (.ok 0, s)
    else if 0 < s.room then
      let n := min (c.more + 1) (min buf.length s.room)
      (.ok n, { s with tx := s.tx ++ buf.take n, queued := s.queued + n, room := s.room - n })
    else (.wouldBlock, s)

def happens (s : Stream) : Event → Option Stream
  | .connection _ => none
  | .bytes bs => if s.fin then none else some { s with rx := s.rx ++ bs }
  | .fin => some { s with fin := true }
  | .sent n =>
    if n ≤ s.queued then some { s with queued := s.queued - n, room := s.room + n } else none
  | .error => some { s with err := true }
  | .hangup => some { s with hup := true }

/-- A third of the send buffer is free if the other bytes are at most twice as many. -/
def readiness (s : Stream) : Readiness :=
  ⟨!s.rx.isEmpty || s.fin, decide (s.queued / 2 ≤ s.room), s.err, s.hup⟩

end Stream

/-- `ENOTCONN` and `EINVAL`. -/
def enotconn : Errno := 107
def einval : Errno := 22

def tcp : Tcp Endpoint Event Choice where
  accept s c :=
    match s, c.fails with
    | .stream _, _ => (.error einval, s)
    | .listener _, some e => (.error e, s)
    | .listener [], none => (.wouldBlock, s)
    | .listener (st :: backlog), none => (.ok (.stream st), .listener backlog)
  read s len c :=
    match s with
    | .listener _ => (.error enotconn, s)
    | .stream st => ((st.read len c).1, .stream (st.read len c).2)
  write s buf c :=
    match s with
    | .listener _ => (.error enotconn, s)
    | .stream st => ((st.write buf c).1, .stream (st.write buf c).2)
  happens s e :=
    match s, e with
    | .listener backlog, .connection st => some (.listener (backlog ++ [st]))
    | .listener _, _ => none
    | .stream st, e => (st.happens e).map .stream
  readiness s :=
    match s with
    | .listener backlog => ⟨!backlog.isEmpty, false, false, false⟩
    | .stream st => st.readiness

/-! ### Readiness -/

theorem Stream.read_le (s : Stream) (len : ℕ) (c : Choice) :
    (s.read len c).2.readiness.Le s.readiness := by
  unfold Stream.read
  split
  · exact .refl _
  · split_ifs with hrx hfin
    · refine ⟨fun _ => ?_, id, id, id⟩
      have hne : s.rx.isEmpty = false := List.isEmpty_eq_false_iff.mpr hrx
      simp only [readiness, hne, Bool.not_false, Bool.true_or]
    · exact .refl _
    · exact .refl _

theorem Stream.write_le (s : Stream) (buf : List UInt8) (c : Choice) :
    (s.write buf c).2.readiness.Le s.readiness := by
  unfold Stream.write
  split
  · exact .refl _
  · split_ifs with hbuf hroom
    · exact .refl _
    · refine ⟨id, fun h => ?_, id, id⟩
      simp only [readiness, decide_eq_true_eq] at h ⊢
      omega
    · exact .refl _

theorem quiet : tcp.Quiet where
  accept s c := by
    obtain ⟨fails, more⟩ := c
    cases s with
    | stream st => exact .refl _
    | listener backlog =>
      cases fails with
      | some e => exact .refl _
      | none =>
        cases backlog with
        | nil => exact .refl _
        | cons st backlog => exact ⟨fun _ => rfl, id, id, id⟩
  read s len c := by
    cases s with
    | listener backlog => exact .refl _
    | stream st => exact st.read_le len c
  write s buf c := by
    cases s with
    | listener backlog => exact .refl _
    | stream st => exact st.write_le buf c

/-! ### Bytes -/

theorem Stream.read_ok {s s' : Stream} {len : ℕ} {c : Choice} {bytes : List UInt8}
    (h : s.read len c = (.ok bytes, s')) :
    (bytes.length ≤ len ∧ bytes ++ s'.rx = s.rx ∧ s'.tx = s.tx) ∧
      (bytes = [] → len ≠ 0 → s'.fin = true ∧ s'.rx = []) := by
  unfold Stream.read at h
  split at h
  · cases h
  · split_ifs at h with hrx hfin
    · cases h
      refine ⟨⟨?_, List.take_append_drop .., rfl⟩, fun hnil hlen => ?_⟩
      · rw [List.length_take]
        omega
      · rcases List.take_eq_nil_iff.mp hnil with hzero | hnil
        · omega
        · exact absurd hnil hrx
    · cases h
      rw [not_not] at hrx
      exact ⟨⟨Nat.zero_le _, rfl, rfl⟩, fun _ _ => ⟨hfin, hrx⟩⟩
    · cases h

/-- A `read` that gives nothing changes nothing. -/
theorem Stream.read_fails {s s' : Stream} {len : ℕ} {c : Choice} {out : Outcome (List UInt8)}
    (h : s.read len c = (out, s')) (hout : ∀ bytes, out ≠ .ok bytes) : s' = s := by
  unfold Stream.read at h
  split at h
  · cases h
    rfl
  · split_ifs at h with hrx hfin
    · cases h
      exact absurd rfl (hout _)
    · cases h
      rfl
    · cases h
      rfl

theorem Stream.write_ok {s s' : Stream} {buf : List UInt8} {c : Choice} {n : ℕ}
    (h : s.write buf c = (.ok n, s')) :
    n ≤ buf.length ∧ s'.tx = s.tx ++ buf.take n ∧ s'.rx = s.rx := by
  unfold Stream.write at h
  split at h
  · cases h
  · split_ifs at h with hbuf hroom
    · cases h
      exact ⟨Nat.zero_le _, (List.append_nil _).symm, rfl⟩
    · cases h
      refine ⟨?_, rfl, rfl⟩
      omega
    · cases h

/-- A `write` that takes nothing changes nothing. -/
theorem Stream.write_fails {s s' : Stream} {buf : List UInt8} {c : Choice} {out : Outcome ℕ}
    (h : s.write buf c = (out, s')) (hout : ∀ n, out ≠ .ok n) : s' = s := by
  unfold Stream.write at h
  split at h
  · cases h
    rfl
  · split_ifs at h with hbuf hroom
    · cases h
      exact absurd rfl (hout _)
    · cases h
      exact absurd rfl (hout _)
    · cases h
      rfl

def arrived : Event → List UInt8
  | .bytes bs => bs
  | _ => []

theorem Stream.happens_arrived {s s' : Stream} {e : Event} (h : s.happens e = some s') :
    s'.rx = s.rx ++ arrived e ∧ s'.tx = s.tx := by
  cases e with
  | connection st => cases h
  | bytes bs =>
    simp only [happens] at h
    split_ifs at h
    cases h
    exact ⟨rfl, rfl⟩
  | sent n =>
    simp only [happens] at h
    split_ifs at h
    cases h
    exact ⟨(List.append_nil _).symm, rfl⟩
  | fin | error | hangup =>
    cases h
    exact ⟨(List.append_nil _).symm, rfl⟩

namespace Endpoint

def rx : Endpoint → List UInt8
  | .listener _ => []
  | .stream s => s.rx

def tx : Endpoint → List UInt8
  | .listener _ => []
  | .stream s => s.tx

def ended : Endpoint → Bool
  | .listener _ => false
  | .stream s => s.fin

/-- A call on a stream, read back from the call on the endpoint. -/
theorem of_call {α : Type} {p : Outcome α × Stream} {out : Outcome α} {s' : Endpoint}
    (h : (p.1, Endpoint.stream p.2) = (out, s')) : ∃ st', s' = .stream st' ∧ p = (out, st') := by
  obtain ⟨out', st'⟩ := p
  cases h
  exact ⟨st', rfl, rfl⟩

theorem read_fails {s s' : Endpoint} {len : ℕ} {c : Choice} {out : Outcome (List UInt8)}
    (h : tcp.read s len c = (out, s')) (hout : ∀ bytes, out ≠ .ok bytes) : s' = s := by
  cases s with
  | listener backlog =>
    cases h
    rfl
  | stream st =>
    obtain ⟨st', rfl, hread⟩ := of_call h
    rw [Stream.read_fails hread hout]

theorem write_fails {s s' : Endpoint} {buf : List UInt8} {c : Choice} {out : Outcome ℕ}
    (h : tcp.write s buf c = (out, s')) (hout : ∀ n, out ≠ .ok n) : s' = s := by
  cases s with
  | listener backlog =>
    cases h
    rfl
  | stream st =>
    obtain ⟨st', rfl, hwrite⟩ := of_call h
    rw [Stream.write_fails hwrite hout]

end Endpoint

def ledger : tcp.Ledger where
  rx := Endpoint.rx
  tx := Endpoint.tx
  ended := Endpoint.ended
  arrived := arrived
  read_ok {s len c bytes s'} h := by
    cases s with
    | listener backlog => cases h
    | stream st =>
      obtain ⟨st', rfl, hread⟩ := Endpoint.of_call h
      exact (Stream.read_ok hread).1
  read_end {s len c s'} h hlen := by
    cases s with
    | listener backlog => cases h
    | stream st =>
      obtain ⟨st', rfl, hread⟩ := Endpoint.of_call h
      exact (Stream.read_ok hread).2 rfl hlen
  read_again h := by
    rw [Endpoint.read_fails h nofun]
    exact ⟨rfl, rfl⟩
  read_error h := by
    rw [Endpoint.read_fails h nofun]
    exact ⟨rfl, rfl⟩
  write_ok {s buf c n s'} h := by
    cases s with
    | listener backlog => cases h
    | stream st =>
      obtain ⟨st', rfl, hwrite⟩ := Endpoint.of_call h
      exact Stream.write_ok hwrite
  write_again h := by
    rw [Endpoint.write_fails h nofun]
    exact ⟨rfl, rfl⟩
  write_error h := by
    rw [Endpoint.write_fails h nofun]
    exact ⟨rfl, rfl⟩
  happens {s e s'} h := by
    cases s with
    | listener backlog =>
      cases e with
      | connection st =>
        cases h
        exact ⟨rfl, rfl⟩
      | bytes _ | fin | sent _ | error | hangup => cases h
    | stream st =>
      obtain ⟨st', hhappens, rfl⟩ := Option.map_eq_some_iff.mp h
      exact Stream.happens_arrived hhappens

end MiniAsync.Kernel.Buffered
