/-
  The TCP of a kernel, as a program sees it.

  How a kernel runs its connections is its own affair: how many bytes a call moves,
  when it calls a socket writable (not as soon as there is room: Linux waits until a
  third of the send buffer is free), what a `read` with an empty buffer says. So `Tcp`
  is a parameter of whatever is proved about sockets, and the results name what they
  assume of it. There are two such assumptions:

  * `Tcp.Quiet` is about readiness: a call of the program makes no socket ready. What
    makes a socket ready happens to it, and then the kernel looks at those who watch it.
  * `Tcp.Ledger` is about bytes: a call that gives bytes takes them from the front of
    those that have arrived, and a call that fails takes none.

  `Kernel/Buffered` has an instance of both.
-/
import Mathlib.Data.List.Basic

namespace MiniAsync.Kernel

/-- The code of an error other than `EWOULDBLOCK`. -/
abbrev Errno := ℕ

/-- What a call on a non-blocking socket says. -/
inductive Outcome (α : Type*) where
  | ok (a : α)
  | wouldBlock
  | error (e : Errno)
deriving DecidableEq

/-- The answer without what is given. -/
def Outcome.void {α : Type*} : Outcome α → Outcome Unit
  | .ok _ => .ok ()
  | .wouldBlock => .wouldBlock
  | .error e => .error e

/-- What can be noticed of a socket. -/
structure Readiness where
  read : Bool
  write : Bool
  err : Bool
  hup : Bool
deriving DecidableEq

/-- What has less to report. -/
structure Readiness.Le (r r' : Readiness) : Prop where
  read : r.read = true → r'.read = true
  write : r.write = true → r'.write = true
  err : r.err = true → r'.err = true
  hup : r.hup = true → r'.hup = true

theorem Readiness.Le.refl (r : Readiness) : r.Le r := ⟨id, id, id, id⟩

/-- The TCP of a kernel: `σ` are the states of a socket, `ε` is what may happen to one without the
program, and `χ` is what the kernel may choose in a call. -/
structure Tcp (σ ε χ : Type) where
  /-- `accept`, with the new socket and the state that the listener is left in. -/
  accept : σ → χ → Outcome σ × σ
  /-- `read` with a buffer of a given length, with the bytes that it puts there. -/
  read : σ → ℕ → χ → Outcome (List UInt8) × σ
  /-- `write`, with the number of bytes that it takes. -/
  write : σ → List UInt8 → χ → Outcome ℕ × σ
  /-- Something happens to the socket, if it can happen. -/
  happens : σ → ε → Option σ
  /-- What the socket says when `epoll` asks. -/
  readiness : σ → Readiness

namespace Tcp

variable {σ ε χ : Type}

/-- **Calls of the program make no socket ready.** -/
structure Quiet (K : Tcp σ ε χ) : Prop where
  accept : ∀ s c, (K.readiness (K.accept s c).2).Le (K.readiness s)
  read : ∀ s len c, (K.readiness (K.read s len c).2).Le (K.readiness s)
  write : ∀ s buf c, (K.readiness (K.write s buf c).2).Le (K.readiness s)

/-- **The bytes of a connection**, of which the program sees those that its calls give and take. -/
structure Ledger (K : Tcp σ ε χ) where
  /-- The bytes that have arrived and have not been read. -/
  rx : σ → List UInt8
  /-- The bytes that have been taken from the program since the connection was made. -/
  tx : σ → List UInt8
  /-- No more bytes come: the peer has closed its side, or the connection is broken. -/
  ended : σ → Bool
  /-- The bytes that arrive. -/
  arrived : ε → List UInt8
  /-- `Ok` of `read` is a front part of what has arrived, no longer than the buffer. -/
  read_ok : ∀ {s len c bytes s'}, K.read s len c = (.ok bytes, s') →
    bytes.length ≤ len ∧ bytes ++ rx s' = rx s ∧ tx s' = tx s
  /-- `Ok(0)` of a `read` that has room means the end. -/
  read_end : ∀ {s len c s'}, K.read s len c = (.ok [], s') → len ≠ 0 →
    ended s' = true ∧ rx s' = []
  /-- A `read` that would block, with an empty buffer or not, takes nothing. -/
  read_again : ∀ {s len c s'}, K.read s len c = (.wouldBlock, s') → rx s' = rx s ∧ tx s' = tx s
  read_error : ∀ {s len c e s'}, K.read s len c = (.error e, s') → rx s' = rx s ∧ tx s' = tx s
  /-- `Ok(n)` of `write` means that the first `n` bytes of the buffer are taken. -/
  write_ok : ∀ {s buf c n s'}, K.write s buf c = (.ok n, s') →
    n ≤ buf.length ∧ tx s' = tx s ++ buf.take n ∧ rx s' = rx s
  write_again : ∀ {s buf c s'}, K.write s buf c = (.wouldBlock, s') → rx s' = rx s ∧ tx s' = tx s
  write_error : ∀ {s buf c e s'}, K.write s buf c = (.error e, s') → rx s' = rx s ∧ tx s' = tx s
  happens : ∀ {s e s'}, K.happens s e = some s' → rx s' = rx s ++ arrived e ∧ tx s' = tx s

/-- On the way from `s` to `s'` the bytes `arrived` come in, `taken` are read and `given` are
written. -/
structure Ledger.Carries {K : Tcp σ ε χ} (L : K.Ledger) (s s' : σ)
    (arrived taken given : List UInt8) : Prop where
  rx : taken ++ L.rx s' = L.rx s ++ arrived
  tx : L.tx s' = L.tx s ++ given

namespace Ledger

variable {K : Tcp σ ε χ} {L : K.Ledger} {s s' s'' : σ}
  {arrived arrived' taken taken' given given' : List UInt8}

theorem Carries.of_eq (hrx : L.rx s' = L.rx s) (htx : L.tx s' = L.tx s) :
    L.Carries s s' [] [] [] :=
  ⟨hrx.trans (List.append_nil _).symm, htx.trans (List.append_nil _).symm⟩

theorem Carries.refl (s : σ) : L.Carries s s [] [] [] := .of_eq rfl rfl

theorem Carries.trans (h : L.Carries s s' arrived taken given)
    (h' : L.Carries s' s'' arrived' taken' given') :
    L.Carries s s'' (arrived ++ arrived') (taken ++ taken') (given ++ given') := by
  constructor
  · rw [List.append_assoc, h'.rx, ← List.append_assoc, h.rx, List.append_assoc]
  · rw [h'.tx, h.tx, List.append_assoc]

theorem carries_read {len : ℕ} {c : χ} {bytes : List UInt8}
    (h : K.read s len c = (.ok bytes, s')) : L.Carries s s' [] bytes [] := by
  obtain ⟨-, hrx, htx⟩ := L.read_ok h
  exact ⟨hrx.trans (List.append_nil _).symm, htx.trans (List.append_nil _).symm⟩

theorem carries_write {buf : List UInt8} {c : χ} {n : ℕ} (h : K.write s buf c = (.ok n, s')) :
    L.Carries s s' [] [] (buf.take n) := by
  obtain ⟨-, htx, hrx⟩ := L.write_ok h
  exact ⟨hrx.trans (List.append_nil _).symm, htx⟩

theorem carries_happens {e : ε} (h : K.happens s e = some s') :
    L.Carries s s' (L.arrived e) [] [] := by
  obtain ⟨hrx, htx⟩ := L.happens h
  exact ⟨hrx, htx.trans (List.append_nil _).symm⟩

end Ledger

end Tcp

end MiniAsync.Kernel
