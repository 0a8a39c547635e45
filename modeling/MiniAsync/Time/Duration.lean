/-
  Durations, as the machine words that the standard library keeps them in.

  A `Duration` is a 64-bit number of seconds and a 32-bit number of nanoseconds
  that is less than a second. `asNanos` and `divCeil` are computed in 128 bits;
  `asNanos_toNat` and `toNat_divCeil` say that they lose nothing, so that the
  numbers that come out are the ones of the natural numbers.
-/
import Mathlib.Algebra.Order.Floor.Div
import Mathlib.Data.BitVec
import Mathlib.Tactic.Common

namespace MiniAsync.Time

/-- A span of time. -/
structure Duration where
  secs : BitVec 64
  nanos : BitVec 32
  nanos_lt : nanos.toNat < 1000000000
deriving DecidableEq

namespace Duration

/-- The nanoseconds that a `Duration` is too small for. -/
def range : ℕ := 2 ^ 64 * 1000000000

/-- The span, in nanoseconds. -/
def toNat (d : Duration) : ℕ := d.secs.toNat * 1000000000 + d.nanos.toNat

/-- The `Duration` of a number of nanoseconds. -/
def ofNanos (n : ℕ) : Duration where
  secs := BitVec.ofNat 64 (n / 1000000000)
  nanos := BitVec.ofNat 32 (n % 1000000000)
  nanos_lt := by
    rw [BitVec.toNat_ofNat]
    omega

/-- `Duration::is_zero`. -/
def isZero (d : Duration) : Bool := d.secs == 0#64 && d.nanos == 0#32

/-- `Duration::as_nanos`, a `u128`. -/
def asNanos (d : Duration) : BitVec 128 :=
  d.secs.setWidth 128 * 1000000000#128 + d.nanos.setWidth 128

theorem toNat_ofNanos {n : ℕ} (hn : n < range) : (ofNanos n).toNat = n := by
  simp only [toNat, ofNanos, BitVec.toNat_ofNat]
  unfold range at hn
  omega

theorem isZero_eq_false_iff {d : Duration} : d.isZero = false ↔ 0 < d.toNat := by
  have hzero : d.isZero = true ↔ d.toNat = 0 := by
    rw [isZero, Bool.and_eq_true, beq_iff_eq, beq_iff_eq, ← BitVec.toNat_inj, ← BitVec.toNat_inj,
      BitVec.toNat_zero, BitVec.toNat_zero, toNat]
    omega
  rw [← Bool.not_eq_true, hzero, Nat.pos_iff_ne_zero]

/-- No duration overflows 128 bits of nanoseconds. -/
theorem asNanos_toNat (d : Duration) : d.asNanos.toNat = d.toNat := by
  have hsecs := d.secs.isLt
  have hnanos := d.nanos.isLt
  have hmul : (d.secs.setWidth 128 * 1000000000#128).toNat =
      d.secs.toNat * 1000000000 := by
    rw [BitVec.toNat_mul, BitVec.toNat_setWidth, BitVec.toNat_ofNat]
    omega
  rw [asNanos, BitVec.toNat_add, hmul, BitVec.toNat_setWidth, toNat]
  omega

end Duration

/-- `div_ceil` of an unsigned integer type. -/
def divCeil {w : ℕ} (x y : BitVec w) : BitVec w :=
  let d := x / y
  let r := x % y
  if 0#w < r then d + 1#w else d

/-- The sum in `div_ceil` does not overflow, and the result is the quotient rounded up. -/
theorem toNat_divCeil {w : ℕ} (x y : BitVec w) (hy : 0 < y.toNat) :
    (divCeil x y).toNat = x.toNat ⌈/⌉ y.toNat := by
  have hdiv := Nat.div_add_mod x.toNat y.toNat
  have hr : 0#w < x % y ↔ 0 < x.toNat % y.toNat := by
    rw [BitVec.lt_def, BitVec.toNat_umod, BitVec.toNat_ofNat, Nat.zero_mod]
  refine eq_of_forall_ge_iff fun c => ?_
  rw [ceilDiv_le_iff_le_mul hy, divCeil]
  split_ifs with hpos
  · rw [hr] at hpos
    have hsum : (x / y + 1#w).toNat = x.toNat / y.toNat + 1 := by
      have hle : x.toNat / y.toNat ≤ y.toNat * (x.toNat / y.toNat) := Nat.le_mul_of_pos_left _ hy
      have hlt : x.toNat / y.toNat + 1 < 2 ^ w := by
        have hx := x.isLt
        omega
      rw [BitVec.toNat_add, BitVec.toNat_udiv, BitVec.toNat_ofNat, Nat.add_mod_mod,
        Nat.mod_eq_of_lt hlt]
    -- `x` is not a multiple of `y`
    have hne : x.toNat ≠ y.toNat * c := fun heq => by
      rw [heq, Nat.mul_mod_right] at hpos
      exact Nat.lt_irrefl 0 hpos
    rw [hsum, Nat.succ_le_iff, Nat.div_lt_iff_lt_mul hy, Nat.mul_comm]
    exact ⟨Nat.le_of_lt, fun hle => Nat.lt_of_le_of_ne hle hne⟩
  · rw [hr, Nat.not_lt, Nat.le_zero] at hpos
    rw [hpos, Nat.add_zero] at hdiv
    rw [BitVec.toNat_udiv]
    nth_rewrite 2 [← hdiv]
    exact (Nat.mul_le_mul_left_iff hy).symm

end MiniAsync.Time
