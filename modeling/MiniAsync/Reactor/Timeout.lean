/-
  The timeout of `epoll_wait`: the first lines of `Reactor::poll`.

  A `Duration` becomes a number of nanoseconds in 128 bits, is rounded up to
  milliseconds, clamped and cast to 32 bits with a sign. `Conversion` says what the
  reactor's callers rely on, and that no step on the way changes a value.
-/
import MiniAsync.Time.Duration

namespace MiniAsync.Reactor

open Time

/-- `i32::MAX`. -/
def i32Max : ℕ := 2 ^ 31 - 1

/-- The `timeout_ms` of `Reactor::poll`, an `i32`. -/
def timeoutMs : Option Duration → BitVec 32
  | none => -1#32
  | some d =>
    if d.isZero then 0#32
    else
      let ns := d.asNanos
      let ms := divCeil ns 1000000#128
      let clamped := if ms ≤ BitVec.ofNat 128 i32Max then ms else BitVec.ofNat 128 i32Max
      clamped.setWidth 32

/-- What `epoll_wait` is given for a timeout of `ns` nanoseconds. -/
def waitMs (ns : ℕ) : ℤ := (timeoutMs (some (.ofNanos ns))).toInt

/-- A timeout of `ns` nanoseconds survives the conversion: no value on the way is changed by the
width that it is kept in, the result is positive and it is `ns` rounded up to a millisecond, unless
this is more than an `i32` can hold. -/
structure Conversion (ns : ℕ) : Prop where
  span : (Duration.ofNanos ns).toNat = ns
  nanos : (Duration.ofNanos ns).asNanos.toNat = ns
  millis : (divCeil (Duration.ofNanos ns).asNanos 1000000#128).toNat = ns ⌈/⌉ 1000000
  cast : waitMs ns = (min (ns ⌈/⌉ 1000000) i32Max : ℕ)
  pos : 1 ≤ waitMs ns
  le : waitMs ns ≤ i32Max
  rounded : (waitMs ns - 1) * 1000000 < ns ∧ ns ≤ waitMs ns * 1000000 ∨
    waitMs ns = i32Max ∧ i32Max * 1000000 < ns

/-- The clamp and the cast lose nothing but what the clamp is for. -/
theorem toInt_timeoutMs {d : Duration} (hd : 0 < d.toNat) :
    (timeoutMs (some d)).toInt = (min (d.toNat ⌈/⌉ 1000000) i32Max : ℕ) := by
  have hms : (divCeil d.asNanos 1000000#128).toNat = d.toNat ⌈/⌉ 1000000 := by
    rw [toNat_divCeil _ _ (by decide), d.asNanos_toNat]
    rfl
  have hmax : (BitVec.ofNat 128 i32Max).toNat = i32Max := by decide
  have hclamped : (if divCeil d.asNanos 1000000#128 ≤ BitVec.ofNat 128 i32Max
      then divCeil d.asNanos 1000000#128 else BitVec.ofNat 128 i32Max).toNat =
      min (d.toNat ⌈/⌉ 1000000) i32Max := by
    rw [apply_ite BitVec.toNat, hms, hmax, Nat.min_def]
    simp only [BitVec.le_def, hms, hmax]
  have hsmall : min (d.toNat ⌈/⌉ 1000000) i32Max < 2 ^ 31 :=
    Nat.lt_of_le_of_lt (Nat.min_le_right _ _) (by decide)
  have hcast : (timeoutMs (some d)).toNat = min (d.toNat ⌈/⌉ 1000000) i32Max := by
    rw [timeoutMs, Duration.isZero_eq_false_iff.mpr hd]
    simp only [Bool.false_eq_true, if_false, BitVec.toNat_setWidth, hclamped]
    exact Nat.mod_eq_of_lt (by omega)
  rw [BitVec.toInt_eq_toNat_of_lt (by rw [hcast]; omega), hcast]

/-- **Every positive timeout survives.** -/
theorem conversion {ns : ℕ} (hpos : 0 < ns) (hns : ns < Duration.range) : Conversion ns := by
  have hspan := Duration.toNat_ofNanos hns
  have hcast : waitMs ns = (min (ns ⌈/⌉ 1000000) i32Max : ℕ) := by
    rw [waitMs, toInt_timeoutMs (hspan.symm ▸ hpos), hspan]
  -- the quotient that is rounded up, by what it is at most
  have hceil : ∀ k, ns ⌈/⌉ 1000000 ≤ k ↔ ns ≤ 1000000 * k := fun k =>
    ceilDiv_le_iff_le_mul (by decide)
  have hone := (hceil 0).not
  have hself := (hceil (ns ⌈/⌉ 1000000)).mp (Nat.le_refl _)
  have hpred := (hceil (ns ⌈/⌉ 1000000 - 1)).not
  have hmax : i32Max = 2147483647 := rfl
  refine ⟨hspan, ?_, ?_, hcast, ?_, ?_, ?_⟩
  · rw [Duration.asNanos_toNat, hspan]
  · rw [toNat_divCeil _ _ (by decide), Duration.asNanos_toNat, hspan]
    rfl
  all_goals rw [hcast]
  · omega
  · omega
  · omega

end MiniAsync.Reactor
