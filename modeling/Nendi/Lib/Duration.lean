import Mathlib.Data.Rat.Floor
import Mathlib.Tactic.Linarith
import Mathlib.Tactic.NormNum

/-! # Spans of time

`std::time::Duration`: whole nanoseconds, fewer than `2 ^ 64` seconds.  Numbers of seconds
are read as exact rationals; a `Duration` made from one is rounded to the nearest
nanosecond, to the even one where two are equally near. -/

namespace Nendi.Lib

structure Duration where
  nanos : Nat
  fits : nanos < 2 ^ 64 * 10 ^ 9
deriving DecidableEq, Repr

def roundEven (value : ℚ) : Int :=
  let below := ⌊value⌋
  let fraction := value - below
  if fraction < 1 / 2 then below
  else if 1 / 2 < fraction then below + 1
  else if below % 2 = 0 then below
  else below + 1

namespace Duration

instance : LE Duration := ⟨fun first second => first.nanos ≤ second.nanos⟩

instance : Min Duration := ⟨fun first second => if first.nanos ≤ second.nanos then first else second⟩

def zero : Duration := ⟨0, by decide⟩

def fromSecs (secs : UInt64) : Duration where
  nanos := secs.toNat * 10 ^ 9
  fits := by
    have bound := secs.toNat_lt
    omega

def fromMillis (millis : UInt64) : Duration where
  nanos := millis.toNat * 10 ^ 6
  fits := by
    have bound := millis.toNat_lt
    omega

def asSecs (duration : Duration) : ℚ := duration.nanos / 10 ^ 9

/-- `Duration::from_secs_f64`; `none` where it panics, on a negative number and on overflow. -/
def fromSecsF64 (secs : ℚ) : Option Duration :=
  let nanos := (roundEven (secs * 10 ^ 9)).toNat
  if secs < 0 then none
  else if fits : nanos < 2 ^ 64 * 10 ^ 9 then some ⟨nanos, fits⟩
  else none

/-- `none` where it panics. -/
def mulF64 (duration : Duration) (factor : ℚ) : Option Duration := fromSecsF64 (factor * duration.asSecs)

end Duration

theorem roundEven_natCast (number : Nat) : roundEven number = number := by
  simp [roundEven]

theorem roundEven_le {value : ℚ} {bound : Int} (le : value ≤ bound) : roundEven value ≤ bound := by
  have below : ⌊value⌋ ≤ bound := Int.cast_le.mp ((Int.floor_le value).trans le)
  -- rounding up happens only strictly below the bound
  have up : 1 / 2 ≤ value - ⌊value⌋ → ⌊value⌋ + 1 ≤ bound := by
    intro half
    have less : (⌊value⌋ : ℚ) < bound := by linarith
    exact Int.add_one_le_of_lt (Int.cast_lt.mp less)
  simp only [roundEven]
  split_ifs with down more even
  · exact below
  · exact up more.le
  · exact below
  · exact up (not_lt.mp down)

theorem fromSecsF64_nanos (nanos : Nat) :
    Duration.fromSecsF64 (nanos / 10 ^ 9) =
      if fits : nanos < 2 ^ 64 * 10 ^ 9 then some ⟨nanos, fits⟩ else none := by
  have nonneg : ¬ (nanos : ℚ) / 10 ^ 9 < 0 := by
    rw [not_lt]
    positivity
  have whole : (nanos : ℚ) / 10 ^ 9 * 10 ^ 9 = nanos := by field_simp
  simp only [Duration.fromSecsF64, nonneg, whole, roundEven_natCast, Int.toNat_natCast, if_false]

theorem fromSecsF64_le {secs : ℚ} {bound : Nat} (nonneg : 0 ≤ secs) (le : secs * 10 ^ 9 ≤ bound)
    (fits : bound < 2 ^ 64 * 10 ^ 9) :
    ∃ duration, Duration.fromSecsF64 secs = some duration ∧ duration.nanos ≤ bound := by
  have rounded : (roundEven (secs * 10 ^ 9)).toNat ≤ bound := Int.toNat_le.mpr (roundEven_le (by exact_mod_cast le))
  simp only [Duration.fromSecsF64, if_neg (not_lt.mpr nonneg), dif_pos (rounded.trans_lt fits)]
  exact ⟨_, rfl, rounded⟩

theorem min_nanos (first second : Duration) : (min first second).nanos = min first.nanos second.nanos := by
  show (if first.nanos ≤ second.nanos then first else second).nanos = _
  split
  next le => rw [Nat.min_eq_left le]
  next gt => rw [Nat.min_eq_right (Nat.le_of_not_le gt)]

end Nendi.Lib
