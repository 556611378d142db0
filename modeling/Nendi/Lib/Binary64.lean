import Mathlib.Algebra.Order.Archimedean.Basic
import Mathlib.Data.Int.Log
import Nendi.Lib.Duration

/-! # Binary floating point

The rounding of binary64 arithmetic: a number that is not negative goes to the nearest one
with 53 significant bits, of two to the one with an even last bit.  The exponent is not
bounded here, so the results are those of an `f64` as long as none overflows or is
subnormal. -/

namespace Nendi.Lib

/-! ## The nearest integer -/

theorem roundEven_error (value : ℚ) : |(roundEven value : ℚ) - value| ≤ 1 / 2 := by
  have below := Int.floor_le value
  have above := Int.lt_floor_add_one value
  rw [abs_le]
  simp only [roundEven]
  split_ifs with down up even
  · constructor <;> linarith
  · push_cast
    constructor <;> linarith
  · constructor <;> linarith
  · push_cast
    constructor <;> linarith

theorem roundEven_of_near {value : ℚ} {number : Int} (near : |value - number| < 1 / 2) : roundEven value = number := by
  have error := roundEven_error value
  rw [abs_lt] at near
  rw [abs_le] at error
  have upper : (roundEven value : ℚ) < number + 1 := by linarith
  have lower : (number : ℚ) < roundEven value + 1 := by linarith
  have upper' : roundEven value < number + 1 := by exact_mod_cast upper
  have lower' : number < roundEven value + 1 := by exact_mod_cast lower
  omega

theorem le_roundEven {value : ℚ} {bound : Int} (le : (bound : ℚ) ≤ value) : bound ≤ roundEven value := by
  have below : bound ≤ ⌊value⌋ := Int.le_floor.mpr le
  simp only [roundEven]
  split_ifs
  · exact below
  · omega
  · exact below
  · omega

theorem roundEven_mono {first second : ℚ} (le : first ≤ second) : roundEven first ≤ roundEven second := by
  obtain sameFloor | lessFloor := (Int.floor_le_floor le).eq_or_lt
  · -- with the same floor the one with the smaller fraction rounds up no sooner
    simp only [roundEven, sameFloor]
    split_ifs <;> first | omega | linarith
  · have upper : roundEven first ≤ ⌊first⌋ + 1 :=
      roundEven_le (by push_cast; exact (Int.lt_floor_add_one first).le)
    have lower : ⌊second⌋ ≤ roundEven second := le_roundEven (Int.floor_le second)
    omega

/-! ## Rounding to 53 bits -/

def ulp (value : ℚ) : ℚ := 2 ^ (Int.log 2 value - 52)

def round53 (value : ℚ) : ℚ := roundEven (value / ulp value) * ulp value

theorem ulp_pos (value : ℚ) : 0 < ulp value := zpow_pos (by norm_num) _

theorem round53_zero : round53 0 = 0 := by
  rw [round53, zero_div]
  norm_num [roundEven]

theorem round53_error (value : ℚ) : |round53 value - value| ≤ ulp value / 2 := by
  have error := roundEven_error (value / ulp value)
  have positive := ulp_pos value
  have whole : round53 value - value = (roundEven (value / ulp value) - value / ulp value) * ulp value := by
    rw [round53, sub_mul, div_mul_cancel₀ _ positive.ne']
  rw [whole, abs_mul, abs_of_pos positive]
  calc _ ≤ 1 / 2 * ulp value := mul_le_mul_of_nonneg_right error positive.le
    _ = ulp value / 2 := by ring

theorem round53_of_near {value : ℚ} {number : Int} (near : |value - number * ulp value| < ulp value / 2) :
    round53 value = number * ulp value := by
  have positive := ulp_pos value
  have scaled : value / ulp value - number = (value - number * ulp value) / ulp value := by
    rw [sub_div, mul_div_cancel_right₀ _ positive.ne']
  rw [round53, roundEven_of_near]
  rw [scaled, abs_div, abs_of_pos positive, div_lt_iff₀ positive]
  linarith

theorem ulp_le {value : ℚ} {exponent : Int} (positive : 0 < value) (small : value < 2 ^ exponent) :
    ulp value ≤ 2 ^ (exponent - 53) := by
  have log : Int.log 2 value < exponent := (Int.lt_zpow_iff_log_lt (by norm_num) positive).mp (by exact_mod_cast small)
  exact zpow_le_zpow_right₀ (by norm_num) (by omega)

theorem natCast_multiple (number : Nat) {value : ℚ} (positive : 0 < value) (small : value < 2 ^ (53 : Int)) :
    ∃ multiple : Int, (number : ℚ) = multiple * ulp value := by
  have log : Int.log 2 value < 53 := (Int.lt_zpow_iff_log_lt (by norm_num) positive).mp (by exact_mod_cast small)
  refine ⟨number * 2 ^ (52 - Int.log 2 value).toNat, ?_⟩
  have exponent : ((52 - Int.log 2 value).toNat : Int) = 52 - Int.log 2 value := Int.toNat_of_nonneg (by omega)
  push_cast
  rw [ulp, mul_assoc, ← zpow_natCast, exponent, ← zpow_add₀ (by norm_num)]
  simp

theorem round53_natCast {number : Nat} (small : number < 2 ^ 53) : round53 number = number := by
  obtain rfl | positive := Nat.eq_zero_or_pos number
  · exact_mod_cast round53_zero
  · obtain ⟨multiple, whole⟩ := natCast_multiple number (show (0 : ℚ) < number by exact_mod_cast positive)
      (by exact_mod_cast small)
    have near : |(number : ℚ) - multiple * ulp number| < ulp number / 2 := by
      rw [← whole, sub_self, abs_zero]
      exact half_pos (ulp_pos _)
    rw [round53_of_near near]
    exact whole.symm

theorem zpow_le_round53 {value : ℚ} (positive : 0 < value) : 2 ^ Int.log 2 value ≤ round53 value := by
  have ulpPositive := ulp_pos value
  have scale : (2 : ℚ) ^ Int.log 2 value = ((2 ^ 52 : Int) : ℚ) * ulp value := by
    rw [ulp, zpow_sub₀ two_ne_zero]
    norm_num
    ring
  have low : ((2 ^ 52 : Int) : ℚ) ≤ value / ulp value := by
    rw [le_div_iff₀ ulpPositive, ← scale]
    exact_mod_cast Int.zpow_log_le_self (by norm_num) positive
  rw [scale, round53]
  exact mul_le_mul_of_nonneg_right (by exact_mod_cast le_roundEven low) ulpPositive.le

theorem zpow_succ_log (value : ℚ) : (2 : ℚ) ^ (Int.log 2 value + 1) = 2 ^ 53 * ulp value := by
  rw [ulp, zpow_add_one₀ two_ne_zero, zpow_sub₀ two_ne_zero]
  norm_num
  ring

theorem lt_mul_ulp (value : ℚ) : value < 2 ^ 53 * ulp value := by
  rw [← zpow_succ_log]
  exact_mod_cast Int.lt_zpow_succ_log_self (by norm_num) value

theorem round53_le_zpow (value : ℚ) : round53 value ≤ 2 ^ (Int.log 2 value + 1) := by
  have high : value / ulp value ≤ ((2 ^ 53 : Int) : ℚ) := by
    rw [div_le_iff₀ (ulp_pos value)]
    exact_mod_cast (lt_mul_ulp value).le
  rw [zpow_succ_log, round53]
  exact mul_le_mul_of_nonneg_right (by exact_mod_cast roundEven_le high) (ulp_pos value).le

theorem round53_mono {first second : ℚ} (positive : 0 < first) (le : first ≤ second) : round53 first ≤ round53 second := by
  obtain sameLog | lessLog := (Int.log_mono_right (b := 2) positive le).eq_or_lt
  · have sameUlp : ulp first = ulp second := by rw [ulp, ulp, sameLog]
    rw [round53, round53, sameUlp]
    have scaled : first / ulp second ≤ second / ulp second := div_le_div_of_nonneg_right le (ulp_pos second).le
    exact mul_le_mul_of_nonneg_right (by exact_mod_cast roundEven_mono scaled) (ulp_pos second).le
  · -- a power of two lies between them
    calc round53 first ≤ 2 ^ (Int.log 2 first + 1) := round53_le_zpow first
      _ ≤ 2 ^ Int.log 2 second := zpow_le_zpow_right₀ (by norm_num) (by omega)
      _ ≤ round53 second := zpow_le_round53 (positive.trans_le le)

theorem round53_pos {value : ℚ} (positive : 0 < value) : 0 < round53 value :=
  (zpow_pos (by norm_num) _).trans_le (zpow_le_round53 positive)

/-! ## Numbers and what is none -/

inductive Float64 where
  | nan
  | negInfinity
  | infinity
  | finite (value : ℚ)

namespace Float64

def lt : Float64 → Float64 → Bool
  -- nothing is less or greater than a NaN
  | .finite first, .finite second => decide (first < second)
  | .finite _, .infinity | .negInfinity, .finite _ | .negInfinity, .infinity => true
  | _, _ => false

/-- `clamp(0.0, 1.0)`, which keeps a NaN. -/
def clampUnit : Float64 → Float64
  | .nan => .nan
  | .negInfinity => .finite 0
  | .infinity => .finite 1
  | .finite value => .finite (max 0 (min value 1))

def divide (first second : ℚ) : Float64 :=
  if second = 0 then if first = 0 then .nan else .infinity
  else .finite (round53 (first / second))

theorem lt_divide {first second bound : ℚ} (nonneg : 0 ≤ second) (le : second ≤ first) (positive : 0 < first)
    (below : bound < 1) : lt (.finite bound) (divide first second) = true := by
  rw [divide]
  split
  next zero => rw [if_neg positive.ne']; rfl
  next nonzero =>
    have secondPositive : 0 < second := lt_of_le_of_ne nonneg (Ne.symm nonzero)
    have one : round53 1 ≤ round53 (first / second) := round53_mono one_pos ((one_le_div secondPositive).mpr le)
    have exactOne : round53 1 = 1 := by exact_mod_cast round53_natCast (show 1 < 2 ^ 53 by norm_num)
    rw [exactOne] at one
    exact decide_eq_true (below.trans_le one)

end Float64

end Nendi.Lib
