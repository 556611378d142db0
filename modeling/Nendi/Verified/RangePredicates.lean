import Nendi.Core.Ingestion
import Nendi.Lib.Decimal

/-! # Range predicates on integers

The ingestion filter compares texts.  For which pairs of integers that is the
comparison of the integers, is said in terms of their digits.
-/

namespace Nendi.Verified

open Nendi.Core Nendi.Lib

def rangeHolds : PredicateOp → Int → Int → Option Bool
  | .gt, actual, expected => some (decide (actual > expected))
  | .lt, actual, expected => some (decide (actual < expected))
  | .gte, actual, expected => some (decide (actual ≥ expected))
  | .lte, actual, expected => some (decide (actual ≤ expected))
  | _, _, _ => none

/-- The number that the leading digits of `longer` make, as many as `shorter` has. -/
def leading (shorter longer : Nat) : Nat := longer / 10 ^ (digitCount longer - digitCount shorter)

/-- When the texts of two integers are in the order of the integers. -/
def SameOrder : Int → Int → Prop
  | .ofNat first, .ofNat second =>
    (digitCount first < digitCount second → first ≤ leading first second) ∧
      (digitCount second < digitCount first → second ≤ leading second first)
  -- below zero the order of the texts is the wrong way round
  | .negSucc first, .negSucc second =>
    (digitCount (first + 1) = digitCount (second + 1) → first = second) ∧
      (digitCount (first + 1) < digitCount (second + 1) → leading (first + 1) (second + 1) < first + 1) ∧
      (digitCount (second + 1) < digitCount (first + 1) → leading (second + 1) (first + 1) < second + 1)
  | _, _ => True

/-! ## Natural numbers -/

theorem naturals_agree_iff (first second : Nat) :
    (decimalBytes first < decimalBytes second ↔ first < second) ↔
      (digitCount first < digitCount second → first ≤ leading first second) ∧
        (digitCount second < digitCount first → second ≤ leading second first) := by
  rcases Nat.lt_trichotomy (digitCount first) (digitCount second) with fewer | same | more
  · -- the number with fewer digits is smaller, whatever its digits are
    have less := lt_of_digitCount_lt fewer
    rw [decimalBytes_lt_longer fewer, leading]
    simp [less, fewer, Nat.lt_asymm fewer]
  · rw [decimalBytes_lt_iff same]
    simp [same]
  · have greater := lt_of_digitCount_lt more
    rw [decimalBytes_lt_shorter more, ← leading]
    simp [more, Nat.lt_asymm more, Nat.lt_asymm greater]

theorem naturals_reversed_iff (first second : Nat) :
    (decimalBytes first < decimalBytes second ↔ second < first) ↔
      (digitCount first = digitCount second → first = second) ∧
        (digitCount first < digitCount second → leading first second < first) ∧
        (digitCount second < digitCount first → leading second first < second) := by
  rcases Nat.lt_trichotomy (digitCount first) (digitCount second) with fewer | same | more
  · have less := lt_of_digitCount_lt fewer
    rw [decimalBytes_lt_longer fewer, leading]
    simp [fewer, fewer.ne, Nat.lt_asymm fewer, Nat.lt_asymm less]
  · rw [decimalBytes_lt_iff same]
    simp only [same, Nat.lt_irrefl, forall_true_left, false_implies, and_true]
    omega
  · have greater := lt_of_digitCount_lt more
    rw [decimalBytes_lt_shorter more, ← leading]
    simp [more, more.ne', Nat.lt_asymm more, greater]

/-! ## Integers -/

def integerBytes (number : Int) : List UInt8 := utf8Bytes (toString number)

theorem integerBytes_ofNat (number : Nat) : integerBytes (.ofNat number) = decimalBytes number := rfl

theorem integerBytes_negSucc (number : Nat) :
    integerBytes (.negSucc number) = 45 :: decimalBytes (number + 1) :=
  utf8Bytes_append "-" (number + 1).repr

theorem negative_lt_natural (first second : Nat) :
    integerBytes (.negSucc first) < integerBytes (.ofNat second) := by
  -- the minus sign stands before every digit
  obtain ⟨digit, rest, bound, head⟩ := decimalBytes_head second
  rw [integerBytes_negSucc, integerBytes_ofNat, head, List.cons_lt_cons_iff, UInt8.lt_iff_toNat_lt]
  left
  simp only [digitByte, UInt8.toNat_ofNat', UInt8.reduceToNat]
  omega

theorem integerBytes_injective : Function.Injective integerBytes := by
  intro first second same
  match first, second with
  | .ofNat first, .ofNat second => rw [decimalBytes_injective same]
  | .negSucc first, .negSucc second =>
    rw [integerBytes_negSucc, integerBytes_negSucc, List.cons.injEq] at same
    rw [Nat.succ.inj (decimalBytes_injective same.2)]
  | .ofNat first, .negSucc second => exact absurd same.symm (negative_lt_natural second first).ne
  | .negSucc first, .ofNat second => exact absurd same (negative_lt_natural first second).ne

theorem integers_agree_iff (first second : Int) :
    (integerBytes first < integerBytes second ↔ first < second) ↔ SameOrder first second := by
  match first, second with
  | .ofNat first, .ofNat second =>
    rw [integerBytes_ofNat, integerBytes_ofNat, Int.ofNat_eq_natCast, Int.ofNat_eq_natCast, Int.ofNat_lt,
      naturals_agree_iff]
    rfl
  | .negSucc first, .negSucc second =>
    -- behind the two signs the magnitudes are compared, and the larger one is the smaller integer
    have reversed : Int.negSucc first < Int.negSucc second ↔ second + 1 < first + 1 := by omega
    rw [integerBytes_negSucc, integerBytes_negSucc, List.cons_lt_cons_iff, reversed]
    simp only [lt_irrefl, true_and, false_or, naturals_reversed_iff, SameOrder, Nat.add_right_cancel_iff]
  | .ofNat first, .negSucc second =>
    have greater := (Int.negSucc_lt_zero second).trans_le (Int.natCast_nonneg first)
    exact iff_of_true (iff_of_false (negative_lt_natural second first).asymm greater.asymm) trivial
  | .negSucc first, .ofNat second =>
    have less := (Int.negSucc_lt_zero first).trans_le (Int.natCast_nonneg second)
    exact iff_of_true (iff_of_true (negative_lt_natural first second) less) trivial

theorem agree_comm {α β : Type} [LinearOrder α] [LinearOrder β] {text : α → β}
    (injective : Function.Injective text) (first second : α) :
    (text second < text first ↔ second < first) ↔ (text first < text second ↔ first < second) := by
  rcases lt_trichotomy first second with less | same | greater
  · have different : text first ≠ text second := injective.ne less.ne
    simp [less, less.asymm, le_iff_lt_or_eq, different]
  · subst same
    rfl
  · have different : text second ≠ text first := injective.ne greater.ne
    simp [greater, greater.asymm, le_iff_lt_or_eq, different]

/-- A range predicate decides as the integers do exactly where their texts are in the same order. -/
theorem range_predicate_integer_iff (op : PredicateOp) (actual expected : Int) (verdict : Bool)
    (ranged : rangeHolds op actual expected = some verdict) :
    evaluatePredicate (some (toString actual)) op (toString expected) = verdict ↔
      SameOrder actual expected := by
  have swapped := agree_comm integerBytes_injective actual expected
  rw [← integers_agree_iff]
  -- the operators without an integer meaning are ruled out by `ranged`
  cases op <;> cases ranged
  case gt => exact decide_eq_decide.trans swapped
  case lt => exact decide_eq_decide
  case gte =>
    refine decide_eq_decide.trans ?_
    rw [← not_lt, ge_iff_le, ← not_lt, not_iff_not]
    rfl
  case lte =>
    refine decide_eq_decide.trans ?_
    rw [← not_lt, ← not_lt, not_iff_not]
    exact swapped

theorem range_predicate_negative_amount :
    rangeHolds .lt (-5) 120 = some true ∧
      evaluatePredicate (some (toString (-5 : Int))) .lt (toString (120 : Int)) = true :=
  ⟨rfl, (range_predicate_integer_iff .lt (-5) 120 true rfl).mpr trivial⟩

/-- As texts, 10 is below 9. -/
theorem ten_not_above_nine :
    rangeHolds .gt 10 9 = some true ∧
      evaluatePredicate (some (toString (10 : Int))) .gt (toString (9 : Int)) = false := by
  decide

end Nendi.Verified
