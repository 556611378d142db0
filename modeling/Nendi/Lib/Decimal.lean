import Nendi.Lib.BigEndian
import Nendi.Lib.Text

/-! # Decimal texts

Natural numbers in decimal, compared bytewise.  Texts of one length are in numeric
order; of two lengths, the shorter text is compared with as many leading digits
of the longer one (`decimalBytes_lt_longer`, `decimalBytes_lt_shorter`).
-/

namespace Nendi.Lib

def decimalBytes (number : Nat) : List UInt8 := utf8Bytes number.repr

theorem decimalBytes_injective {first second : Nat} (same : decimalBytes first = decimalBytes second) :
    first = second := by
  have digits := congrArg String.toList (utf8Bytes_injective same)
  rw [Nat.toList_repr, Nat.toList_repr] at digits
  have values := congrArg (Nat.ofDigitChars 10 · 0) digits
  simpa only [Nat.ofDigitChars_ten_toDigits] using values

def digitCount (number : Nat) : Nat := (Nat.toDigits 10 number).length

def digitByte (digit : Nat) : UInt8 := UInt8.ofNat (48 + digit)

theorem utf8Bytes_digitChar {digit : Nat} (bound : digit < 10) :
    utf8Bytes (String.ofList [digit.digitChar]) = [digitByte digit] := by
  have all : ∀ digit : Fin 10, utf8Bytes (String.ofList [digit.val.digitChar]) = [digitByte digit] := by
    decide
  exact all ⟨digit, bound⟩

theorem digitByte_lt_iff {first second : Nat} (firstBound : first < 10) (secondBound : second < 10) :
    digitByte first < digitByte second ↔ first < second := by
  rw [UInt8.lt_iff_toNat_lt]
  simp only [digitByte, UInt8.toNat_ofNat']
  omega

/-! ## The last digit -/

theorem decimalBytes_of_lt {number : Nat} (small : number < 10) : decimalBytes number = [digitByte number] := by
  rw [decimalBytes, Nat.repr_eq_ofList_toDigits, Nat.toDigits_of_lt_base small, utf8Bytes_digitChar small]

theorem decimalBytes_of_le {number : Nat} (large : 10 ≤ number) :
    decimalBytes number = decimalBytes (number / 10) ++ [digitByte (number % 10)] := by
  have lastBound : number % 10 < 10 := Nat.mod_lt _ (by omega)
  simp only [decimalBytes, Nat.repr_eq_ofList_toDigits]
  rw [Nat.toDigits_of_base_le (by omega) large, String.ofList_append, utf8Bytes_append,
    utf8Bytes_digitChar lastBound]

theorem digitCount_of_lt {number : Nat} (small : number < 10) : digitCount number = 1 := by
  simp [digitCount, Nat.toDigits_of_lt_base small]

theorem digitCount_of_le {number : Nat} (large : 10 ≤ number) :
    digitCount number = digitCount (number / 10) + 1 := by
  simp [digitCount, Nat.toDigits_of_base_le (by omega) large]

theorem digitCount_pos (number : Nat) : 0 < digitCount number := Nat.length_toDigits_pos

theorem one_lt_digitCount_iff {number : Nat} : 1 < digitCount number ↔ 10 ≤ number := by
  by_cases small : number < 10
  · rw [digitCount_of_lt small]
    omega
  · have large : 10 ≤ number := Nat.le_of_not_lt small
    have front := digitCount_pos (number / 10)
    rw [digitCount_of_le large]
    omega

@[simp] theorem decimalBytes_length (number : Nat) : (decimalBytes number).length = digitCount number := by
  induction number using Nat.strongRecOn with
  | ind number inductionHypothesis =>
    by_cases small : number < 10
    · simp [decimalBytes_of_lt small, digitCount_of_lt small]
    · have large : 10 ≤ number := Nat.le_of_not_lt small
      simp [decimalBytes_of_le large, digitCount_of_le large, inductionHypothesis (number / 10) (by omega)]

theorem decimalBytes_head (number : Nat) :
    ∃ digit rest, digit < 10 ∧ decimalBytes number = digitByte digit :: rest := by
  induction number using Nat.strongRecOn with
  | ind number inductionHypothesis =>
    by_cases small : number < 10
    · exact ⟨number, [], small, decimalBytes_of_lt small⟩
    · have large : 10 ≤ number := Nat.le_of_not_lt small
      obtain ⟨digit, rest, bound, front⟩ := inductionHypothesis (number / 10) (by omega)
      refine ⟨digit, rest ++ [digitByte (number % 10)], bound, ?_⟩
      rw [decimalBytes_of_le large, front, List.cons_append]

theorem lt_of_digitCount_lt {first second : Nat} (fewer : digitCount first < digitCount second) :
    first < second := by
  have bound := (Nat.length_toDigits_le_iff (by omega) (digitCount_pos first)).mp (Nat.le_refl (digitCount first))
  have beyond := mt (Nat.length_toDigits_le_iff (by omega) (digitCount_pos first)).mpr (Nat.not_le.mpr fewer)
  omega

/-! ## Order -/

theorem decimalBytes_lt_iff {first second : Nat} (sameCount : digitCount first = digitCount second) :
    decimalBytes first < decimalBytes second ↔ first < second := by
  induction first using Nat.strongRecOn generalizing second with
  | ind first inductionHypothesis =>
    have bothLarge : 10 ≤ first ↔ 10 ≤ second := by
      rw [← one_lt_digitCount_iff, ← one_lt_digitCount_iff, sameCount]
    by_cases small : first < 10
    · have secondSmall : second < 10 := by omega
      rw [decimalBytes_of_lt small, decimalBytes_of_lt secondSmall, List.cons_lt_cons_iff,
        digitByte_lt_iff small secondSmall]
      simp
    · have large : 10 ≤ first := Nat.le_of_not_lt small
      have secondLarge : 10 ≤ second := bothLarge.mp large
      rw [digitCount_of_le large, digitCount_of_le secondLarge, Nat.add_right_cancel_iff] at sameCount
      -- without their last digits the numbers are compared by induction, and those digits decide a tie
      have front := inductionHypothesis (first / 10) (by omega) sameCount
      have back := digitByte_lt_iff (Nat.mod_lt first (by omega : 10 > 0)) (Nat.mod_lt second (by omega : 10 > 0))
      have sameFront : decimalBytes (first / 10) = decimalBytes (second / 10) ↔ first / 10 = second / 10 :=
        ⟨decimalBytes_injective, congrArg decimalBytes⟩
      rw [decimalBytes_of_le large, decimalBytes_of_le secondLarge, prefix_lt_iff (by simpa using sameCount),
        front, sameFront, List.cons_lt_cons_iff, back]
      simp only [List.lt_irrefl, and_false, or_false]
      omega

theorem decimalBytes_split {number dropped : Nat} (longer : dropped < digitCount number) :
    ∃ rest, rest.length = dropped ∧ decimalBytes number = decimalBytes (number / 10 ^ dropped) ++ rest := by
  induction dropped with
  | zero => exact ⟨[], rfl, by simp⟩
  | succ dropped inductionHypothesis =>
    obtain ⟨rest, restLength, split⟩ := inductionHypothesis (by omega)
    have lengths := congrArg List.length split
    rw [List.length_append, decimalBytes_length, decimalBytes_length, restLength] at lengths
    -- more than one digit is left, so one more can be taken away
    have large : 10 ≤ number / 10 ^ dropped := one_lt_digitCount_iff.mp (by omega)
    refine ⟨digitByte (number / 10 ^ dropped % 10) :: rest, by simp [restLength], ?_⟩
    rw [split, decimalBytes_of_le large, Nat.div_div_eq_div_mul, ← Nat.pow_succ]
    simp

theorem decimalBytes_lt_longer {first second : Nat} (fewer : digitCount first < digitCount second) :
    decimalBytes first < decimalBytes second ↔
      first ≤ second / 10 ^ (digitCount second - digitCount first) := by
  have positive := digitCount_pos first
  obtain ⟨rest, restLength, split⟩ := decimalBytes_split
    (show digitCount second - digitCount first < digitCount second by omega)
  have lengths := congrArg List.length split
  rw [List.length_append, decimalBytes_length, decimalBytes_length, restLength] at lengths
  have sameCount : digitCount first = digitCount (second / 10 ^ (digitCount second - digitCount first)) := by
    omega
  have nonempty : [] < rest := by
    cases rest with
    | nil =>
      simp only [List.length_nil] at restLength
      omega
    | cons byte rest => exact List.nil_lt_cons byte rest
  have sameLength : (decimalBytes first).length =
      (decimalBytes (second / 10 ^ (digitCount second - digitCount first))).length := by
    simpa using sameCount
  have compared := prefix_lt_iff sameLength [] rest
  rw [List.append_nil, ← split, decimalBytes_lt_iff sameCount] at compared
  rw [compared]
  constructor
  · rintro (less | ⟨same, -⟩)
    · omega
    · exact (decimalBytes_injective same).le
  · intro atMost
    rcases Nat.lt_or_eq_of_le atMost with less | same
    · exact .inl less
    · exact .inr ⟨congrArg decimalBytes same, nonempty⟩

theorem decimalBytes_lt_shorter {first second : Nat} (more : digitCount second < digitCount first) :
    decimalBytes first < decimalBytes second ↔
      first / 10 ^ (digitCount first - digitCount second) < second := by
  have different : decimalBytes first ≠ decimalBytes second := by
    intro same
    rw [decimalBytes_injective same] at more
    omega
  have longer := (decimalBytes_lt_longer more).not
  rw [not_lt, not_le, le_iff_lt_or_eq, or_iff_left different] at longer
  exact longer

end Nendi.Lib
