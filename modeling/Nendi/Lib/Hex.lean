import Nendi.Lib.Text

/-! # Hexadecimal texts

Numbers in base sixteen without padding, in lower case (`{:x}`) and in upper case
(`{:X}`), and their reader, which takes both.  `hexNumber_hex` and
`hexNumber_upperHex` say that what is written is read back; `CanonicalHex` is what the
upper-case texts look like.
-/

namespace Nendi.Lib

/-- `char::to_digit(16)`. -/
def hexValue (letter : Char) : Option Nat :=
  let code := letter.toNat
  if 48 ≤ code ∧ code ≤ 57 then some (code - 48)
  else if 65 ≤ code ∧ code ≤ 70 then some (code - 55)
  else if 97 ≤ code ∧ code ≤ 102 then some (code - 87)
  else none

def hexNumber (digits : List Char) : Option Nat :=
  digits.foldlM (fun value letter => (hexValue letter).map (16 * value + ·)) 0

/-- `{:x}`. -/
def hex (number : Nat) : List Char := Nat.toDigits 16 number

/-- `{:X}`. -/
def upperHex (number : Nat) : List Char := (Nat.toDigits 16 number).map Char.toUpper

/-- `u32::from_str_radix(text, 16)`. -/
def parseHexU32 (text : List Char) : Option UInt32 :=
  let digits := stripPlus text
  if digits = [] then none
  else
    match hexNumber digits with
    | some value => if value < 2 ^ 32 then some (UInt32.ofNat value) else none
    | none => none

/-! ## Reading back -/

theorem hexNumber_concat (digits : List Char) (letter : Char) :
    hexNumber (digits ++ [letter]) =
      (hexNumber digits).bind fun value => (hexValue letter).map (16 * value + ·) := by
  simp [hexNumber, List.foldlM_append]

theorem hexNumber_map {letterOf : Char → Char}
    (reads : ∀ digit < 16, hexValue (letterOf digit.digitChar) = some digit) (number : Nat) :
    hexNumber ((Nat.toDigits 16 number).map letterOf) = some number := by
  induction number using Nat.strongRecOn with
  | ind number inductionHypothesis =>
    by_cases small : number < 16
    · rw [Nat.toDigits_of_lt_base small]
      simp [hexNumber, reads number small]
    · have large : 16 ≤ number := Nat.le_of_not_lt small
      have front := inductionHypothesis (number / 16) (by omega)
      have last := reads (number % 16) (by omega)
      rw [Nat.toDigits_of_base_le (by omega) large, List.map_append, List.map_singleton, hexNumber_concat, front]
      simp only [last, Option.bind_some, Option.map_some, Option.some.injEq]
      omega

theorem hexValue_digitChar : ∀ digit < 16, hexValue digit.digitChar = some digit := by decide

theorem hexValue_toUpper_digitChar : ∀ digit < 16, hexValue digit.digitChar.toUpper = some digit := by decide

theorem hexNumber_hex (number : Nat) : hexNumber (hex number) = some number := by
  have read := @hexNumber_map id hexValue_digitChar number
  rwa [List.map_id] at read

theorem hexNumber_upperHex (number : Nat) : hexNumber (upperHex number) = some number :=
  hexNumber_map hexValue_toUpper_digitChar number

/-! ## What is written -/

/-- Upper-case digits, at least one, and no zero in front of others. -/
structure CanonicalHex (digits : List Char) : Prop where
  nonempty : digits ≠ []
  letters : ∀ letter ∈ digits, letter ∈ "0123456789ABCDEF".toList
  noLeadingZero : digits.head? = some '0' → digits = ['0']

theorem upperHex_of_lt {number : Nat} (small : number < 16) : upperHex number = [number.digitChar.toUpper] := by
  rw [upperHex, Nat.toDigits_of_lt_base small, List.map_singleton]

theorem upperHex_of_le {number : Nat} (large : 16 ≤ number) :
    upperHex number = upperHex (number / 16) ++ [(number % 16).digitChar.toUpper] := by
  rw [upperHex, Nat.toDigits_of_base_le (by omega) large, List.map_append, List.map_singleton, upperHex]

theorem toUpper_digitChar_mem : ∀ digit < 16, digit.digitChar.toUpper ∈ "0123456789ABCDEF".toList := by decide

theorem canonicalHex_upperHex (number : Nat) : CanonicalHex (upperHex number) := by
  induction number using Nat.strongRecOn with
  | ind number inductionHypothesis =>
    by_cases small : number < 16
    · rw [upperHex_of_lt small]
      refine ⟨List.cons_ne_nil _ _, ?_, ?_⟩
      · intro letter member
        rw [List.mem_singleton.mp member]
        exact toUpper_digitChar_mem number small
      · intro zero
        rw [List.head?_cons, Option.some.injEq] at zero
        rw [zero]
    · have large : 16 ≤ number := Nat.le_of_not_lt small
      obtain ⟨nonempty, letters, noLeadingZero⟩ := inductionHypothesis (number / 16) (by omega)
      rw [upperHex_of_le large]
      refine ⟨by simp, ?_, ?_⟩
      · intro letter member
        obtain front | last := List.mem_append.mp member
        · exact letters letter front
        · rw [List.mem_singleton.mp last]
          exact toUpper_digitChar_mem (number % 16) (by omega)
      · -- the quotient is not zero, so its text does not begin with one
        intro zero
        rw [List.head?_append_of_ne_nil _ nonempty] at zero
        have quotient := hexNumber_upperHex (number / 16)
        rw [noLeadingZero zero] at quotient
        have zeroQuotient : 0 = number / 16 := Option.some.inj quotient
        omega

end Nendi.Lib
