import Mathlib.Data.List.Lex
import Mathlib.Order.Basic
import Mathlib.Tactic.Ring
import Mathlib.Tactic.NormNum

/-! # Big-endian byte strings

A fixed-width natural number becomes a byte string with its most significant
byte first.  The two facts the layout is chosen for are proved here:

* `beNat_beBytes` — reading back what was written is reduction modulo the width;
* `beBytes_lt_iff` — on numbers that fit the width, bytewise lexicographic order
  is numeric order.

`prefix_lt_iff` and `append_lt_iff` say how the lexicographic order treats a
key that is a fixed-width field followed by more bytes.  The last section
specialises both directions to the machine integers.
-/

namespace Nendi.Lib

/-! ## Machine integers as linear orders -/

instance instLinearOrderUInt8 : LinearOrder UInt8 where
  le_refl _ := UInt8.le_refl _
  le_trans _ _ _ := UInt8.le_trans
  lt_iff_le_not_ge _ _ := by
    simp only [UInt8.le_iff_toNat_le, UInt8.lt_iff_toNat_lt]
    omega
  le_antisymm _ _ := UInt8.le_antisymm
  le_total _ _ := UInt8.le_total _ _
  toDecidableLE := inferInstance
  toDecidableEq := inferInstance
  toDecidableLT := inferInstance

instance instLinearOrderUInt32 : LinearOrder UInt32 where
  le_refl _ := UInt32.le_refl _
  le_trans _ _ _ := UInt32.le_trans
  lt_iff_le_not_ge _ _ := by
    simp only [UInt32.le_iff_toNat_le, UInt32.lt_iff_toNat_lt]
    omega
  le_antisymm _ _ := UInt32.le_antisymm
  le_total _ _ := UInt32.le_total _ _
  toDecidableLE := inferInstance
  toDecidableEq := inferInstance
  toDecidableLT := inferInstance

instance instLinearOrderUInt64 : LinearOrder UInt64 where
  le_refl _ := UInt64.le_refl _
  le_trans _ _ _ := UInt64.le_trans
  lt_iff_le_not_ge _ _ := by
    simp only [UInt64.le_iff_toNat_le, UInt64.lt_iff_toNat_lt]
    omega
  le_antisymm _ _ := UInt64.le_antisymm
  le_total _ _ := UInt64.le_total _ _
  toDecidableLE := inferInstance
  toDecidableEq := inferInstance
  toDecidableLT := inferInstance

/-! ## Writing and reading -/

/-- The low `width` bytes of `value`, most significant first. -/
def beBytes : Nat → Nat → List UInt8
  | 0, _ => []
  | width + 1, value => UInt8.ofNat (value / 256 ^ width) :: beBytes width value

def beNat : List UInt8 → Nat
  | [] => 0
  | byte :: bytes => byte.toNat * 256 ^ bytes.length + beNat bytes

@[simp] theorem beBytes_length (width value : Nat) : (beBytes width value).length = width := by
  induction width with
  | zero => rfl
  | succ width inductionHypothesis => simp [beBytes, inductionHypothesis]

theorem beNat_lt (bytes : List UInt8) : beNat bytes < 256 ^ bytes.length := by
  induction bytes with
  | nil => simp [beNat]
  | cons byte bytes inductionHypothesis =>
    have byteBound : byte.toNat + 1 ≤ 256 := byte.toNat_lt
    calc beNat (byte :: bytes)
        < byte.toNat * 256 ^ bytes.length + 256 ^ bytes.length := by
          simp only [beNat]; omega
      _ = (byte.toNat + 1) * 256 ^ bytes.length := by ring
      _ ≤ 256 * 256 ^ bytes.length := Nat.mul_le_mul_right _ byteBound
      _ = 256 ^ (byte :: bytes).length := by rw [List.length_cons, pow_succ]; ring

theorem beNat_beBytes (width value : Nat) : beNat (beBytes width value) = value % 256 ^ width := by
  induction width with
  | zero => simp [beBytes, beNat, Nat.mod_one]
  | succ width inductionHypothesis =>
    have leading : (UInt8.ofNat (value / 256 ^ width)).toNat = value / 256 ^ width % 256 := by simp
    rw [beBytes, beNat, beBytes_length, inductionHypothesis, leading, pow_succ 256 width,
      Nat.mod_mul]
    ring

theorem beNat_beBytes_of_lt {width value : Nat} (bound : value < 256 ^ width) :
    beNat (beBytes width value) = value := by
  rw [beNat_beBytes, Nat.mod_eq_of_lt bound]

/-! ## Order -/

theorem digit_lt_iff {scale first second low high : Nat} (lowBound : low < scale)
    (highBound : high < scale) :
    first * scale + low < second * scale + high ↔
      first < second ∨ first = second ∧ low < high := by
  rcases lt_trichotomy first second with less | equal | greater
  · have step : (first + 1) * scale ≤ second * scale := Nat.mul_le_mul_right _ less
    rw [Nat.succ_mul] at step
    constructor
    · intro _; exact .inl less
    · intro _; omega
  · subst equal
    simp
  · have step : (second + 1) * scale ≤ first * scale := Nat.mul_le_mul_right _ greater
    rw [Nat.succ_mul] at step
    constructor
    · intro _; omega
    · intro claim; omega

/-- On byte strings of one length, bytewise order is numeric order. -/
theorem lt_iff_beNat_lt : ∀ {first second : List UInt8}, first.length = second.length →
    (first < second ↔ beNat first < beNat second)
  | [], [], _ => by simp [beNat]
  | x :: xs, y :: ys, sameLength => by
    have tailLength : xs.length = ys.length := by simpa using sameLength
    have tailBound := beNat_lt xs
    rw [tailLength] at tailBound
    rw [List.cons_lt_cons_iff, lt_iff_beNat_lt tailLength]
    simp only [beNat, tailLength]
    rw [digit_lt_iff tailBound (beNat_lt ys), UInt8.lt_iff_toNat_lt, UInt8.toNat_inj]

theorem eq_of_beNat_eq {first second : List UInt8} (sameLength : first.length = second.length)
    (same : beNat first = beNat second) : first = second := by
  apply le_antisymm
  · exact not_lt.mp fun less => absurd ((lt_iff_beNat_lt sameLength.symm).mp less) (by omega)
  · exact not_lt.mp fun less => absurd ((lt_iff_beNat_lt sameLength).mp less) (by omega)

theorem beBytes_lt_iff {width first second : Nat} (firstBound : first < 256 ^ width)
    (secondBound : second < 256 ^ width) :
    beBytes width first < beBytes width second ↔ first < second := by
  rw [lt_iff_beNat_lt (by simp), beNat_beBytes_of_lt firstBound, beNat_beBytes_of_lt secondBound]

theorem prefix_lt_iff {first second : List UInt8} (sameLength : first.length = second.length)
    (firstRest secondRest : List UInt8) :
    first ++ firstRest < second ++ secondRest ↔
      first < second ∨ first = second ∧ firstRest < secondRest := by
  induction first generalizing second with
  | nil =>
    cases second with
    | nil => simp
    | cons _ _ => simp at sameLength
  | cons x xs inductionHypothesis =>
    cases second with
    | nil => simp at sameLength
    | cons y ys =>
      have tailLength : xs.length = ys.length := by simpa using sameLength
      simp only [List.cons_append, List.cons_lt_cons_iff, inductionHypothesis tailLength,
        List.cons.injEq]
      tauto

theorem append_lt_iff {field start : List UInt8} (sameLength : field.length = start.length)
    (rest : List UInt8) : field ++ rest < start ↔ field < start := by
  have split := prefix_lt_iff sameLength rest []
  simpa using split

end Nendi.Lib

/-! ## Machine integers -/

open Nendi.Lib

def UInt16.toBeBytes (value : UInt16) : List UInt8 := beBytes 2 value.toNat

def UInt16.ofBeBytes (bytes : List UInt8) : UInt16 := UInt16.ofNat (beNat bytes)

def UInt32.toBeBytes (value : UInt32) : List UInt8 := beBytes 4 value.toNat

def UInt32.ofBeBytes (bytes : List UInt8) : UInt32 := UInt32.ofNat (beNat bytes)

def UInt64.toBeBytes (value : UInt64) : List UInt8 := beBytes 8 value.toNat

def UInt64.ofBeBytes (bytes : List UInt8) : UInt64 := UInt64.ofNat (beNat bytes)

/-- A signed integer is written as its two's complement bit pattern. -/
def Int64.toBeBytes (value : Int64) : List UInt8 := value.toUInt64.toBeBytes

def Int64.ofBeBytes (bytes : List UInt8) : Int64 := (UInt64.ofBeBytes bytes).toInt64

@[simp] theorem UInt16.toBeBytes_length (value : UInt16) : value.toBeBytes.length = 2 :=
  beBytes_length 2 _

@[simp] theorem UInt32.toBeBytes_length (value : UInt32) : value.toBeBytes.length = 4 :=
  beBytes_length 4 _

@[simp] theorem UInt64.toBeBytes_length (value : UInt64) : value.toBeBytes.length = 8 :=
  beBytes_length 8 _

@[simp] theorem Int64.toBeBytes_length (value : Int64) : value.toBeBytes.length = 8 :=
  beBytes_length 8 _

@[simp] theorem UInt16.ofBeBytes_toBeBytes (value : UInt16) :
    UInt16.ofBeBytes value.toBeBytes = value := by
  rw [UInt16.ofBeBytes, UInt16.toBeBytes, beNat_beBytes_of_lt (by simpa using value.toNat_lt)]
  exact UInt16.ofNat_toNat

@[simp] theorem UInt32.ofBeBytes_toBeBytes (value : UInt32) :
    UInt32.ofBeBytes value.toBeBytes = value := by
  rw [UInt32.ofBeBytes, UInt32.toBeBytes, beNat_beBytes_of_lt (by simpa using value.toNat_lt)]
  exact UInt32.ofNat_toNat

@[simp] theorem UInt64.ofBeBytes_toBeBytes (value : UInt64) :
    UInt64.ofBeBytes value.toBeBytes = value := by
  rw [UInt64.ofBeBytes, UInt64.toBeBytes, beNat_beBytes_of_lt (by simpa using value.toNat_lt)]
  exact UInt64.ofNat_toNat

@[simp] theorem Int64.ofBeBytes_toBeBytes (value : Int64) :
    Int64.ofBeBytes value.toBeBytes = value := by
  rw [Int64.ofBeBytes, Int64.toBeBytes, UInt64.ofBeBytes_toBeBytes]
  exact Int64.toInt64_toUInt64 value

theorem UInt16.toNat_ofBeBytes {bytes : List UInt8} (length : bytes.length = 2) :
    (UInt16.ofBeBytes bytes).toNat = beNat bytes := by
  have bound := beNat_lt bytes
  rw [length] at bound
  exact UInt16.toNat_ofNat_of_lt' bound

theorem UInt32.toNat_ofBeBytes {bytes : List UInt8} (length : bytes.length = 4) :
    (UInt32.ofBeBytes bytes).toNat = beNat bytes := by
  have bound := beNat_lt bytes
  rw [length] at bound
  exact UInt32.toNat_ofNat_of_lt' bound

theorem UInt64.toNat_ofBeBytes {bytes : List UInt8} (length : bytes.length = 8) :
    (UInt64.ofBeBytes bytes).toNat = beNat bytes := by
  have bound := beNat_lt bytes
  rw [length] at bound
  exact UInt64.toNat_ofNat_of_lt' bound

theorem UInt16.toBeBytes_ofBeBytes {bytes : List UInt8} (length : bytes.length = 2) :
    (UInt16.ofBeBytes bytes).toBeBytes = bytes := by
  apply eq_of_beNat_eq (by rw [UInt16.toBeBytes_length, length])
  rw [UInt16.toBeBytes, UInt16.toNat_ofBeBytes length, ← length, beNat_beBytes_of_lt (beNat_lt bytes)]

theorem UInt32.toBeBytes_ofBeBytes {bytes : List UInt8} (length : bytes.length = 4) :
    (UInt32.ofBeBytes bytes).toBeBytes = bytes := by
  apply eq_of_beNat_eq (by rw [UInt32.toBeBytes_length, length])
  rw [UInt32.toBeBytes, UInt32.toNat_ofBeBytes length, ← length, beNat_beBytes_of_lt (beNat_lt bytes)]

theorem UInt64.toBeBytes_ofBeBytes {bytes : List UInt8} (length : bytes.length = 8) :
    (UInt64.ofBeBytes bytes).toBeBytes = bytes := by
  apply eq_of_beNat_eq (by rw [UInt64.toBeBytes_length, length])
  rw [UInt64.toBeBytes, UInt64.toNat_ofBeBytes length, ← length, beNat_beBytes_of_lt (beNat_lt bytes)]

theorem Int64.toBeBytes_ofBeBytes {bytes : List UInt8} (length : bytes.length = 8) :
    (Int64.ofBeBytes bytes).toBeBytes = bytes := by
  rw [Int64.toBeBytes, Int64.ofBeBytes, UInt64.toUInt64_toInt64]
  exact UInt64.toBeBytes_ofBeBytes length

theorem UInt64.toBeBytes_lt_iff (first second : UInt64) :
    first.toBeBytes < second.toBeBytes ↔ first < second :=
  beBytes_lt_iff (by simpa using first.toNat_lt) (by simpa using second.toNat_lt)

theorem UInt32.toBeBytes_lt_iff (first second : UInt32) :
    first.toBeBytes < second.toBeBytes ↔ first < second :=
  beBytes_lt_iff (by simpa using first.toNat_lt) (by simpa using second.toNat_lt)
