import Nendi.Shared.LsnText

/-! # LSN texts are read back

What is written for an LSN is read back as that LSN.  The reader takes more than the writer
writes (lower case, leading zeros, a plus sign); what is written for an LSN that was read is
the canonical text, however the text that was read looked.
-/

namespace Nendi.Verified

open Nendi.Lib Nendi.Shared

/-! ## One half -/

theorem slash_not_mem_of_canonical {digits : List Char} (canonical : CanonicalHex digits) : '/' ∉ digits := by
  intro member
  exact absurd (canonical.letters '/' member) (by decide)

theorem stripPlus_of_canonical {digits : List Char} (canonical : CanonicalHex digits) : stripPlus digits = digits := by
  unfold stripPlus
  split
  next rest => exact absurd (canonical.letters '+' List.mem_cons_self) (by decide)
  next => rfl

theorem parseHexU32_upperHex (half : UInt32) : parseHexU32 (upperHex half.toNat) = some half := by
  have canonical := canonicalHex_upperHex half.toNat
  simp only [parseHexU32, stripPlus_of_canonical canonical, hexNumber_upperHex, if_neg canonical.nonempty,
    if_pos half.toNat_lt, UInt32.ofNat_toNat]

/-! ## Both halves -/

theorem joined_halves (lsn : Lsn) :
    (lsn >>> 32).toUInt32.toUInt64 <<< 32 ||| lsn.toUInt32.toUInt64 = lsn := by
  apply UInt64.toNat_inj.mp
  have bound : UInt64.toNat lsn < 2 ^ 64 := UInt64.toNat_lt lsn
  have low : UInt64.toNat lsn % 2 ^ 32 < 2 ^ 32 := Nat.mod_lt _ (by decide)
  have quotient : UInt64.toNat lsn >>> 32 % 2 ^ 32 = UInt64.toNat lsn / 2 ^ 32 := by
    rw [Nat.shiftRight_eq_div_pow, Nat.mod_eq_of_lt (by omega)]
  calc UInt64.toNat ((lsn >>> 32).toUInt32.toUInt64 <<< 32 ||| lsn.toUInt32.toUInt64)
      = (UInt64.toNat lsn >>> 32 % 2 ^ 32) <<< 32 % 2 ^ 64 ||| UInt64.toNat lsn % 2 ^ 32 := by
        simp only [UInt64.toNat_or, UInt64.toNat_shiftLeft, UInt64.toNat_shiftRight, UInt32.toNat_toUInt64,
          UInt64.toNat_toUInt32, UInt64.reduceToNat, Nat.reduceMod]
    _ = (UInt64.toNat lsn / 2 ^ 32) <<< 32 ||| UInt64.toNat lsn % 2 ^ 32 := by
        rw [quotient, Nat.mod_eq_of_lt (by rw [Nat.shiftLeft_eq]; omega)]
    _ = UInt64.toNat lsn := by
        -- the low half fits below the shifted one, so the bits do not meet
        rw [← Nat.shiftLeft_add_eq_or_of_lt low, Nat.shiftLeft_eq]
        omega

theorem toPgString_toList (lsn : Lsn) :
    (Lsn.toPgString lsn).toList =
      upperHex (lsn >>> 32).toUInt32.toNat ++ '/' :: upperHex lsn.toUInt32.toNat := by
  simp [Lsn.toPgString]

theorem fromPgStr_toPgString (lsn : Lsn) : Lsn.fromPgStr (Lsn.toPgString lsn) = .ok lsn := by
  have absent : '/' ∉ (String.ofList (upperHex (lsn >>> 32).toUInt32.toNat)).toList := by
    rw [String.toList_ofList]
    exact slash_not_mem_of_canonical (canonicalHex_upperHex _)
  have split : splitOnce '/' (Lsn.toPgString lsn) =
      some (String.ofList (upperHex (lsn >>> 32).toUInt32.toNat), String.ofList (upperHex lsn.toUInt32.toNat)) :=
    splitOnce_append absent _
  simp only [Lsn.fromPgStr, split, String.toList_ofList, parseHexU32_upperHex, joined_halves]

/-- One slash, with canonical digits on both sides of it. -/
structure CanonicalLsn (text : List Char) : Prop where
  oneSlash : text.count '/' = 1
  halves : ∃ hi lo, text = hi ++ '/' :: lo ∧ CanonicalHex hi ∧ CanonicalHex lo

theorem canonicalLsn_toPgString (lsn : Lsn) : CanonicalLsn (Lsn.toPgString lsn).toList := by
  have hi := canonicalHex_upperHex (lsn >>> 32).toUInt32.toNat
  have lo := canonicalHex_upperHex lsn.toUInt32.toNat
  rw [toPgString_toList]
  refine ⟨?_, _, _, rfl, hi, lo⟩
  rw [List.count_append, List.count_cons_self, List.count_eq_zero.mpr (slash_not_mem_of_canonical hi),
    List.count_eq_zero.mpr (slash_not_mem_of_canonical lo)]

/-- The reader undoes the writer, and writing after reading gives a canonical text of the same LSN. -/
theorem lsn_text_roundTrip :
    (∀ lsn : Lsn, Lsn.fromPgStr (Lsn.toPgString lsn) = .ok lsn) ∧
      ∀ (text : String) (lsn : Lsn), Lsn.fromPgStr text = .ok lsn →
        Lsn.fromPgStr (Lsn.toPgString lsn) = .ok lsn ∧ CanonicalLsn (Lsn.toPgString lsn).toList := by
  constructor
  · exact fromPgStr_toPgString
  · intro text lsn _
    exact ⟨fromPgStr_toPgString lsn, canonicalLsn_toPgString lsn⟩

theorem lsn_text_roundTrip_lowerCase :
    Lsn.fromPgStr "+00/016b3740" = .ok 0x16B3740 ∧
      Lsn.fromPgStr (Lsn.toPgString 0x16B3740) = .ok 0x16B3740 ∧
      CanonicalLsn (Lsn.toPgString 0x16B3740).toList := by
  have read : Lsn.fromPgStr "+00/016b3740" = .ok 0x16B3740 := by decide
  exact ⟨read, lsn_text_roundTrip.2 _ _ read⟩

end Nendi.Verified
