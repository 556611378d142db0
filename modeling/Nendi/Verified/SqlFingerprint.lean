import Mathlib.Data.Nat.Bitwise
import Nendi.Pgsql.SqlFunctions

/-! # The fingerprint function of the database

`nendi_schema_fingerprint` is meant as the FNV-1a hash of the columns, which needs a product
that wraps.  The product of `bigint` does not wrap: already the first character of the first
column takes it out of range, so the function returns for a table without columns only. -/

namespace Nendi.Verified

open Nendi.Pgsql

theorem offset_xor_lt {code : Nat} (small : code < 2 ^ 21) :
    (sqlFnvOffset ^^^ Int64.ofNat code).toInt < -2 ^ 61 := by
  -- a code point does not reach the leading bits of the offset
  have bits : (sqlFnvOffset ^^^ Int64.ofNat code).toBitVec.toNat = 14695981039346656037 ^^^ code := by
    rw [Int64.toBitVec_xor, BitVec.toNat_xor]
    congr 1
    simp only [Int64.toBitVec_ofNat', BitVec.toNat_ofNat]
    omega
  have leading : (14695981039346656037 ^^^ code) / 2 ^ 21 = 14695981039346656037 / 2 ^ 21 := by
    simp only [← Nat.shiftRight_eq_div_pow, Nat.shiftRight_xor_distrib]
    rw [Nat.shiftRight_eq_div_pow code, Nat.div_eq_of_lt small, Nat.xor_zero]
  rw [← Int64.toInt_toBitVec, BitVec.toInt_eq_toNat_cond, bits]
  omega

theorem char_toNat_lt (character : Char) : character.toNat < 2 ^ 21 := by
  have valid : character.toNat < 0xd800 ∨ 0xdfff < character.toNat ∧ character.toNat < 0x110000 := character.valid
  omega

theorem first_character_out_of_range (character : Char) :
    hashCharacter sqlFnvOffset character = .error .bigintOutOfRange := by
  have negative := offset_xor_lt (char_toNat_lt character)
  have prime : sqlFnvPrime.toInt = 1099511628211 := by decide
  have lowest : Int64.minValue.toInt = -2 ^ 63 := by decide
  rw [hashCharacter, bigintMul, if_neg]
  rw [prime, lowest]
  omega

theorem first_column_out_of_range (col : CatalogColumn) :
    hashColumn sqlFnvOffset col = .error .bigintOutOfRange := by
  -- the text of a column is not empty, whatever its name: there are the two colons
  rw [hashColumn]
  cases text : (col.columnName ++ ":" ++ col.udtName ++ ":" ++ col.isNullable).toList with
  | nil => simp at text
  | cons character rest =>
    rw [List.foldlM_cons, first_character_out_of_range]
    rfl

/-- The function raises an error for every table that has a column. -/
theorem sql_fingerprint_fails_on_columns (columns : List CatalogColumn) :
    nendiSchemaFingerprint columns = if columns = [] then .ok sqlFnvOffset else .error .bigintOutOfRange := by
  cases columns with
  | nil => rfl
  | cons col rest =>
    rw [nendiSchemaFingerprint, List.foldlM_cons, first_column_out_of_range, if_neg (List.cons_ne_nil _ _)]
    rfl

end Nendi.Verified
