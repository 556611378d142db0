import Mathlib.Data.List.Basic

/-! # The 64-bit FNV-1a hash

Each byte is mixed in by an exclusive or and a multiplication with an odd number,
both of which can be undone.  A step therefore loses nothing: it tells apart any two
states, and any two bytes (`fnvStep_hash_inj`, `fnvStep_byte_inj`), and a message in
which one byte is replaced gets a different hash (`fnvFrom_replace_ne`). -/

namespace Nendi.Lib

def fnvOffset : UInt64 := 0xcbf29ce484222325

def fnvPrime : UInt64 := 0x100000001b3

def fnvStep (hash : UInt64) (byte : UInt8) : UInt64 := (hash ^^^ byte.toUInt64) * fnvPrime

def fnvFrom (hash : UInt64) (bytes : List UInt8) : UInt64 := bytes.foldl fnvStep hash

@[simp] theorem fnvFrom_cons (hash : UInt64) (byte : UInt8) (bytes : List UInt8) :
    fnvFrom hash (byte :: bytes) = fnvFrom (fnvStep hash byte) bytes := rfl

@[simp] theorem fnvFrom_append (hash : UInt64) (first second : List UInt8) :
    fnvFrom hash (first ++ second) = fnvFrom (fnvFrom hash first) second := List.foldl_append

theorem mul_fnvPrime_cancel {first second : UInt64} (equal : first * fnvPrime = second * fnvPrime) :
    first = second := by
  -- the prime is odd, so it has an inverse modulo `2 ^ 64`
  have inverse : fnvPrime * 0xce965057aff6957b = 1 := by decide
  have undone := congrArg (· * 0xce965057aff6957b) equal
  simpa only [UInt64.mul_assoc, inverse, UInt64.mul_one] using undone

theorem fnvStep_hash_inj {first second : UInt64} {byte : UInt8}
    (equal : fnvStep first byte = fnvStep second byte) : first = second :=
  (UInt64.xor_left_inj byte.toUInt64).mp (mul_fnvPrime_cancel equal)

theorem fnvStep_byte_inj {hash : UInt64} {first second : UInt8}
    (equal : fnvStep hash first = fnvStep hash second) : first = second :=
  UInt8.toUInt64_inj.mp ((UInt64.xor_right_inj hash).mp (mul_fnvPrime_cancel equal))

theorem fnvFrom_hash_inj {bytes : List UInt8} {first second : UInt64}
    (equal : fnvFrom first bytes = fnvFrom second bytes) : first = second := by
  induction bytes generalizing first second with
  | nil => exact equal
  | cons byte bytes inductionHypothesis => exact fnvStep_hash_inj (inductionHypothesis equal)

/-- Replacing one byte changes the hash. -/
theorem fnvFrom_replace_ne (hash : UInt64) (before after : List UInt8) {first second : UInt8}
    (different : first ≠ second) :
    fnvFrom hash (before ++ first :: after) ≠ fnvFrom hash (before ++ second :: after) := by
  intro equal
  simp only [fnvFrom_append, fnvFrom_cons] at equal
  -- the steps behind the replaced byte are undone first, then its own
  exact different (fnvStep_byte_inj (fnvFrom_hash_inj equal))

end Nendi.Lib
