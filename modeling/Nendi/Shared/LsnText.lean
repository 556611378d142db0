import Nendi.Lib.Hex
import Nendi.Shared.Event

/-! # Log sequence numbers as text

The two halves of an LSN in hexadecimal with a slash between them, as PostgreSQL writes
and reads them (`shared/src/lsn/types.rs`). -/

namespace Nendi.Shared

open Nendi.Lib

structure LsnParseError where
  text : String
deriving DecidableEq, Repr

namespace Lsn

def fromPgStr (text : String) : Except LsnParseError Lsn :=
  match splitOnce '/' text with
  | none => .error ⟨text⟩
  | some (hi, lo) =>
    match parseHexU32 hi.toList, parseHexU32 lo.toList with
    | some hi, some lo => .ok (hi.toUInt64 <<< 32 ||| lo.toUInt64)
    | _, _ => .error ⟨text⟩

def toPgString (lsn : Lsn) : String :=
  let hi := (lsn >>> 32).toUInt32
  let lo := lsn.toUInt32
  String.ofList (upperHex hi.toNat) ++ "/" ++ String.ofList (upperHex lo.toNat)

end Lsn

end Nendi.Shared
