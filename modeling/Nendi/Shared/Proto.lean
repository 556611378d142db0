import Nendi.Lib.Cursor
import Nendi.Shared.Event

/-! # The storage codec

`encode_event` and `decode_event` of `shared/src/serialize/proto.rs`.  Every
length is narrowed with an unchecked cast, so `encodeEvent` accepts events it
cannot represent; the decoder indexes and slices without checking the length
first, so on a short buffer it panics rather than returning its error. -/

namespace Nendi.Shared

open Nendi.Lib
open Nendi.Lib.CursorM (take takeByte fail position size collect)

/-! ## Encoding -/

def opToByte : OpType → UInt8
  | .insert => 'I'.toUInt8
  | .update => 'U'.toUInt8
  | .delete => 'D'.toUInt8
  | .truncate => 'T'.toUInt8

def byteToOp (byte : UInt8) : Option OpType :=
  if byte = 'I'.toUInt8 then some .insert
  else if byte = 'U'.toUInt8 then some .update
  else if byte = 'D'.toUInt8 then some .delete
  else if byte = 'T'.toUInt8 then some .truncate
  else none

/-- A string behind its length `as u16`. -/
def encodeName (name : String) : List UInt8 :=
  (UInt16.ofNat (utf8Bytes name).length).toBeBytes ++ utf8Bytes name

/-- A string behind its length `as u32`. -/
def encodeText (text : String) : List UInt8 :=
  (UInt32.ofNat (utf8Bytes text).length).toBeBytes ++ utf8Bytes text

def encodeValue : Option String → List UInt8
  | none => [0]
  | some text => 1 :: encodeText text

def encodeColumn (column : ColumnValue) : List UInt8 :=
  encodeName column.name ++ (column.typeOid.toBeBytes ++ encodeValue column.value)

def encodeRowData : Option RowData → List UInt8
  | none => [0]
  | some row =>
    1 :: ((UInt16.ofNat row.columns.length).toBeBytes ++ row.columns.flatMap encodeColumn)

def encodeEvent (event : ChangeEvent) : List UInt8 :=
  event.lsn.toBeBytes ++
  (event.xid.toBeBytes ++
  (opToByte event.op ::
  (encodeName event.table.schema ++
  (encodeName event.table.table ++
  (event.schemaFingerprint.toBeBytes ++
  (event.commitTimestampUs.toBeBytes ++
  (encodeRowData event.after ++
  encodeRowData event.before)))))))

/-! ## Decoding -/

/-- `from_utf8(&data[pos..pos + count]).map_err(|_| message)?`, then `pos += count`. -/
def takeUtf8 (count : Nat) (message : String) : CursorM String String := do
  let bytes ← take count
  match fromUtf8 bytes with
  | some text => pure text
  | none => fail message

def decodeName (message : String) : CursorM String String := do
  let length ← take 2
  takeUtf8 (UInt16.ofBeBytes length).toNat message

def decodeText (message : String) : CursorM String String := do
  let length ← take 4
  takeUtf8 (UInt32.ofBeBytes length).toNat message

def decodeValue : CursorM String (Option String) := do
  let flag ← takeByte
  if flag = 0 then
    pure none
  else do
    let text ← decodeText "invalid utf8 in col value"
    pure (some text)

def decodeColumn : CursorM String ColumnValue := do
  let name ← decodeName "invalid utf8 in col name"
  let typeOid ← take 4
  let value ← decodeValue
  pure { name, typeOid := UInt32.ofBeBytes typeOid, value }

/-- A row image; the cursor it leaves is the `new_pos` the source returns beside it. -/
def decodeRowData : CursorM String (Option RowData) := do
  let pos ← position
  let length ← size
  if pos ≥ length then
    pure none
  else do
    let flag ← takeByte
    if flag = 0 then
      pure none
    else do
      let colCount ← take 2
      let columns ← collect (fun _ => decodeColumn) 0 (UInt16.ofBeBytes colCount).toNat
      pure (some { columns })

def decodeOp : CursorM String OpType := do
  let byte ← takeByte
  match byteToOp byte with
  | some op => pure op
  | none => fail "unknown op byte"

/-- Everything after the length check of `decode_event`. -/
def decodeFields : CursorM String ChangeEvent := do
  let lsn ← take 8
  let xid ← take 4
  let op ← decodeOp
  let schema ← decodeName "invalid utf8 in schema"
  let table ← decodeName "invalid utf8 in table"
  let schemaFingerprint ← take 8
  let commitTimestampUs ← take 8
  let after ← decodeRowData
  let before ← decodeRowData
  pure {
    lsn := UInt64.ofBeBytes lsn
    xid := UInt32.ofBeBytes xid
    op
    table := { schema, table }
    schemaFingerprint := UInt64.ofBeBytes schemaFingerprint
    after
    before
    commitTimestampUs := Int64.ofBeBytes commitTimestampUs }

def decodeEventAt : CursorM String ChangeEvent := do
  let length ← size
  if length < 8 + 4 + 1 + 2 then
    fail "buffer too short for event header"
  else
    decodeFields

def decodeEvent (data : List UInt8) : Exec String ChangeEvent := (decodeEventAt data 0).1

/-! ## What the length fields can hold -/

def NameFits (name : String) : Prop := (utf8Bytes name).length ≤ 65535

instance (name : String) : Decidable (NameFits name) := inferInstanceAs (Decidable (_ ≤ _))

def ColumnValue.Fits (column : ColumnValue) : Prop :=
  NameFits column.name ∧ ∀ text ∈ column.value, (utf8Bytes text).length < 2 ^ 32

instance (column : ColumnValue) : Decidable column.Fits := inferInstanceAs (Decidable (_ ∧ _))

def RowData.Fits (row : RowData) : Prop :=
  row.columns.length ≤ 65535 ∧ ∀ column ∈ row.columns, column.Fits

instance (row : RowData) : Decidable row.Fits := inferInstanceAs (Decidable (_ ∧ _))

/-- Every length of the event fits the field `encodeEvent` writes it to. -/
def ChangeEvent.Fits (event : ChangeEvent) : Prop :=
  NameFits event.table.schema ∧ NameFits event.table.table ∧
    (∀ row ∈ event.after, row.Fits) ∧ ∀ row ∈ event.before, row.Fits

instance (event : ChangeEvent) : Decidable event.Fits := inferInstanceAs (Decidable (_ ∧ _))

end Nendi.Shared
