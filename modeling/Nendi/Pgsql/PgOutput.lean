import Mathlib.Data.List.AList
import Nendi.Lib.Cursor
import Nendi.Shared.Event

/-! # The pgoutput decoder

`PgOutputDecoder` of `services/pgsql/src/decoding/pgoutput.rs`: one binary
message of the logical replication protocol at a time, over the relations
announced so far.  Every reader works on the payload behind the tag byte with a
cursor it moves by hand.

`DefaultHasher` belongs to the standard library; the decoder is parametric in
`hasher`, which maps the bytes fed to it to its `finish()`. -/

namespace Nendi.Pgsql

open Nendi.Lib Nendi.Shared
open Nendi.Lib.CursorM

/-- The bytes of a message, held in memory. -/
structure Bytes where
  toList : List UInt8
  length_le : toList.length ≤ isizeMax

theorem Bytes.payload_le {data : Bytes} {tag : UInt8} {payload : List UInt8}
    (split : data.toList = tag :: payload) : payload.length ≤ isizeMax := by
  have whole := data.length_le
  rw [split, List.length_cons] at whole
  omega

/-- What an `anyhow::Error` of the decoder carries: a text of its own, or the
    `Utf8Error` of `from_utf8` on these bytes. -/
inductive DecodeError where
  | message (text : String)
  | utf8 (bytes : List UInt8)
deriving DecidableEq, Repr

inductive ReplicaIdentity where
  | default
  | nothing
  | full
  | index
deriving DecidableEq, Repr

structure ColumnMeta where
  name : String
  typeOid : UInt32
  isKey : Bool
deriving DecidableEq, Repr

structure RelationInfo where
  schema : String
  table : String
  columns : List ColumnMeta
  replicaIdentity : ReplicaIdentity
deriving DecidableEq, Repr

structure PgOutputDecoder where
  relations : AList fun _ : UInt32 => RelationInfo

/-! ## Wire-format helpers -/

def unexpectedEnd (pos : Nat) : DecodeError :=
  .message s!"unexpected end of message at offset {pos}"

def readU8 : CursorM DecodeError UInt8 := do
  requireByte unexpectedEnd
  takeByte

/-- The common body of `read_u16` and `read_u32`. -/
def readBytes (count : Nat) : CursorM DecodeError (List UInt8) := do
  require count unexpectedEnd
  take count

def readU16 : CursorM DecodeError UInt16 := do
  let bytes ← readBytes 2
  pure (UInt16.ofBeBytes bytes)

def readU32 : CursorM DecodeError UInt32 := do
  let bytes ← readBytes 4
  pure (UInt32.ofBeBytes bytes)

/-- `from_utf8(bytes)?`, before the cursor moves. -/
def utf8 (bytes : List UInt8) : CursorM DecodeError String :=
  match fromUtf8 bytes with
  | some text => pure text
  | none => fail (.utf8 bytes)

def readCString : CursorM DecodeError String := do
  let start ← position
  skipWhile (· != 0)
  requireByte fun _ => .message s!"unterminated c-string at offset {start}"
  let pos ← position
  let bytes ← range start pos
  let text ← utf8 bytes
  advance 1
  pure text

/-- `format!("{:02x}", b)`. -/
def hexByte (byte : UInt8) : List Char := (Nat.toDigits 16 byte.toNat).leftpad 2 '0'

def hexEncode (data : List UInt8) : String := String.ofList (data.flatMap hexByte)

/-- The loop body of `decode_tuple_data`. -/
def decodeTupleColumn (columns : List ColumnMeta) (place : Nat) : CursorM DecodeError ColumnValue := do
  let colTag ← readU8
  let colMeta := columns[place]?
  let name := (colMeta.map ColumnMeta.name).getD s!"col_{place}"
  let typeOid := (colMeta.map ColumnMeta.typeOid).getD 0
  if colTag = 'n'.toUInt8 then
    pure { name, typeOid, value := none }
  else if colTag = 'u'.toUInt8 then
    pure { name, typeOid, value := none }
  else if colTag = 't'.toUInt8 then do
    let len ← readU32
    require len.toNat fun _ => .message "value extends beyond message boundary"
    let bytes ← slice len.toNat
    let value ← utf8 bytes
    advance len.toNat
    pure { name, typeOid, value := some value }
  else if colTag = 'b'.toUInt8 then do
    let len ← readU32
    require len.toNat fun _ => .message "binary value extends beyond message boundary"
    let bytes ← slice len.toNat
    let hex := hexEncode bytes
    advance len.toNat
    pure { name, typeOid, value := some ("\\x" ++ hex) }
  else
    -- an unknown tag has no body to skip and counts as NULL
    pure { name, typeOid, value := none }

def decodeTupleData (columns : List ColumnMeta) : CursorM DecodeError RowData := do
  let nCols ← readU16
  let result ← collect (decodeTupleColumn columns) 0 nCols.toNat
  pure { columns := result }

/-- The bytes `compute_fingerprint` feeds to the hasher: `str` hashes as its bytes
    and a `0xff`, `u32` as its four bytes in native (little-endian) order. -/
def fingerprintInput (rel : RelationInfo) : List UInt8 :=
  let text := fun name : String => utf8Bytes name ++ [0xff]
  text rel.schema ++ (text rel.table ++
    rel.columns.flatMap fun col => text col.name ++ col.typeOid.toBeBytes.reverse)

def computeFingerprint (hasher : List UInt8 → UInt64) (rel : RelationInfo) : UInt64 :=
  hasher (fingerprintInput rel)

/-! ## Messages -/

/-- The event the row readers build; the transaction context is never filled in. -/
def relationEvent (hasher : List UInt8 → UInt64) (lsn : UInt64) (rel : RelationInfo) (op : OpType)
    (after before : Option RowData) : ChangeEvent where
  lsn
  xid := 0
  op
  table := { schema := rel.schema, table := rel.table }
  schemaFingerprint := computeFingerprint hasher rel
  after
  before
  commitTimestampUs := 0

def decodeBegin : CursorM DecodeError Unit := do
  let length ← size
  if length < 20 then
    fail (.message "begin message too short")
  else do
    let _finalLsn ← range 0 8
    let _commitTs ← range 8 16
    let _xid ← range 16 20
    pure ()

def decodeCommit : CursorM DecodeError Unit := do
  let length ← size
  if length < 25 then
    fail (.message "commit message too short")
  else do
    let _commitLsn ← range 1 9
    pure ()

def replicaIdentityOf (byte : UInt8) : ReplicaIdentity :=
  if byte = 'd'.toUInt8 then .default
  else if byte = 'n'.toUInt8 then .nothing
  else if byte = 'f'.toUInt8 then .full
  else if byte = 'i'.toUInt8 then .index
  else .default

def readColumnMeta : CursorM DecodeError ColumnMeta := do
  let flags ← readU8
  let name ← readCString
  let typeOid ← readU32
  let _typeModifier ← readU32
  pure { name, typeOid, isKey := (flags &&& 1) != 0 }

/-- `decode_relation` up to the insertion into the map. -/
def readRelation : CursorM DecodeError (UInt32 × RelationInfo) := do
  let relId ← readU32
  let schema ← readCString
  let table ← readCString
  let replica ← readU8
  let nCols ← readU16
  let columns ← collect (fun _ => readColumnMeta) 0 nCols.toNat
  pure (relId, { schema, table, columns, replicaIdentity := replicaIdentityOf replica })

namespace PgOutputDecoder

def new : PgOutputDecoder := ⟨∅⟩

variable (hasher : List UInt8 → UInt64) (decoder : PgOutputDecoder)

def relation (relId : UInt32) : CursorM DecodeError RelationInfo :=
  match decoder.relations.lookup relId with
  | some rel => pure rel
  | none => fail (.message s!"relation {relId} not found")

def decodeRelation (payload : List UInt8) : Exec DecodeError Unit × PgOutputDecoder :=
  match (readRelation payload 0).1 with
  | .ok (relId, info) => (.ok (), ⟨decoder.relations.insert relId info⟩)
  | .error fault => (.error fault, decoder)

def decodeInsert (lsn : UInt64) : CursorM DecodeError (Option ChangeEvent) := do
  let relId ← readU32
  let tag ← readU8
  if tag ≠ 'N'.toUInt8 then
    let got := String.singleton (Char.ofUInt8 tag)
    fail (.message s!"insert: expected 'N' tag, got {got}")
  else do
    let rel ← decoder.relation relId
    let after ← decodeTupleData rel.columns
    pure (some (relationEvent hasher lsn rel .insert (some after) none))

def readOldTuple (columns : List ColumnMeta) : CursorM DecodeError (Option RowData) := do
  -- the old tuple of an update, if its tag announces one; the tag of the new tuple behind it is
  -- skipped unread, and without an old tuple the first tag is taken for that of the new one
  let tag ← readU8
  if tag = 'K'.toUInt8 ∨ tag = 'O'.toUInt8 then do
    let before ← decodeTupleData columns
    let _newTag ← readU8
    pure (some before)
  else
    pure none

def decodeUpdate (lsn : UInt64) : CursorM DecodeError (Option ChangeEvent) := do
  let relId ← readU32
  let rel ← decoder.relation relId
  let before ← readOldTuple rel.columns
  let after ← decodeTupleData rel.columns
  pure (some (relationEvent hasher lsn rel .update (some after) before))

def decodeDelete (lsn : UInt64) : CursorM DecodeError (Option ChangeEvent) := do
  let relId ← readU32
  let rel ← decoder.relation relId
  let _tag ← readU8
  let before ← decodeTupleData rel.columns
  pure (some (relationEvent hasher lsn rel .delete none (some before)))

def decodeTruncate (lsn : UInt64) : CursorM DecodeError (Option ChangeEvent) := do
  let nRels ← readU32
  let _options ← readU8
  if nRels > 0 then do
    let relId ← readU32
    match decoder.relations.lookup relId with
    | some rel => pure (some (relationEvent hasher lsn rel .truncate none none))
    | none => pure none
  else
    pure none

def outcome {α : Type} (reader : CursorM DecodeError α) (payload : List UInt8) : Exec DecodeError α :=
  (reader payload 0).1

theorem decodeRelation_fst (payload : List UInt8) :
    (decoder.decodeRelation payload).1 = (outcome readRelation payload).map fun _ => () := by
  unfold decodeRelation outcome
  cases (readRelation payload 0).1 with
  | ok entry => rfl
  | error fault => rfl

def decode (lsn : UInt64) (data : Bytes) : Exec DecodeError (Option ChangeEvent) × PgOutputDecoder :=
  match data.toList with
  | [] => (.ok none, decoder)
  | tag :: payload =>
    if tag = 'B'.toUInt8 then ((outcome decodeBegin payload).map fun _ => none, decoder)
    else if tag = 'C'.toUInt8 then ((outcome decodeCommit payload).map fun _ => none, decoder)
    else if tag = 'R'.toUInt8 then
      let decoded := decoder.decodeRelation payload
      (decoded.1.map fun _ => none, decoded.2)
    else if tag = 'I'.toUInt8 then (outcome (decoder.decodeInsert hasher lsn) payload, decoder)
    else if tag = 'U'.toUInt8 then (outcome (decoder.decodeUpdate hasher lsn) payload, decoder)
    else if tag = 'D'.toUInt8 then (outcome (decoder.decodeDelete hasher lsn) payload, decoder)
    else if tag = 'T'.toUInt8 then (outcome (decoder.decodeTruncate hasher lsn) payload, decoder)
    -- `Y`, `O`, `M` and unknown tags are logged and skipped
    else (.ok none, decoder)

end PgOutputDecoder

end Nendi.Pgsql
