import Mathlib.Data.List.Induction
import Nendi.Pgsql.PgOutput

/-! # The replication messages themselves

What the server sends, independent of the decoder: the relation and row messages
of the pgoutput protocol, their bytes on the wire, and the change event each row
stands for.  A value that the wire format cannot carry, such as a name with a
NUL byte or a tuple of more than 65535 columns, cannot be built. -/

namespace Nendi.Pgsql.Protocol

open Nendi.Lib Nendi.Shared

/-! ## Relations -/

/-- A name that a NUL-terminated string can carry. -/
structure CName where
  text : String
  noNul : 0 ∉ utf8Bytes text

def CName.serialise (name : CName) : List UInt8 := utf8Bytes name.text ++ [0]

structure ColumnDef where
  flags : UInt8
  name : CName
  typeOid : UInt32
  typeModifier : UInt32

def ColumnDef.serialise (column : ColumnDef) : List UInt8 :=
  column.flags ::
    (column.name.serialise ++ (column.typeOid.toBeBytes ++ column.typeModifier.toBeBytes))

structure Relation where
  oid : UInt32
  schema : CName
  table : CName
  identity : UInt8
  columns : List ColumnDef
  counted : columns.length < 2 ^ 16

def Relation.body (relation : Relation) : List UInt8 :=
  relation.oid.toBeBytes ++ (relation.schema.serialise ++ (relation.table.serialise ++
    (relation.identity :: ((UInt16.ofNat relation.columns.length).toBeBytes ++
      relation.columns.flatMap ColumnDef.serialise))))

/-! ## Rows -/

inductive Datum where
  | null
  | unchanged
  | text (value : String) (short : (utf8Bytes value).length < 2 ^ 32)
  | binary (bytes : List UInt8) (short : bytes.length < 2 ^ 32)

def counted (bytes : List UInt8) : List UInt8 := (UInt32.ofNat bytes.length).toBeBytes ++ bytes

def Datum.serialise : Datum → List UInt8
  | .null => ['n'.toUInt8]
  | .unchanged => ['u'.toUInt8]
  | .text value _ => 't'.toUInt8 :: counted (utf8Bytes value)
  | .binary bytes _ => 'b'.toUInt8 :: counted bytes

structure Tuple where
  data : List Datum
  counted : data.length < 2 ^ 16

def Tuple.serialise (tuple : Tuple) : List UInt8 :=
  (UInt16.ofNat tuple.data.length).toBeBytes ++ tuple.data.flatMap Datum.serialise

/-- Whether an old tuple holds the replica identity key or the whole old row. -/
inductive OldTag where
  | key
  | old

def OldTag.byte : OldTag → UInt8
  | .key => 'K'.toUInt8
  | .old => 'O'.toUInt8

/-! ## Messages -/

inductive Message where
  | relation (relation : Relation)
  | insert (oid : UInt32) (new : Tuple)
  | update (oid : UInt32) (old : Option (OldTag × Tuple)) (new : Tuple)
  | delete (oid : UInt32) (tag : OldTag) (old : Tuple)

def newTuple (tuple : Tuple) : List UInt8 := 'N'.toUInt8 :: tuple.serialise

def oldTuple (tag : OldTag) (tuple : Tuple) : List UInt8 := tag.byte :: tuple.serialise

def Message.serialise : Message → List UInt8
  | .relation rel => 'R'.toUInt8 :: rel.body
  | .insert oid new => 'I'.toUInt8 :: (oid.toBeBytes ++ newTuple new)
  | .update oid none new => 'U'.toUInt8 :: (oid.toBeBytes ++ newTuple new)
  | .update oid (some (tag, old)) new =>
    'U'.toUInt8 :: (oid.toBeBytes ++ (oldTuple tag old ++ newTuple new))
  | .delete oid tag old => 'D'.toUInt8 :: (oid.toBeBytes ++ oldTuple tag old)

def Message.rowOid : Message → Option UInt32
  | .relation _ => none
  | .insert oid _ => some oid
  | .update oid _ _ => some oid
  | .delete oid _ _ => some oid

structure Frame where
  lsn : UInt64
  message : Message
  data : Bytes
  written : data.toList = message.serialise

/-! ## What the messages mean -/

/-- The relation message in force for `oid` after `past`. -/
def latest (past : List Message) (oid : UInt32) : Option Relation :=
  past.foldl (fun found message =>
    match message with
    | .relation relation => if relation.oid = oid then some relation else found
    | _ => found) none

/-- Every row comes after a relation message for its OID. -/
def Announced (messages : List Message) : Prop :=
  ∀ past message later, messages = past ++ message :: later → ∀ oid ∈ message.rowOid,
    ∃ relation, .relation relation ∈ past ∧ relation.oid = oid

def hexDigit (value : Nat) : Char := "0123456789abcdef".toList.getD value '0'

/-- `\x` and two lower-case hex digits a byte, as PostgreSQL prints `bytea`. -/
def hexText (bytes : List UInt8) : String :=
  String.ofList ('\\' :: 'x' :: bytes.flatMap fun byte =>
    [hexDigit (byte.toNat / 16), hexDigit (byte.toNat % 16)])

def Datum.shown : Datum → Option String
  | .null => none
  | .unchanged => none
  | .text value _ => some value
  | .binary bytes _ => some (hexText bytes)

/-- A value under the name and type of its place in the relation; values beyond
    the relation's columns are numbered. -/
def Relation.column (relation : Relation) (place : Nat) (datum : Datum) : ColumnValue :=
  match relation.columns[place]? with
  | some column => { name := column.name.text, typeOid := column.typeOid, value := datum.shown }
  | none => { name := s!"col_{place}", typeOid := 0, value := datum.shown }

def Relation.row (relation : Relation) (tuple : Tuple) : RowData :=
  { columns := tuple.data.mapIdx relation.column }

def ColumnDef.info (column : ColumnDef) : ColumnMeta where
  name := column.name.text
  typeOid := column.typeOid
  isKey := (column.flags &&& 1) != 0

def Relation.info (relation : Relation) : RelationInfo where
  schema := relation.schema.text
  table := relation.table.text
  columns := relation.columns.map ColumnDef.info
  replicaIdentity := replicaIdentityOf relation.identity

/-- The change a row message reports for `relation`, and nothing for a relation message. -/
def Message.event (hasher : List UInt8 → UInt64) (lsn : UInt64) (relation : Relation) :
    Message → Option ChangeEvent
  | .relation _ => none
  | .insert _ new => some (change .insert (some (relation.row new)) none)
  | .update _ old new =>
    some (change .update (some (relation.row new)) (old.map fun old => relation.row old.2))
  | .delete _ _ old => some (change .delete none (some (relation.row old)))
where
  change (op : OpType) (after before : Option RowData) : ChangeEvent :=
    { lsn, xid := 0, op, table := ⟨relation.schema.text, relation.table.text⟩,
      schemaFingerprint := computeFingerprint hasher relation.info, after, before,
      commitTimestampUs := 0 }

/-! ## The latest relation -/

theorem Message.rowOid_eq_none {message : Message} (notRow : message.rowOid = none) :
    ∃ announced, message = .relation announced := by
  cases message with
  | relation announced => exact ⟨announced, rfl⟩
  | insert oid new => cases notRow
  | update oid old new => cases notRow
  | delete oid tag old => cases notRow

theorem latest_relation (past : List Message) (announced : Relation) (oid : UInt32) :
    latest (past ++ [.relation announced]) oid =
      if announced.oid = oid then some announced else latest past oid := by
  rw [latest, List.foldl_append]
  rfl

theorem latest_row (past : List Message) {message : Message} {rowOid : UInt32}
    (isRow : message.rowOid = some rowOid) (oid : UInt32) :
    latest (past ++ [message]) oid = latest past oid := by
  rw [latest, List.foldl_append]
  cases message with
  | relation announced => cases isRow
  | insert _ new => rfl
  | update _ old new => rfl
  | delete _ tag old => rfl

theorem latest_of_announced {past : List Message} {relation : Relation}
    (announced : .relation relation ∈ past) : ∃ found, latest past relation.oid = some found := by
  induction past using List.reverseRecOn with
  | nil => cases announced
  | append_singleton past message inductionHypothesis =>
    cases isRow : message.rowOid with
    | none =>
      obtain ⟨newer, rfl⟩ := Message.rowOid_eq_none isRow
      rw [latest_relation]
      by_cases same : newer.oid = relation.oid
      · exact ⟨newer, if_pos same⟩
      · rw [if_neg same]
        cases List.mem_append.mp announced with
        | inl earlier => exact inductionHypothesis earlier
        | inr last =>
          cases List.mem_singleton.mp last
          exact absurd rfl same
    | some oid =>
      rw [latest_row past isRow]
      cases List.mem_append.mp announced with
      | inl earlier => exact inductionHypothesis earlier
      | inr last =>
        cases List.mem_singleton.mp last
        cases isRow

end Nendi.Pgsql.Protocol
