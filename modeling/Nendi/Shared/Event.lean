import Nendi.Lib.Text

/-! # Change events

The event type that flows through the whole pipeline (`shared/src/event`), and
the log sequence number it is ordered by (`shared/src/lsn`). -/

namespace Nendi.Shared

open Nendi.Lib

/-! ## Log sequence numbers -/

abbrev Lsn := UInt64

namespace Lsn

def zero : Lsn := 0

def max : Lsn := 0xFFFFFFFFFFFFFFFF

def isAheadOf (lsn other : Lsn) : Bool := decide (other < lsn)

def saturatingAdd (lsn : Lsn) (delta : UInt64) : Lsn :=
  if lsn.toNat + delta.toNat < 2 ^ 64 then lsn + delta else max

theorem saturatingAdd_one_toNat (lsn : Lsn) :
    (lsn.saturatingAdd 1).toNat = min (lsn.toNat + 1) (2 ^ 64 - 1) := by
  have bound := lsn.toNat_lt
  unfold saturatingAdd
  split
  next fits =>
    simp only [UInt64.toNat_one] at fits
    rw [UInt64.toNat_add, UInt64.toNat_one, Nat.mod_eq_of_lt fits]
    omega
  next overflows =>
    simp only [UInt64.toNat_one] at overflows
    rw [show max.toNat = 2 ^ 64 - 1 from rfl]
    omega

theorem saturatingAdd_one_mono {first second : Lsn} (le : first ≤ second) :
    first.saturatingAdd 1 ≤ second.saturatingAdd 1 := by
  rw [UInt64.le_iff_toNat_le] at le ⊢
  rw [saturatingAdd_one_toNat, saturatingAdd_one_toNat]
  omega

theorem le_saturatingAdd_one (lsn : Lsn) : lsn ≤ lsn.saturatingAdd 1 := by
  have bound := lsn.toNat_lt
  rw [UInt64.le_iff_toNat_le, saturatingAdd_one_toNat]
  omega

theorem saturatingAdd_one_le_iff {lsn : Lsn} (below : lsn < max) (other : Lsn) :
    lsn.saturatingAdd 1 ≤ other ↔ lsn < other := by
  rw [UInt64.lt_iff_toNat_lt, show max.toNat = 2 ^ 64 - 1 from rfl] at below
  rw [UInt64.le_iff_toNat_le, UInt64.lt_iff_toNat_lt, saturatingAdd_one_toNat]
  omega

end Lsn

/-! ## Events -/

inductive OpType where
  | insert
  | update
  | delete
  | truncate
deriving DecidableEq, Repr

def OpType.asStr : OpType → String
  | insert => "insert"
  | update => "update"
  | delete => "delete"
  | truncate => "truncate"

def OpType.fromStrTag (tag : String) : Option OpType :=
  match tag with
  | "insert" | "INSERT" | "I" => some .insert
  | "update" | "UPDATE" | "U" => some .update
  | "delete" | "DELETE" | "D" => some .delete
  | "truncate" | "TRUNCATE" | "T" => some .truncate
  | _ => none

structure TableId where
  schema : String
  table : String
deriving DecidableEq, Repr

def TableId.qualified (table : TableId) : String := s!"{table.schema}.{table.table}"

theorem TableId.qualified_toList (table : TableId) :
    table.qualified.toList = table.schema.toList ++ '.' :: table.table.toList := by
  simp [TableId.qualified, toString]

def TableId.fromQualified (name : String) : Option TableId :=
  (splitOnce '.' name).map fun (schema, table) => { schema, table }

/-- A column of a row image; `value` is the raw text, `none` for SQL NULL. -/
structure ColumnValue where
  name : String
  typeOid : UInt32
  value : Option String
deriving DecidableEq, Repr

structure RowData where
  columns : List ColumnValue
deriving DecidableEq, Repr

def RowData.get (row : RowData) (name : String) : Option ColumnValue :=
  row.columns.find? fun column => column.name == name

def RowData.getText (row : RowData) (name : String) : Option String :=
  -- `none` for a missing column as for NULL
  (row.get name).bind ColumnValue.value

structure ChangeEvent where
  lsn : UInt64
  xid : UInt32
  op : OpType
  table : TableId
  schemaFingerprint : UInt64
  after : Option RowData
  before : Option RowData
  commitTimestampUs : Int64
deriving DecidableEq, Repr

/-- `std::mem::size_of::<ChangeEvent>()` on a 64-bit target. -/
def sizeOfChangeEvent : Nat := 128

def RowData.estimatedSize (row : RowData) : Nat :=
  (row.columns.map fun column =>
    (utf8Bytes column.name).length + (column.value.elim 0 fun text => (utf8Bytes text).length)).sum

def ChangeEvent.estimatedSize (event : ChangeEvent) : UInt64 :=
  -- estimated memory footprint in bytes; the `usize` sum wraps in a release build
  UInt64.ofNat (sizeOfChangeEvent +
    ((utf8Bytes event.table.schema).length + (utf8Bytes event.table.table).length) +
    event.after.elim 0 RowData.estimatedSize + event.before.elim 0 RowData.estimatedSize)

end Nendi.Shared
