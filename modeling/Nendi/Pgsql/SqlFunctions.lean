import Nendi.Pgsql.Ddl
import Nendi.Pgsql.Schema

/-! # Functions that run in the database

`nendi_schema_fingerprint` of `sql/pgsql/function/fingerprint.sql` and `nendi_capture_drop`
of `sql/pgsql/trigger/drop.sql`.  Arithmetic on `bigint` raises an error where the result is
out of range, and the encoding of the database is UTF-8, so that `ascii` is the code point
of a character. -/

namespace Nendi.Pgsql

/-! ## The fingerprint of a table -/

inductive SqlError where
  -- `bigint out of range`
  | bigintOutOfRange
deriving DecidableEq, Repr

def bigintMul (first second : Int64) : Except SqlError Int64 :=
  let product := first.toInt * second.toInt
  if Int64.minValue.toInt ≤ product ∧ product ≤ Int64.maxValue.toInt then .ok (Int64.ofInt product)
  else .error .bigintOutOfRange

/-- `x'cbf29ce484222325'::BIGINT`, whose sign bit is set. -/
def sqlFnvOffset : Int64 := -3750763034362895579

/-- `x'100000001b3'::BIGINT` -/
def sqlFnvPrime : Int64 := 1099511628211

/-- One round of the inner loop. -/
def hashCharacter (hash : Int64) (character : Char) : Except SqlError Int64 :=
  bigintMul (hash ^^^ Int64.ofNat character.toNat) sqlFnvPrime

/-- One round of the loop over the columns. -/
def hashColumn (hash : Int64) (col : CatalogColumn) : Except SqlError Int64 :=
  let colStr := col.columnName ++ ":" ++ col.udtName ++ ":" ++ col.isNullable
  colStr.toList.foldlM hashCharacter hash

/-- From the rows of `information_schema.columns` for the table, by ordinal position. -/
def nendiSchemaFingerprint (columns : List CatalogColumn) : Except SqlError Int64 :=
  columns.foldlM hashColumn sqlFnvOffset

/-! ## Dropped tables -/

/-- A row of `pg_event_trigger_dropped_objects()`; names are not quoted. -/
structure DroppedObject where
  objectType : String
  schemaName : String
  objectName : String
deriving DecidableEq, Repr

/-- The messages that `nendi_capture_drop` emits under the prefix `nendi_ddl`. -/
def nendiCaptureDrop (objects : List DroppedObject) : List String :=
  objects.filterMap fun obj =>
    if obj.objectType = "table" then
      some ("DROP_TABLE|" ++ obj.schemaName ++ "." ++ obj.objectName ++ "|DROP TABLE")
    else none

end Nendi.Pgsql
