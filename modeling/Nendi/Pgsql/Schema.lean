import Mathlib.Data.List.AList
import Nendi.Lib.Fnv
import Nendi.Lib.Text

/-! # The schema registry

`SchemaRegistry`, `load_publication_schemas` and `fingerprint::compute` of
`services/pgsql/src/schema`.  The catalog behind the client is not part of the
repository: `CatalogClient` is what its three queries return. -/

namespace Nendi.Pgsql

open Nendi.Lib

structure ColumnSchema where
  name : String
  typeOid : UInt32
  typeName : String
  isNullable : Bool
  isPrimaryKey : Bool
  ordinalPosition : Int32
deriving DecidableEq, Repr

structure TableSchema where
  schema : String
  table : String
  columns : List ColumnSchema
  fingerprint : UInt64
deriving DecidableEq, Repr

/-! ## Fingerprints -/

/-- One round of the loop of `compute`. -/
def computeColumn (hash : UInt64) (col : ColumnSchema) : UInt64 :=
  let hash := fnvStep hash '|'.toUInt8
  let hash := fnvFrom hash (utf8Bytes col.name)
  let hash := fnvStep hash ':'.toUInt8
  fnvFrom hash (utf8Bytes col.typeName)

def compute (schema table : String) (columns : List ColumnSchema) : UInt64 :=
  let hash := fnvFrom fnvOffset (utf8Bytes schema)
  let hash := fnvStep hash '.'.toUInt8
  let hash := fnvFrom hash (utf8Bytes table)
  columns.foldl computeColumn hash

def typedInput (name typeName : String) : List UInt8 :=
  '|'.toUInt8 :: (utf8Bytes name ++ ':'.toUInt8 :: utf8Bytes typeName)

def columnInput (col : ColumnSchema) : List UInt8 := typedInput col.name col.typeName

def computeInput (schema table : String) (columns : List ColumnSchema) : List UInt8 :=
  utf8Bytes schema ++ '.'.toUInt8 :: (utf8Bytes table ++ columns.flatMap columnInput)

theorem foldl_computeColumn (hash : UInt64) (columns : List ColumnSchema) :
    columns.foldl computeColumn hash = fnvFrom hash (columns.flatMap columnInput) := by
  induction columns generalizing hash with
  | nil => rfl
  | cons col columns inductionHypothesis =>
    rw [List.foldl_cons, inductionHypothesis, List.flatMap_cons, fnvFrom_append]
    simp [computeColumn, columnInput, typedInput]

theorem compute_eq_fnv (schema table : String) (columns : List ColumnSchema) :
    compute schema table columns = fnvFrom fnvOffset (computeInput schema table columns) := by
  simp only [compute, computeInput, foldl_computeColumn, fnvFrom_append, fnvFrom_cons]

/-! ## The registry -/

structure SchemaRegistry where
  tables : AList fun _ : String => TableSchema

namespace SchemaRegistry

def new : SchemaRegistry := ⟨∅⟩

def upsert (registry : SchemaRegistry) (qualifiedName : String) (schema : TableSchema) : SchemaRegistry :=
  -- a change of the fingerprint is only logged
  ⟨registry.tables.insert qualifiedName schema⟩

def get (registry : SchemaRegistry) (qualifiedName : String) : Option TableSchema :=
  registry.tables.lookup qualifiedName

def fingerprint (registry : SchemaRegistry) (qualifiedName : String) : Option UInt64 :=
  (registry.get qualifiedName).map TableSchema.fingerprint

def validateFingerprint (registry : SchemaRegistry) (qualifiedName : String) (fp : UInt64) : Bool :=
  ((registry.get qualifiedName).map fun schema => schema.fingerprint == fp).getD false

end SchemaRegistry

/-! ## Loading a publication -/

/-- A row of `information_schema.columns`, as `load_publication_schemas` selects it. -/
structure CatalogColumn where
  columnName : String
  udtName : String
  isNullable : String
  ordinalPosition : Int32
deriving DecidableEq, Repr

structure CatalogClient where
  publicationTables : String → Except String (List String)
  columns : String → String → Except String (List CatalogColumn)
  primaryKey : String → String → Except String (List String)

/-- The type OID is not available from the catalog view. -/
def columnSchema (pkNames : List String) (row : CatalogColumn) : ColumnSchema where
  name := row.columnName
  typeOid := 0
  typeName := row.udtName
  isNullable := row.isNullable == "YES"
  isPrimaryKey := pkNames.contains row.columnName
  ordinalPosition := row.ordinalPosition

def loadTable (client : CatalogClient) (schema table : String) (rows : List CatalogColumn) : TableSchema :=
  let pkNames := match client.primaryKey schema table with
    | .ok names => names
    | .error _ => []
  let columns := rows.map (columnSchema pkNames)
  { schema, table, columns, fingerprint := compute schema table columns }

/-- The loop over the tables of the publication. -/
def loadTables (client : CatalogClient) (registry : SchemaRegistry) (count : Nat) :
    List String → Except String Nat × SchemaRegistry
  | [] => (.ok count, registry)
  | qualified :: rest =>
    match splitOnce '.' qualified with
    -- a name without a dot is passed over
    | none => loadTables client registry count rest
    | some (schema, table) =>
      match client.columns schema table with
      -- what has been registered so far stays registered
      | .error message => (.error message, registry)
      | .ok rows =>
        loadTables client (registry.upsert qualified (loadTable client schema table rows)) (count + 1) rest

def loadPublicationSchemas (client : CatalogClient) (publicationName : String) (registry : SchemaRegistry) :
    Except String Nat × SchemaRegistry :=
  match client.publicationTables publicationName with
  | .error message => (.error message, registry)
  | .ok tables => loadTables client registry 0 tables

/-! ## What has been loaded -/

theorem validateFingerprint_eq (registry : SchemaRegistry) (qualified : String) (fp : UInt64) :
    registry.validateFingerprint qualified fp = true ↔ registry.fingerprint qualified = some fp := by
  rw [SchemaRegistry.validateFingerprint, SchemaRegistry.fingerprint]
  cases registry.get qualified with
  | none => simp
  | some schema => simp

def loadedFingerprint (client : CatalogClient) (schema table : String) (rows : List CatalogColumn) :
    UInt64 := (loadTable client schema table rows).fingerprint

end Nendi.Pgsql
