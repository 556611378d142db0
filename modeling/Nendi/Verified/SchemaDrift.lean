import Nendi.Pgsql.PgOutput
import Nendi.Pgsql.Schema

/-! # Two fingerprints of one schema

The decoder stamps its events with a hash of column names and type OIDs, the registry
keeps a hash of column names and type names.  The catalog may call a type whatever it
likes, which changes the second hash and not the first: `fingerprints_never_agree`. -/

namespace Nendi.Verified

open Nendi.Lib Nendi.Shared Nendi.Pgsql

/-- The catalog shows the columns of a relation under these type names. -/
def Describes (typeName : UInt32 → String) (rel : RelationInfo) (rows : List CatalogColumn) : Prop :=
  rows.map (fun row => (row.columnName, row.udtName)) =
    rel.columns.map fun col => (col.name, typeName col.typeOid)

/-- A publication of this catalog has the relation among its tables. -/
structure Publishes (client : CatalogClient) (publication : String) (rel : RelationInfo)
    (rows : List CatalogColumn) : Prop where
  listed : ∃ tables, client.publicationTables publication = .ok tables ∧ TableId.qualified ⟨rel.schema, rel.table⟩ ∈ tables
  described : client.columns rel.schema rel.table = .ok rows

/-- Events of the relation are stamped with the fingerprint that is registered for it,
    and accepted by every registry that has loaded its publication. -/
structure FingerprintsAgree (hasher : List UInt8 → UInt64) (typeName : UInt32 → String)
    (rel : RelationInfo) : Prop where
  equal : ∀ client rows, Describes typeName rel rows →
    computeFingerprint hasher rel = loadedFingerprint client rel.schema rel.table rows
  accepted : ∀ client publication rows registry total, Describes typeName rel rows →
    Publishes client publication rel rows →
    (loadPublicationSchemas client publication registry).1 = .ok total →
    (loadPublicationSchemas client publication registry).2.validateFingerprint
      (TableId.qualified ⟨rel.schema, rel.table⟩) (computeFingerprint hasher rel) = true

/-! ## What is registered -/

def registeredInput (typeName : UInt32 → String) (rel : RelationInfo) : List UInt8 :=
  utf8Bytes rel.schema ++ '.'.toUInt8 :: (utf8Bytes rel.table ++
    rel.columns.flatMap fun col => typedInput col.name (typeName col.typeOid))

theorem loadedFingerprint_eq {typeName : UInt32 → String} {rel : RelationInfo}
    {rows : List CatalogColumn} (describes : Describes typeName rel rows) (client : CatalogClient) :
    loadedFingerprint client rel.schema rel.table rows =
      fnvFrom fnvOffset (registeredInput typeName rel) := by
  have columns : ∀ pkNames, (rows.map (columnSchema pkNames)).flatMap columnInput =
      rel.columns.flatMap fun col => typedInput col.name (typeName col.typeOid) := by
    intro pkNames
    have typed := congrArg (List.flatMap fun column => typedInput column.1 column.2) describes
    rw [List.flatMap_map, List.flatMap_map] at typed
    rw [List.flatMap_map]
    exact typed
  rw [loadedFingerprint, loadTable, compute_eq_fnv, computeInput, columns, registeredInput]

/-! ## Renaming a type -/

/-- Names a type that the last column alone has. -/
def renamed (oid : UInt32) (name : String) (other : UInt32) : String := if other = oid then name else ""

theorem registeredInput_renamed {rel : RelationInfo} {before : List ColumnMeta} {last : ColumnMeta}
    (columns : rel.columns = before ++ [last]) (unused : ∀ col ∈ before, col.typeOid ≠ last.typeOid)
    (name : String) :
    registeredInput (renamed last.typeOid name) rel =
      registeredInput (fun _ => "") { rel with columns := before } ++
        (typedInput last.name "" ++ utf8Bytes name) := by
  have earlier : before.flatMap (fun col => typedInput col.name (renamed last.typeOid name col.typeOid)) =
      before.flatMap fun col => typedInput col.name "" := by
    apply List.flatMap_congr
    intro col member
    rw [renamed, if_neg (unused col member)]
  have own : renamed last.typeOid name last.typeOid = name := if_pos rfl
  have nothing : utf8Bytes "" = [] := rfl
  simp only [registeredInput, columns, List.flatMap_append, earlier, List.flatMap_singleton, own]
  simp only [typedInput, nothing, List.append_assoc, List.cons_append, List.nil_append]

theorem not_agree_of_own_type (hasher : List UInt8 → UInt64) {rel : RelationInfo}
    {before : List ColumnMeta} {last : ColumnMeta} (columns : rel.columns = before ++ [last])
    (unused : ∀ col ∈ before, col.typeOid ≠ last.typeOid) :
    ¬ ∀ typeName, FingerprintsAgree hasher typeName rel := by
  intro agree
  -- the catalog may show the type as `a` or as `b`; the decoder sees no difference
  have registered : ∀ name, computeFingerprint hasher rel =
      fnvFrom fnvOffset (registeredInput (renamed last.typeOid name) rel) := by
    intro name
    let rows : List CatalogColumn := rel.columns.map fun col =>
      ⟨col.name, renamed last.typeOid name col.typeOid, "YES", 0⟩
    have describes : Describes (renamed last.typeOid name) rel rows := by
      simp [Describes, rows]
    let client : CatalogClient := ⟨fun _ => .ok [], fun _ _ => .ok rows, fun _ _ => .ok []⟩
    rw [(agree (renamed last.typeOid name)).equal client rows describes,
      loadedFingerprint_eq describes client]
  have same := (registered "a").symm.trans (registered "b")
  rw [registeredInput_renamed columns unused, registeredInput_renamed columns unused,
    ← List.append_assoc, ← List.append_assoc] at same
  exact fnvFrom_replace_ne fnvOffset _ [] (show (97 : UInt8) ≠ 98 by decide) same

/-- For no schema and table do the fingerprints agree over all column lists and type
    names; nor do they over all types of any given column names. -/
theorem fingerprints_never_agree (hasher : List UInt8 → UInt64) (schema table : String)
    (identity : ReplicaIdentity) :
    (¬ ∀ columns typeName, FingerprintsAgree hasher typeName ⟨schema, table, columns, identity⟩) ∧
      ∀ names : List String, names ≠ [] → ¬ ∀ columns, columns.map ColumnMeta.name = names →
        ∀ typeName, FingerprintsAgree hasher typeName ⟨schema, table, columns, identity⟩ := by
  -- the last column gets a type of its own
  have named : ∀ (earlier : List String) (last : String), ∃ columns,
      columns.map ColumnMeta.name = earlier ++ [last] ∧
        ¬ ∀ typeName, FingerprintsAgree hasher typeName ⟨schema, table, columns, identity⟩ := by
    intro earlier last
    refine ⟨earlier.map (fun name => ⟨name, 0, false⟩) ++ [⟨last, 1, false⟩], ?_, ?_⟩
    · simp [Function.comp_def]
    · refine not_agree_of_own_type hasher rfl ?_
      intro col member
      obtain ⟨name, _, rfl⟩ := List.mem_map.mp member
      show (0 : UInt32) ≠ 1
      decide
  constructor
  · intro agree
    obtain ⟨columns, _, differ⟩ := named [] "id"
    exact differ (agree columns)
  · intro names someNames agree
    obtain ⟨columns, sameNames, differ⟩ := named names.dropLast (names.getLast someNames)
    rw [List.dropLast_append_getLast] at sameNames
    exact differ (agree columns sameNames)

/-- Whatever the decoder's hash: `public.users` with a column of type 23 cannot have the
    right fingerprint under every name that the catalog may have for the type. -/
theorem renamed_type_changes_fingerprint :
    ¬ ∃ hasher, ∀ typeName,
      FingerprintsAgree hasher typeName ⟨"public", "users", [⟨"id", 23, true⟩], .default⟩ := by
  rintro ⟨hasher, agree⟩
  let column : ColumnMeta := ⟨"id", 23, true⟩
  exact not_agree_of_own_type hasher (show [column] = [] ++ [column] from rfl) (by simp) agree

end Nendi.Verified
