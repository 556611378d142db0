import Mathlib.Data.List.Induction
import Nendi.Pgsql.Schema

/-! # What the schema registry remembers

Publications are loaded again and again while the catalog changes, loads break off at a
failed query, and single schemas are registered in between.  At every moment the registry
has for each name what it was told last; a table that has left the publication, or that a
broken load did not come to, keeps its old entry. -/

namespace Nendi.Verified

open Nendi.Lib Nendi.Pgsql

/-! ## What a load says about a table -/

inductive RegistryAction where
  | load (client : CatalogClient) (publication : String)
  | upsert (qualified : String) (schema : TableSchema)

def registryStep (registry : SchemaRegistry) : RegistryAction → SchemaRegistry
  | .load client publication => (loadPublicationSchemas client publication registry).2
  | .upsert qualified schema => registry.upsert qualified schema

/-- The table as the catalog shows it; a name without a dot is no table. -/
def described (client : CatalogClient) (qualified : String) : Option TableSchema := do
  let (schema, table) ← splitOnce '.' qualified
  let rows ← (client.columns schema table).toOption
  pure (loadTable client schema table rows)

def fails (client : CatalogClient) (qualified : String) : Bool :=
  match splitOnce '.' qualified with
  | none => false
  | some (schema, table) => !(client.columns schema table).isOk

/-- The tables that a load comes to before a query fails. -/
def reached (client : CatalogClient) (tables : List String) : List String :=
  tables.takeWhile fun qualified => !fails client qualified

def told (qualified : String) : RegistryAction → Option TableSchema
  | .load client publication =>
    match client.publicationTables publication with
    | .error _ => none
    | .ok tables => if qualified ∈ reached client tables then described client qualified else none
  | .upsert other schema => if qualified = other then some schema else none

theorem reached_cons {client : CatalogClient} {qualified : String} (passed : fails client qualified = false)
    (tables : List String) : reached client (qualified :: tables) = qualified :: reached client tables := by
  simp [reached, passed]

theorem reached_cons_failed {client : CatalogClient} {qualified : String} (failed : fails client qualified = true)
    (tables : List String) : reached client (qualified :: tables) = [] := by
  simp [reached, failed]

/-! ## One action -/

theorem get_upsert (registry : SchemaRegistry) (qualified other : String) (schema : TableSchema) :
    (registry.upsert other schema).get qualified =
      (if qualified = other then some schema else none).or (registry.get qualified) := by
  rw [SchemaRegistry.get, SchemaRegistry.upsert]
  split
  next same => rw [same, AList.lookup_insert, Option.some_or]
  next different => rw [AList.lookup_insert_ne different, Option.none_or, SchemaRegistry.get]

theorem get_loadTables (client : CatalogClient) (qualified : String) (tables : List String) (registry : SchemaRegistry)
    (count : Nat) :
    (loadTables client registry count tables).2.get qualified =
      (if qualified ∈ reached client tables then described client qualified else none).or (registry.get qualified) := by
  induction tables generalizing registry count with
  | nil => simp [loadTables, reached]
  | cons other tables inductionHypothesis =>
    rw [loadTables]
    split
    next noDot =>
      have passed : fails client other = false := by simp [fails, noDot]
      have nothing : described client other = none := by simp [described, noDot]
      rw [inductionHypothesis, reached_cons passed]
      by_cases later : qualified ∈ reached client tables
      · simp [later]
      · by_cases same : qualified = other
        · simp [same, nothing]
        · simp [later, same]
    next schema table named =>
      split
      next message failed =>
        have stops : fails client other = true := by simp [fails, named, failed, Except.isOk, Except.toBool]
        simp [reached_cons_failed stops]
      next rows shown =>
        have passed : fails client other = false := by simp [fails, named, shown, Except.isOk, Except.toBool]
        have here : described client other = some (loadTable client schema table rows) := by
          simp [described, named, shown, Except.toOption]
        rw [inductionHypothesis, get_upsert, reached_cons passed]
        by_cases same : qualified = other
        · by_cases later : other ∈ reached client tables
          · simp [same, here, later]
          · simp [same, here, later]
        · by_cases later : qualified ∈ reached client tables
          · simp [same, later]
          · simp [same, later]

theorem get_registryStep (registry : SchemaRegistry) (action : RegistryAction) (qualified : String) :
    (registryStep registry action).get qualified = (told qualified action).or (registry.get qualified) := by
  cases action with
  | load client publication =>
    rw [registryStep, loadPublicationSchemas, told]
    cases client.publicationTables publication with
    | error message => rfl
    | ok tables => exact get_loadTables client qualified tables registry 0
  | upsert other schema => exact get_upsert registry qualified other schema

/-! ## Whole histories -/

/-- For every name the registry has the last schema that it was told, and a fingerprint is
    valid exactly if it is that schema's. -/
theorem registry_holds_last_told (actions : List RegistryAction) (qualified : String) :
    (actions.foldl registryStep .new).get qualified = (actions.filterMap (told qualified)).getLast? ∧
      ∀ fp, (actions.foldl registryStep .new).validateFingerprint qualified fp = true ↔
        ∃ schema, (actions.filterMap (told qualified)).getLast? = some schema ∧ schema.fingerprint = fp := by
  have last : (actions.foldl registryStep .new).get qualified = (actions.filterMap (told qualified)).getLast? := by
    induction actions using List.reverseRecOn with
    | nil => rfl
    | append_singleton actions action inductionHypothesis =>
      rw [List.foldl_append, List.foldl_cons, List.foldl_nil, get_registryStep, inductionHypothesis,
        List.filterMap_append, List.getLast?_append]
      cases said : told qualified action with
      | none => simp [said]
      | some schema => simp [said]
  refine ⟨last, fun fp => ?_⟩
  rw [validateFingerprint_eq, SchemaRegistry.fingerprint, last, Option.map_eq_some_iff]

end Nendi.Verified
