import Nendi.Shared.Proto

/-! # Initial snapshots

`SnapshotBuilder` of `services/pgsql/src/snapshot/builder.rs`.  The database
behind the client is not part of the repository: `PgClient` is what the two
queries return, and `PgLimits` the documented limits of PostgreSQL on it. -/

namespace Nendi.Pgsql

open Nendi.Lib Nendi.Shared

/-- A result row, as `row.try_get::<String>(i).ok()` sees it. -/
structure PgRow where
  tryGet : Nat → Option String

structure PgClient where
  -- `column_name, udt_name` of `information_schema.columns`, in ordinal order
  columns : String → String → Except String (List (String × String))
  rows : String → Except String (List PgRow)

/-- PostgreSQL's limits: 63-byte identifiers, 1600 columns, fields below 1 GB. -/
structure PgLimits (client : PgClient) : Prop where
  names : ∀ schema table columns, client.columns schema table = .ok columns → columns ≠ [] →
    (utf8Bytes schema).length ≤ 63 ∧ (utf8Bytes table).length ≤ 63 ∧ columns.length ≤ 1600 ∧
      ∀ column ∈ columns, (utf8Bytes column.1).length ≤ 63
  fields : ∀ select rows, client.rows select = .ok rows → ∀ row ∈ rows, ∀ place text,
    row.tryGet place = some text → (utf8Bytes text).length < 2 ^ 30

/-- What the two queries of `snapshot_table` bring back. -/
structure TableScan where
  table : TableId
  colInfo : List (String × String)
  rows : List PgRow

def selectText (table : TableId) (colInfo : List (String × String)) : String :=
  let columns := ", ".intercalate (colInfo.map Prod.fst)
  s!"SELECT {columns} FROM {table.schema}.{table.table}"

def scanTable (client : PgClient) (qualifiedTable : String) : Except String TableScan :=
  match splitOnce '.' qualifiedTable with
  | none => .error s!"invalid table name: {qualifiedTable}"
  | some (schema, table) => do
    let colInfo ← client.columns schema table
    if colInfo.isEmpty then
      .error s!"no columns found for table {qualifiedTable}"
    else do
      let rows ← client.rows (selectText ⟨schema, table⟩ colInfo)
      pure ⟨⟨schema, table⟩, colInfo, rows⟩

/-- The synthetic INSERT of one row: every row of a snapshot gets the same LSN and xid. -/
def snapshotEvent (scan : TableScan) (snapshotLsn : UInt64) (row : PgRow) : ChangeEvent where
  lsn := snapshotLsn
  xid := 0
  op := .insert
  table := scan.table
  schemaFingerprint := 0
  after := some ⟨scan.colInfo.mapIdx fun place info =>
    { name := info.1, typeOid := 0, value := row.tryGet place }⟩
  before := none
  commitTimestampUs := 0

def snapshotTable (client : PgClient) (qualifiedTable : String) (snapshotLsn : UInt64) :
    Except String (List ChangeEvent) := do
  let scan ← scanTable client qualifiedTable
  pure (scan.rows.map (snapshotEvent scan snapshotLsn))

structure SnapshotBuilder where
  tables : List String

/-- The loop of `snapshot_all`. -/
def snapshotTables (client : PgClient) (snapshotLsn : UInt64) :
    List String → Except String (List ChangeEvent)
  | [] => .ok []
  | table :: tables => do
    let events ← snapshotTable client table snapshotLsn
    let rest ← snapshotTables client snapshotLsn tables
    pure (events ++ rest)

def SnapshotBuilder.snapshotAll (builder : SnapshotBuilder) (client : PgClient)
    (snapshotLsn : UInt64) : Except String (List ChangeEvent) :=
  snapshotTables client snapshotLsn builder.tables

def tableRows (client : PgClient) (qualifiedTable : String) : List PgRow :=
  match scanTable client qualifiedTable with
  | .ok scan => scan.rows
  | .error _ => []

/-! ## What a snapshot is made of -/

theorem snapshotTable_eq_ok {client : PgClient} {table : String} {lsn : UInt64}
    {events : List ChangeEvent} (built : snapshotTable client table lsn = .ok events) :
    ∃ scan, scanTable client table = .ok scan ∧ events = scan.rows.map (snapshotEvent scan lsn) := by
  cases scanned : scanTable client table with
  | error message =>
    rw [snapshotTable, scanned] at built
    cases built
  | ok scan =>
    rw [snapshotTable, scanned] at built
    cases built
    exact ⟨scan, rfl, rfl⟩

theorem snapshotTables_cons_eq_ok {client : PgClient} {table : String} {tables : List String}
    {lsn : UInt64} {events : List ChangeEvent}
    (built : snapshotTables client lsn (table :: tables) = .ok events) :
    ∃ first rest, snapshotTable client table lsn = .ok first ∧
      snapshotTables client lsn tables = .ok rest ∧ events = first ++ rest := by
  cases firstBuilt : snapshotTable client table lsn with
  | error message =>
    rw [snapshotTables, firstBuilt] at built
    cases built
  | ok first =>
    cases restBuilt : snapshotTables client lsn tables with
    | error message =>
      rw [snapshotTables, firstBuilt, restBuilt] at built
      cases built
    | ok rest =>
      rw [snapshotTables, firstBuilt, restBuilt] at built
      cases built
      exact ⟨first, rest, rfl, rfl, rfl⟩

theorem snapshotTables_length {client : PgClient} {lsn : UInt64} {tables : List String}
    {events : List ChangeEvent} (built : snapshotTables client lsn tables = .ok events) :
    events.length = (tables.map fun table => (tableRows client table).length).sum := by
  induction tables generalizing events with
  | nil =>
    cases built
    rfl
  | cons table tables inductionHypothesis =>
    obtain ⟨first, rest, firstBuilt, restBuilt, rfl⟩ := snapshotTables_cons_eq_ok built
    obtain ⟨scan, scanned, rfl⟩ := snapshotTable_eq_ok firstBuilt
    simp [tableRows, scanned, inductionHypothesis restBuilt]

theorem mem_snapshotTables {client : PgClient} {lsn : UInt64} {tables : List String}
    {events : List ChangeEvent} (built : snapshotTables client lsn tables = .ok events)
    {event : ChangeEvent} (member : event ∈ events) :
    ∃ table scan row, scanTable client table = .ok scan ∧ row ∈ scan.rows ∧
      event = snapshotEvent scan lsn row := by
  induction tables generalizing events with
  | nil =>
    cases built
    cases member
  | cons table tables inductionHypothesis =>
    obtain ⟨first, rest, firstBuilt, restBuilt, rfl⟩ := snapshotTables_cons_eq_ok built
    obtain ⟨scan, scanned, rfl⟩ := snapshotTable_eq_ok firstBuilt
    obtain inFirst | inRest := List.mem_append.mp member
    · obtain ⟨row, inRows, rfl⟩ := List.mem_map.mp inFirst
      exact ⟨table, scan, row, scanned, inRows, rfl⟩
    · exact inductionHypothesis restBuilt inRest

theorem scanTable_eq_ok {client : PgClient} {qualifiedTable : String} {scan : TableScan}
    (scanned : scanTable client qualifiedTable = .ok scan) :
    client.columns scan.table.schema scan.table.table = .ok scan.colInfo ∧ scan.colInfo ≠ [] ∧
      client.rows (selectText scan.table scan.colInfo) = .ok scan.rows := by
  unfold scanTable at scanned
  split at scanned
  next malformed => cases scanned
  next schema table split =>
    cases queried : client.columns schema table with
    | error message => simp [queried, bind, Except.bind] at scanned
    | ok colInfo =>
      by_cases noColumns : colInfo = []
      · simp [queried, noColumns, bind, Except.bind] at scanned
      · cases selected : client.rows (selectText ⟨schema, table⟩ colInfo) with
        | error message => simp [queried, noColumns, selected, bind, Except.bind] at scanned
        | ok rows =>
          simp [queried, noColumns, selected, bind, Except.bind, pure, Except.pure] at scanned
          subst scanned
          exact ⟨queried, noColumns, selected⟩

theorem scanTable_of_queries {client : PgClient} {qualifiedTable schema table : String}
    {colInfo : List (String × String)} {rows : List PgRow}
    (named : splitOnce '.' qualifiedTable = some (schema, table))
    (queried : client.columns schema table = .ok colInfo) (someColumns : colInfo ≠ [])
    (selected : client.rows (selectText ⟨schema, table⟩ colInfo) = .ok rows) :
    scanTable client qualifiedTable = .ok ⟨⟨schema, table⟩, colInfo, rows⟩ := by
  rw [scanTable, named]
  simp [queried, someColumns, selected, bind, Except.bind, pure, Except.pure]

theorem snapshotEvent_fits {client : PgClient} (limits : PgLimits client) {table : String}
    {scan : TableScan} (scanned : scanTable client table = .ok scan) {row : PgRow}
    (inRows : row ∈ scan.rows) (lsn : UInt64) : (snapshotEvent scan lsn row).Fits := by
  obtain ⟨queried, someColumns, selected⟩ := scanTable_eq_ok scanned
  obtain ⟨schemaBound, tableBound, countBound, namesBound⟩ := limits.names _ _ _ queried someColumns
  have afterFits : ∀ data ∈ (snapshotEvent scan lsn row).after, data.Fits := by
    intro data isAfter
    cases isAfter
    refine ⟨by simp only [List.length_mapIdx]; omega, ?_⟩
    intro column inColumns
    obtain ⟨place, bound, rfl⟩ := List.mem_mapIdx.mp inColumns
    refine ⟨(namesBound _ (List.getElem_mem bound)).trans (by decide), ?_⟩
    intro text found
    have short := limits.fields _ _ selected row inRows place text found
    omega
  exact ⟨schemaBound.trans (by decide), tableBound.trans (by decide), afterFits,
    by simp [snapshotEvent]⟩

end Nendi.Pgsql
