import Nendi.Pgsql.Snapshot
import Nendi.Verified.PgOutputStream

/-! # Snapshot rows and streamed rows

A row can reach a consumer in two ways: in the snapshot of its table, or as an
insert of the stream.  Both give the columns the same names in the same order.
`snapshot_row_agrees_iff` says for which rows they also agree on what is NULL: the
snapshot asks for every column as a string, and takes a refusal for NULL.  A table without
columns has rows in the stream only.

The snapshot writes names into its query as they are.  What a server makes of a name that
would have to be quoted is not said here. -/

namespace Nendi.Verified

open Nendi.Lib Nendi.Shared Nendi.Pgsql Nendi.Pgsql.Protocol

/-! ## The database -/

/-- A table as the server describes it in its relation message, and the names of
    the types its catalog has for their OIDs. -/
structure SourceTable where
  relation : Relation
  typeName : UInt32 → String

/-- A row, and the insert message in text format by which it is streamed. -/
structure SourceRow (table : SourceTable) where
  tuple : Tuple
  aligned : tuple.data.length = table.relation.columns.length
  textFormat : ∀ datum ∈ tuple.data, datum = .null ∨ ∃ value short, datum = .text value short
  lsn : UInt64
  data : Bytes
  written : data.toList = (Message.insert table.relation.oid tuple).serialise

namespace SourceTable

variable (table : SourceTable)

def id : TableId := ⟨table.relation.schema.text, table.relation.table.text⟩

def colInfo : List (String × String) :=
  table.relation.columns.map fun column => (column.name.text, table.typeName column.typeOid)

end SourceTable

/-- `try_get::<String>` gives the text of a column that has a text type and is not NULL. -/
def SourceRow.tryGet {table : SourceTable} (row : SourceRow table) (isText : UInt32 → Bool) (place : Nat) :
    Option String :=
  match table.relation.columns[place]?, row.tuple.data[place]? with
  | some column, some datum => if isText column.typeOid then datum.shown else none
  | _, _ => none

/-- The names that stand for themselves in a query without quotes. -/
structure BareNames where
  bare : String → Prop
  noDot : ∀ name, bare name → '.' ∉ name.toList

/-- No name of the table has to be quoted. -/
structure SourceTable.Bare (table : SourceTable) (names : BareNames) : Prop where
  schemaName : names.bare table.id.schema
  tableName : names.bare table.id.table
  columnNames : ∀ info ∈ table.colInfo, names.bare info.1

/-- The catalog has the columns of the relation message, and a query without names that have to
    be quoted gives the rows. -/
structure Serves (names : BareNames) (client : PgClient) (isText : UInt32 → Bool) (table : SourceTable)
    (rows : List (SourceRow table)) : Prop where
  columns : client.columns table.id.schema table.id.table = .ok table.colInfo
  rows : table.Bare names → client.rows (selectText table.id table.colInfo) =
    .ok (rows.map fun row => ⟨row.tryGet isText⟩)

/-! ## The two ways of a row -/

variable {isText : UInt32 → Bool} {table : SourceTable}

def snapshotRow (isText : UInt32 → Bool) (row : SourceRow table) : RowData :=
  ⟨table.colInfo.mapIdx fun place info =>
    { name := info.1, typeOid := 0, value := row.tryGet isText place }⟩

section Snapshot

variable {names : BareNames} {client : PgClient} {rows : List (SourceRow table)}

theorem SourceTable.Bare.split (bare : table.Bare names) :
    splitOnce '.' table.id.qualified = some (table.id.schema, table.id.table) := by
  have written : table.id.qualified = table.id.schema ++ String.singleton '.' ++ table.id.table := rfl
  rw [written, splitOnce_append (names.noDot _ bare.schemaName)]

theorem snapshotTable_serves (serves : Serves names client isText table rows) (bare : table.Bare names)
    (someColumns : table.relation.columns ≠ []) (lsn : UInt64) :
    ∃ events, snapshotTable client table.id.qualified lsn = .ok events ∧
      events.map ChangeEvent.after = rows.map fun row => some (snapshotRow isText row) := by
  have someInfo : table.colInfo ≠ [] := by simp [SourceTable.colInfo, someColumns]
  have scanned := scanTable_of_queries bare.split serves.columns someInfo (serves.rows bare)
  refine ⟨_, by rw [snapshotTable, scanned]; rfl, ?_⟩
  simp only [List.map_map]
  rfl

theorem snapshotTable_without_columns (serves : Serves names client isText table rows) (bare : table.Bare names)
    (noColumns : table.relation.columns = []) (lsn : UInt64) :
    ∃ message, snapshotTable client table.id.qualified lsn = .error message := by
  have noInfo : client.columns table.id.schema table.id.table = .ok [] := by
    rw [serves.columns, SourceTable.colInfo, noColumns, List.map_nil]
  have noScan : ∃ message, scanTable client table.id.qualified = .error message := by
    rw [scanTable, bare.split]
    simp [noInfo, bind, Except.bind]
  obtain ⟨message, failed⟩ := noScan
  exact ⟨message, by rw [snapshotTable, failed]; rfl⟩

end Snapshot

theorem decode_row {decoder : PgOutputDecoder}
    (known : decoder.relations.lookup table.relation.oid = some table.relation.info)
    (hasher : List UInt8 → UInt64) (row : SourceRow table) :
    ∃ event, (decoder.decode hasher row.lsn row.data).1 = .ok (some event) ∧
      event.after = some (table.relation.row row.tuple) := by
  rw [decode_row_message hasher row.lsn row.written rfl known]
  exact ⟨_, rfl, rfl⟩

/-! ## Agreement -/

/-- The column names of the stream in its order, and no value exactly where the
    row is NULL. -/
structure AgreesWithStream (row : SourceRow table) (snapshot streamed : RowData) : Prop where
  names : snapshot.columns.map ColumnValue.name = streamed.columns.map ColumnValue.name
  nulls : ∀ (place : Nat) (column : ColumnValue), snapshot.columns[place]? = some column →
    (column.value = none ↔ row.tuple.data[place]? = some Datum.null)

/-- Every column of the row that is not NULL has a text type. -/
def OnlyText (isText : UInt32 → Bool) (row : SourceRow table) : Prop :=
  ∀ (place : Nat) (column : ColumnDef) (datum : Datum), table.relation.columns[place]? = some column →
    row.tuple.data[place]? = some datum → datum ≠ .null → isText column.typeOid = true

theorem snapshotRow_names (row : SourceRow table) :
    (snapshotRow isText row).columns.map ColumnValue.name =
      (table.relation.row row.tuple).columns.map ColumnValue.name := by
  apply List.ext_getElem?
  intro place
  simp only [snapshotRow, Relation.row, SourceTable.colInfo, List.getElem?_map, List.getElem?_mapIdx,
    Option.map_map]
  cases found : table.relation.columns[place]? with
  | none =>
    -- the row has no datum where the relation has no column
    have outside : row.tuple.data[place]? = none := by
      rw [List.getElem?_eq_none_iff] at found ⊢
      rw [row.aligned]
      exact found
    simp [outside]
  | some column =>
    have inside : place < row.tuple.data.length := by
      rw [row.aligned]
      exact (List.getElem?_eq_some_iff.mp found).1
    simp [List.getElem?_eq_getElem inside, Relation.column, found]

theorem shown_eq_none_iff {row : SourceRow table} {place : Nat} {datum : Datum}
    (found : row.tuple.data[place]? = some datum) : datum.shown = none ↔ datum = .null := by
  obtain rfl | ⟨value, short, rfl⟩ := row.textFormat datum (List.mem_of_getElem? found)
  · exact ⟨fun _ => rfl, fun _ => rfl⟩
  · exact ⟨nofun, nofun⟩

theorem tryGet_eq_none_iff (row : SourceRow table) {place : Nat} {column : ColumnDef} {datum : Datum}
    (isColumn : table.relation.columns[place]? = some column)
    (found : row.tuple.data[place]? = some datum) :
    row.tryGet isText place = none ↔ isText column.typeOid = false ∨ datum = .null := by
  simp only [SourceRow.tryGet, isColumn, found]
  cases isText column.typeOid with
  | false => simp
  | true => simp [shown_eq_none_iff found]

theorem agreesWithStream_iff (row : SourceRow table) :
    AgreesWithStream row (snapshotRow isText row) (table.relation.row row.tuple) ↔
      OnlyText isText row := by
  constructor
  · intro agrees place column datum isColumn found notNull
    -- a column that is refused as a string would pass for NULL
    have shown := agrees.nulls place
      { name := column.name.text, typeOid := 0, value := row.tryGet isText place }
      (by simp [snapshotRow, SourceTable.colInfo, isColumn])
    rw [tryGet_eq_none_iff row isColumn found, found, Option.some.injEq] at shown
    by_contra notText
    exact notNull (shown.mp (.inl (by simpa using notText)))
  · intro onlyText
    refine ⟨snapshotRow_names row, ?_⟩
    intro place column found
    simp only [snapshotRow, SourceTable.colInfo, List.getElem?_mapIdx, List.getElem?_map, Option.map_map,
      Option.map_eq_some_iff] at found
    obtain ⟨definition, isColumn, rfl⟩ := found
    have inside : place < row.tuple.data.length := by
      rw [row.aligned]
      exact (List.getElem?_eq_some_iff.mp isColumn).1
    have present := List.getElem?_eq_getElem inside
    dsimp only [Function.comp]
    rw [tryGet_eq_none_iff row isColumn present, present, Option.some.injEq]
    refine ⟨fun missing => ?_, .inr⟩
    by_contra notNull
    obtain notText | isNull := missing
    · rw [onlyText place definition _ isColumn present notNull] at notText
      cases notText
    · exact notNull isNull

/-- The snapshot has at this place an event whose row data agrees with what the decoder makes
    of the row's insert. -/
def SnapshotAgrees (hasher : List UInt8 → UInt64) (client : PgClient) (lsn : UInt64) (decoder : PgOutputDecoder)
    (place : Nat) (row : SourceRow table) : Prop :=
  ∃ events event snapshot change streamed, snapshotTable client table.id.qualified lsn = .ok events ∧
    events[place]? = some event ∧ event.after = some snapshot ∧
    (decoder.decode hasher row.lsn row.data).1 = .ok (some change) ∧ change.after = some streamed ∧
    AgreesWithStream row snapshot streamed

/-- Of a table whose names need no quotes, the snapshot agrees with the stream on a row if and
    only if the table has a column and every column of the row that is not NULL has a text type. -/
theorem snapshot_row_agrees_iff (hasher : List UInt8 → UInt64) (isText : UInt32 → Bool) (names : BareNames)
    (table : SourceTable) (bare : table.Bare names) (rows : List (SourceRow table)) (client : PgClient)
    (serves : Serves names client isText table rows) (lsn : UInt64) (decoder : PgOutputDecoder)
    (known : decoder.relations.lookup table.relation.oid = some table.relation.info) (place : Nat)
    (row : SourceRow table) (isRow : rows[place]? = some row) :
    SnapshotAgrees hasher client lsn decoder place row ↔
      table.relation.columns ≠ [] ∧ OnlyText isText row := by
  obtain ⟨change, decoded, streamed⟩ := decode_row known hasher row
  by_cases noColumns : table.relation.columns = []
  -- the stream has an empty row, and the snapshot an error
  · obtain ⟨message, failed⟩ := snapshotTable_without_columns serves bare noColumns lsn
    refine iff_of_false ?_ fun both => both.1 noColumns
    rintro ⟨events, _, _, _, _, built, _⟩
    rw [failed] at built
    cases built
  · obtain ⟨events, built, after⟩ := snapshotTable_serves serves bare noColumns lsn
    have same : (events[place]?).map ChangeEvent.after = some (some (snapshotRow isText row)) := by
      rw [← List.getElem?_map, after, List.getElem?_map, isRow, Option.map_some]
    obtain ⟨event, isEvent, eventAfter⟩ := Option.map_eq_some_iff.mp same
    rw [← agreesWithStream_iff row, and_iff_right noColumns]
    constructor
    · rintro ⟨_, _, _, _, _, built', isEvent', after', decoded', streamed', agrees⟩
      -- both ways have one result, so these are the events found above
      cases built.symm.trans built'
      cases isEvent.symm.trans isEvent'
      cases decoded.symm.trans decoded'
      cases eventAfter.symm.trans after'
      cases streamed.symm.trans streamed'
      exact agrees
    · intro agrees
      exact ⟨events, event, _, change, _, built, isEvent, eventAfter, decoded, streamed, agrees⟩

/-! ## A number -/

def oneTable (isText : UInt32 → Bool) (table : SourceTable) (rows : List (SourceRow table)) : PgClient where
  columns _ _ := .ok table.colInfo
  rows _ := .ok (rows.map fun row => ⟨row.tryGet isText⟩)

theorem oneTable_serves (names : BareNames) (isText : UInt32 → Bool) (table : SourceTable)
    (rows : List (SourceRow table)) : Serves names (oneTable isText table rows) isText table rows :=
  ⟨rfl, fun _ => rfl⟩

/-- `public.counts` with one column `n` of the type `int4`. -/
def countsTable : SourceTable where
  relation :=
    { oid := 7
      schema := ⟨"public", public_noNul⟩
      table := ⟨"counts", by decide⟩
      identity := 'd'.toUInt8
      columns := [{ flags := 0, name := ⟨"n", by decide⟩, typeOid := 23, typeModifier := 0 }]
      counted := by decide }
  typeName _ := "int4"

def countsRow : SourceRow countsTable where
  tuple := { data := [.text "7" (by decide)], counted := by decide }
  aligned := rfl
  textFormat datum member := by
    cases List.mem_singleton.mp member
    exact .inr ⟨_, _, rfl⟩
  lsn := 2
  data := ⟨_, by decide⟩
  written := rfl

def isTextOid (oid : UInt32) : Bool := oid == 25

def countsDecoder : PgOutputDecoder := ⟨AList.singleton 7 countsTable.relation.info⟩

/-- The 7 of the stream is NULL in the snapshot. -/
theorem snapshot_loses_number :
    ∃ event, snapshotTable (oneTable isTextOid countsTable [countsRow]) "public.counts" 1 = .ok [event] ∧
      ∃ snapshot, event.after = some snapshot ∧
        snapshot.columns.map ColumnValue.value = [none] ∧
        ¬ AgreesWithStream countsRow snapshot (countsTable.relation.row countsRow.tuple) := by
  refine ⟨_, rfl, snapshotRow isTextOid countsRow, rfl, rfl, ?_⟩
  rw [agreesWithStream_iff]
  intro onlyText
  exact absurd (onlyText 0 _ _ rfl rfl nofun) (by decide)

def smallLetters : BareNames where
  bare name := ∀ letter ∈ name.toList, 'a' ≤ letter ∧ letter ≤ 'z'
  noDot name small dot := absurd (small '.' dot).1 (by decide)

theorem snapshot_row_agrees_counts :
    countsTable.Bare smallLetters ∧
      (SnapshotAgrees (fun _ => 0) (oneTable isTextOid countsTable [countsRow]) 1 countsDecoder 0 countsRow ↔
        countsTable.relation.columns ≠ [] ∧ OnlyText isTextOid countsRow) := by
  have bare : countsTable.Bare smallLetters := by
    constructor
    all_goals simp [smallLetters, countsTable, SourceTable.id, SourceTable.colInfo]
  exact ⟨bare, snapshot_row_agrees_iff (fun _ => 0) isTextOid smallLetters countsTable bare [countsRow] _
    (oneTable_serves _ _ _ _) 1 countsDecoder rfl 0 countsRow rfl⟩

end Nendi.Verified
