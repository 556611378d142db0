import Nendi.Pgsql.Snapshot
import Nendi.Verified.EventLog

/-! # Which snapshots survive storage

All events of a snapshot carry one LSN and xid 0, and the storage key is made of
these two, so the rows overwrite each other.  `snapshot_survives_iff` says
exactly when nothing is lost: when the snapshot has at most one row, and the read does not
ask for more events than can be allocated. -/

namespace Nendi.Verified

open Nendi.Lib Nendi.Shared Nendi.Core Nendi.Pgsql

/-- However the events are split into batches, once these are written a read of `limit` events
    from `lsn` on returns each of them, as often as it was built. -/
def Survives (store : TenantStore) (lsn : Lsn) (limit : Nat) (events : List ChangeEvent) : Prop :=
  ∀ batches written, batches.flatMap WriteBatch.events = events → store.writeBatches batches = .ok written →
    ∃ result, written.readFrom lsn limit = .ok result ∧ events.Subperm result

theorem snapshotTables_key {client : PgClient} {lsn : UInt64} {tables : List String}
    {events : List ChangeEvent} (built : snapshotTables client lsn tables = .ok events)
    {event : ChangeEvent} (member : event ∈ events) : eventKey event = toLex (lsn, 0) := by
  obtain ⟨table, scan, row, _, _, rfl⟩ := mem_snapshotTables built member
  rfl

theorem snapshotTables_fit {client : PgClient} (limits : PgLimits client) {lsn : UInt64}
    {tables : List String} {events : List ChangeEvent}
    (built : snapshotTables client lsn tables = .ok events) : ∀ event ∈ events, event.Fits := by
  intro event member
  obtain ⟨table, scan, row, scanned, inRows, rfl⟩ := mem_snapshotTables built member
  exact snapshotEvent_fits limits scanned inRows lsn

theorem subperm_sorted_length {key : EventKey} {events result : List ChangeEvent}
    (sameKey : ∀ event ∈ events, eventKey event = key)
    (sorted : result.Pairwise fun first second => eventKey first < eventKey second)
    (included : events.Subperm result) : events.length ≤ 1 := by
  -- in a log two events never share a key, so no two of them fit in what is read
  obtain ⟨arranged, permuted, sublist⟩ := included
  rw [← permuted.length_eq]
  have arrangedSorted := sorted.sublist sublist
  cases arranged with
  | nil => simp
  | cons first rest =>
    cases rest with
    | nil => simp
    | cons second rest =>
      have less := (List.pairwise_cons.mp arrangedSorted).1 second List.mem_cons_self
      rw [sameKey first (permuted.subset List.mem_cons_self),
        sameKey second (permuted.subset (List.mem_cons_of_mem _ List.mem_cons_self))] at less
      exact absurd less (lt_irrefl _)

theorem survives_length {store : TenantStore} {log : EventLog} (holds : Holds store log) {lsn : Lsn} {limit : Nat}
    {key : EventKey} {events : List ChangeEvent} (fit : ∀ event ∈ events, event.Fits)
    (sameKey : ∀ event ∈ events, eventKey event = key) (survives : Survives store lsn limit events) :
    events.length ≤ 1 ∧ limit < 2 ^ 56 := by
  -- of events under one key a store keeps the last only
  -- one batch with everything in it already loses all but one event
  let batch : WriteBatch := { WriteBatch.new with events }
  have content : [batch].flatMap WriteBatch.events = events := by simp [batch]
  obtain ⟨written, wrote⟩ := TenantStore.writeBatches_succeeds holds [batch]
  obtain ⟨result, read, included⟩ := survives [batch] written content wrote
  have stored := writeBatches_log holds (by rw [content]; exact fit) wrote
  obtain ⟨small, rfl⟩ := readFrom_log_eq_ok stored read
  exact ⟨subperm_sorted_length sameKey
    ((EventLog.from_sorted _ lsn).sublist (List.take_sublist _ _)) included, small⟩

theorem least_is_read {log : EventLog} {lsn : Lsn} {event : ChangeEvent} (inLog : event ∈ log.events)
    (least : eventKey event = toLex (lsn, 0)) {limit : Nat} (positive : 1 ≤ limit) :
    event ∈ (log.from_ lsn).take limit := by
  have atStart : event.lsn = lsn := congrArg (fun key => (ofLex key).1) least
  have member : event ∈ log.from_ lsn :=
    List.mem_filter.mpr ⟨inLog, by simp [atStart]⟩
  have sorted := log.from_sorted lsn
  have aboveStart : ∀ other ∈ log.from_ lsn, lsn ≤ other.lsn := by
    intro other inFrom
    simpa using (List.mem_filter.mp inFrom).2
  cases read : log.from_ lsn with
  | nil =>
    rw [read] at member
    cases member
  | cons first rest =>
    rw [read] at member sorted aboveStart
    cases member with
    | head =>
      obtain ⟨limit, rfl⟩ := Nat.exists_eq_add_of_le' positive
      simp
    | tail _ later =>
      -- an event before it would have a smaller LSN, or an xid below zero
      have less := (List.pairwise_cons.mp sorted).1 event later
      rw [least, Prod.Lex.lt_iff] at less
      obtain below | ⟨_, below⟩ := less
      · exact absurd below (not_lt.mpr (aboveStart first List.mem_cons_self))
      · exact absurd below (by simp)

theorem single_row_read {log : EventLog} {lsn : Lsn} {events : List ChangeEvent}
    (fit : ∀ event ∈ events, event.Fits)
    (sameKey : ∀ event ∈ events, eventKey event = toLex (lsn, 0))
    (atMostOne : events.length ≤ 1) {limit : Nat} (positive : 1 ≤ limit) :
    events.Subperm (((log.write events fit).from_ lsn).take limit) := by
  cases events with
  | nil => exact List.nil_subperm
  | cons event rest =>
    cases rest with
    | cons _ _ => simp at atMostOne
    | nil =>
      have written : (eventKey event, event) ∈ (log.write [event] fit).map.entries :=
        (log.map.mem_insert _ _ _).mpr (.inl rfl)
      rw [List.singleton_subperm_iff]
      exact least_is_read (List.mem_map_of_mem written) (sameKey event List.mem_cons_self) positive

/-- A snapshot survives storage, on top of whatever the store already held,
    exactly when its tables have at most one row between them and a vector can have the limit
    of the read for its capacity. -/
theorem snapshot_survives_iff (client : PgClient) (limits : PgLimits client) (builder : SnapshotBuilder)
    (lsn : UInt64) (events : List ChangeEvent) (built : builder.snapshotAll client lsn = .ok events)
    (store : TenantStore) (log : EventLog) (holds : Holds store log) (limit : Nat) :
    Survives store lsn limit events ↔
      (builder.tables.map fun table => (tableRows client table).length).sum ≤ 1 ∧ limit < 2 ^ 56 := by
  have fit := snapshotTables_fit limits built
  have sameKey : ∀ event ∈ events, eventKey event = toLex (lsn, 0) := fun _ member =>
    snapshotTables_key built member
  rw [← snapshotTables_length built]
  constructor
  · exact survives_length holds fit sameKey
  · rintro ⟨atMostOne, small⟩ batches written content wrote
    subst content
    have stored := writeBatches_log holds fit wrote
    exact ⟨_, readFrom_log stored lsn small,
      single_row_read fit sameKey atMostOne (Nat.le_max_right limit 1)⟩

/-- A database whose one table `public.codes` has a text column `code` with these values. -/
def codesClient (codes : List String) : PgClient where
  columns schema table :=
    .ok (if schema = "public" ∧ table = "codes" then [("code", "text")] else [])
  rows _ := .ok (codes.map fun code => ⟨fun place => if place = 0 then some code else none⟩)

def codeEvent (code : String) : ChangeEvent where
  lsn := 7
  xid := 0
  op := .insert
  table := ⟨"public", "codes"⟩
  schemaFingerprint := 0
  after := some ⟨[⟨"code", 0, some code⟩]⟩
  before := none
  commitTimestampUs := 0

/-- Of two rows of one table only the second is read back. -/
theorem snapshot_of_two_rows_loses_one :
    SnapshotBuilder.snapshotAll ⟨["public.codes"]⟩ (codesClient ["a", "b"]) 7 =
        .ok [codeEvent "a", codeEvent "b"] ∧
      ¬ Survives emptyStore 7 2 [codeEvent "a", codeEvent "b"] := by
  refine ⟨by decide, fun survives => ?_⟩
  have sameKey : ∀ event ∈ [codeEvent "a", codeEvent "b"], eventKey event = toLex (7, 0) := by decide
  have kept := survives_length (show Holds emptyStore .empty from rfl) (by decide) sameKey survives
  exact absurd kept.1 (by decide)

theorem codesClient_limits {codes : List String}
    (short : ∀ code ∈ codes, (utf8Bytes code).length < 2 ^ 30) : PgLimits (codesClient codes) where
  names schema table columns found nonempty := by
    simp only [codesClient, Except.ok.injEq] at found
    subst found
    split at nonempty
    next known =>
      obtain ⟨rfl, rfl⟩ := known
      decide
    next => exact absurd rfl nonempty
  fields select rows found row member place text value := by
    cases found
    obtain ⟨listed, inCodes, rfl⟩ := List.mem_map.mp member
    dsimp only at value
    split at value
    next =>
      cases value
      exact short _ inCodes
    next => cases value

theorem snapshot_survives_one_row :
    Survives emptyStore 7 1 [codeEvent "a"] ↔
      (["public.codes"].map fun table => (tableRows (codesClient ["a"]) table).length).sum ≤ 1 ∧ 1 < 2 ^ 56 :=
  snapshot_survives_iff (codesClient ["a"]) (codesClient_limits (by decide)) ⟨["public.codes"]⟩ 7
    [codeEvent "a"] (by decide) emptyStore .empty rfl 1

end Nendi.Verified
