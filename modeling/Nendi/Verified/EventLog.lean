import Mathlib.Data.Prod.Lex
import Nendi.Core.Tenant
import Nendi.Verified.ProtoRoundTrip

/-! # The store is an event log

What the tenant store is for, without bytes: a log of change events with one
event for each `(lsn, xid)`, read in ascending order from a given LSN.  The
column family a tenant writes is the byte image of such a log: `keyBytes` keeps
the order of keys, the codec keeps the events, and `writeBatches_log` and
`readFrom_log` say that the store's operations are the log's. -/

namespace Nendi.Verified

open Nendi.Lib Nendi.Shared Nendi.Core

/-! ## Keys -/

abbrev EventKey := UInt64 ×ₗ UInt32

def eventKey (event : ChangeEvent) : EventKey := toLex (event.lsn, event.xid)

def keyBytes (key : EventKey) : List UInt8 := (ofLex key).1.toBeBytes ++ (ofLex key).2.toBeBytes

theorem toBeBytes_injective {first second : UInt64} (equal : first.toBeBytes = second.toBeBytes) :
    first = second := by
  have decoded := congrArg UInt64.ofBeBytes equal
  simpa using decoded

/-- Bytewise order of keys is the order of `(lsn, xid)`. -/
theorem keyBytes_lt_iff (first second : EventKey) : keyBytes first < keyBytes second ↔ first < second := by
  rw [keyBytes, keyBytes, prefix_lt_iff (by simp), UInt64.toBeBytes_lt_iff, UInt32.toBeBytes_lt_iff,
    Prod.Lex.lt_iff]
  constructor
  · rintro (less | ⟨same, less⟩)
    · exact .inl less
    · exact .inr ⟨toBeBytes_injective same, less⟩
  · rintro (less | ⟨same, less⟩)
    · exact .inl less
    · exact .inr ⟨by rw [same], less⟩

theorem keyBytes_strictMono : StrictMono keyBytes := fun first second less =>
  (keyBytes_lt_iff first second).mpr less

theorem keyBytes_lt_start_iff (key : EventKey) (start : Lsn) :
    keyBytes key < start.toBeBytes ↔ (ofLex key).1 < start := by
  -- the eight-byte seek key lies above exactly the keys of smaller LSNs
  rw [keyBytes, append_lt_iff (by simp), UInt64.toBeBytes_lt_iff]

/-! ## Logs -/

/-- Events stored under their own key, all of them representable. -/
structure EventLog where
  map : OrdMap EventKey ChangeEvent
  keyed : ∀ entry ∈ map.entries, entry.1 = eventKey entry.2
  fits : ∀ entry ∈ map.entries, entry.2.Fits

namespace EventLog

def empty : EventLog := ⟨.empty, by simp, by simp⟩

def events (log : EventLog) : List ChangeEvent := log.map.entries.map Prod.snd

@[simp] theorem empty_events : empty.events = [] := rfl

def keyedPairs (events : List ChangeEvent) : List (EventKey × ChangeEvent) :=
  events.map fun event => (eventKey event, event)

theorem mem_insertAll {map : OrdMap EventKey ChangeEvent} {events : List ChangeEvent}
    {entry : EventKey × ChangeEvent} (member : entry ∈ (map.insertAll (keyedPairs events)).entries) :
    entry ∈ map.entries ∨ entry ∈ keyedPairs events := by
  obtain isLast | ⟨old, _⟩ := (map.mem_insertAll _ entry).mp member
  · exact .inr isLast.mem
  · exact .inl old

/-- Store events in turn, a later one replacing an earlier one of the same key. -/
def write (log : EventLog) (events : List ChangeEvent) (fit : ∀ event ∈ events, event.Fits) :
    EventLog where
  map := log.map.insertAll (keyedPairs events)
  keyed entry member := by
    cases mem_insertAll member with
    | inl old => exact log.keyed entry old
    | inr new =>
      obtain ⟨event, _, rfl⟩ := List.mem_map.mp new
      rfl
  fits entry member := by
    cases mem_insertAll member with
    | inl old => exact log.fits entry old
    | inr new =>
      obtain ⟨event, inEvents, rfl⟩ := List.mem_map.mp new
      exact fit event inEvents

def from_ (log : EventLog) (start : Lsn) : List ChangeEvent :=
  log.events.filter fun event => decide (start ≤ event.lsn)

/-- The column family that holds the log. -/
def image (log : EventLog) : ColumnFamily :=
  log.map.mapEntries keyBytes keyBytes_strictMono encodeEvent

/-! ## Order and content -/

theorem events_sorted (log : EventLog) :
    log.events.Pairwise fun first second => eventKey first < eventKey second := by
  rw [events, List.pairwise_map]
  refine log.map.sorted.imp_of_mem ?_
  intro first second firstIn secondIn less
  rwa [log.keyed first firstIn, log.keyed second secondIn] at less

theorem from_sorted (log : EventLog) (start : Lsn) :
    (log.from_ start).Pairwise fun first second => eventKey first < eventKey second :=
  log.events_sorted.filter _

theorem mem_events {log : EventLog} {event : ChangeEvent} :
    event ∈ log.events ↔ (eventKey event, event) ∈ log.map.entries := by
  constructor
  · intro member
    obtain ⟨entry, inMap, rfl⟩ := List.mem_map.mp member
    rwa [← log.keyed entry inMap]
  · intro inMap
    exact List.mem_map.mpr ⟨_, inMap, rfl⟩

theorem lastWith_keyedPairs (events : List ChangeEvent) (event : ChangeEvent) :
    LastWith Prod.fst (keyedPairs events) (eventKey event, event) ↔ LastWith eventKey events event := by
  induction events using List.reverseRecOn with
  | nil => simp [LastWith, keyedPairs]
  | append_singleton events last inductionHypothesis =>
    have pairs : keyedPairs (events ++ [last]) = keyedPairs events ++ [(eventKey last, last)] := by
      simp [keyedPairs]
    have same : (eventKey event, event) = (eventKey last, last) ↔ event = last :=
      ⟨fun equal => congrArg Prod.snd equal, fun equal => by rw [equal]⟩
    rw [pairs, lastWith_snoc, lastWith_snoc, inductionHypothesis, same]

theorem mem_write_empty {events : List ChangeEvent} (fit : ∀ event ∈ events, event.Fits)
    (event : ChangeEvent) : event ∈ (empty.write events fit).events ↔ LastWith eventKey events event := by
  rw [mem_events, ← lastWith_keyedPairs, write, OrdMap.mem_insertAll]
  simp [empty]

theorem write_perm (log : EventLog) {events : List ChangeEvent} (fit : ∀ event ∈ events, event.Fits)
    (distinct : (events.map eventKey).Nodup)
    (fresh : ∀ event ∈ log.events, eventKey event ∉ events.map eventKey) :
    (log.write events fit).events.Perm (log.events ++ events) := by
  have keys : (keyedPairs events).map Prod.fst = events.map eventKey := by
    simp [keyedPairs]
  have values : (keyedPairs events).map Prod.snd = events := by
    simp [keyedPairs, Function.comp_def]
  have added : (log.map.insertAll (keyedPairs events)).entries.Perm
      (log.map.entries ++ keyedPairs events) := by
    apply OrdMap.insertAll_perm
    · rwa [keys]
    · intro entry member
      rw [keys, log.keyed entry member]
      exact fresh entry.2 (List.mem_map_of_mem member)
  have projected := added.map Prod.snd
  rwa [List.map_append, values] at projected

end EventLog

/-! ## The store's operations are the log's -/

/-- `store` holds `log` for its tenant. -/
def Holds (store : TenantStore) (log : EventLog) : Prop := store.columnFamily = some log.image

def emptyStore : TenantStore := ⟨AList.singleton "tenant_default" .empty, ⟨"default"⟩⟩

example : Holds emptyStore .empty := rfl

theorem writeBatches_log {store written : TenantStore} {log : EventLog} {batches : List WriteBatch}
    (holds : Holds store log)
    (fit : ∀ event ∈ batches.flatMap WriteBatch.events, event.Fits)
    (wrote : store.writeBatches batches = .ok written) :
    Holds written (log.write (batches.flatMap WriteBatch.events) fit) := by
  rw [Holds, TenantStore.writeBatches_columnFamily holds wrote]
  congr 1
  -- the byte image of the log's puts is the list of puts the store makes
  rw [EventLog.image, EventLog.image, EventLog.write, OrdMap.mapEntries_insertAll, EventLog.keyedPairs,
    List.map_map]
  rfl

/-- Over values that decode, the loop of `read_from` takes a prefix: it stops at
    the limit, but only after its first event. -/
theorem readLoop_decodable (limit : Nat) (entries : List (List UInt8 × List UInt8))
    (taken stored : List ChangeEvent)
    (decodes : entries.map (fun entry => decodeEvent entry.2) = stored.map .ok)
    (room : taken.length < max limit 1) :
    TenantStore.readLoop limit taken entries =
      .ok (taken ++ stored.take (max limit 1 - taken.length)) := by
  induction entries generalizing taken stored with
  | nil =>
    cases stored with
    | nil => simp [TenantStore.readLoop]
    | cons event stored => simp at decodes
  | cons entry entries inductionHypothesis =>
    cases stored with
    | nil => simp at decodes
    | cons event stored =>
      simp only [List.map_cons, List.cons.injEq] at decodes
      obtain ⟨headDecodes, tailDecodes⟩ := decodes
      rw [TenantStore.readLoop, headDecodes]
      simp only [List.length_append, List.length_singleton]
      -- the limit is looked at behind the push, so there is always room for this one
      have more : max limit 1 - taken.length = (max limit 1 - (taken.length + 1)) + 1 := by omega
      by_cases reached : taken.length + 1 ≥ limit
      · have done : max limit 1 - (taken.length + 1) = 0 := by omega
        rw [if_pos reached, more, done]
        simp
      · rw [if_neg reached, inductionHypothesis (taken ++ [event]) stored tailDecodes
          (by simp only [List.length_append, List.length_singleton]; omega), more]
        simp

/-- Reading from `start` returns the stored events from `start` on, cut at the
    limit, where a limit of zero still returns one event. -/
theorem readFrom_log {store : TenantStore} {log : EventLog} (holds : Holds store log) (start : Lsn)
    {limit : Nat} (small : limit < 2 ^ 56) :
    store.readFrom start limit = .ok ((log.from_ start).take (max limit 1)) := by
  -- the bare LSN sorts like the key with the least xid
  have seeks : ∀ key : EventKey, keyBytes key < start.toBeBytes ↔ key < toLex (start, 0) := by
    intro key
    rw [keyBytes_lt_start_iff, Prod.Lex.lt_iff]
    simp
  have stored : log.from_ start = (log.map.seek (toLex (start, 0))).map Prod.snd := by
    rw [EventLog.from_, EventLog.events, List.filter_map, OrdMap.seek]
    congr 1
    apply List.filter_congr
    intro entry member
    have key := log.keyed entry member
    simp only [Function.comp, ← seeks, keyBytes_lt_start_iff, key, eventKey, not_lt]
    rfl
  rw [TenantStore.readFrom_of_fits holds start small, EventLog.image,
    OrdMap.mapEntries_seek keyBytes_strictMono encodeEvent log.map seeks,
    readLoop_decodable limit _ [] (log.from_ start) _ (by simp)]
  · simp
  · rw [stored, List.map_map, List.map_map]
    apply List.map_congr_left
    intro entry member
    exact decodeEvent_encodeEvent (log.fits entry ((log.map.mem_seek _ entry).mp member).1)

theorem readFrom_log_eq_ok {store : TenantStore} {log : EventLog} (holds : Holds store log) {start : Lsn} {limit : Nat}
    {page : List ChangeEvent} (read : store.readFrom start limit = .ok page) :
    limit < 2 ^ 56 ∧ page = (log.from_ start).take (max limit 1) := by
  by_cases small : limit < 2 ^ 56
  · rw [readFrom_log holds start small, Except.ok.injEq] at read
    exact ⟨small, read.symm⟩
  · rw [TenantStore.readFrom_panics holds start (not_lt.mp small)] at read
    cases read

end Nendi.Verified
