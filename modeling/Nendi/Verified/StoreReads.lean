import Nendi.Core.Gc
import Nendi.Core.ReadFilter
import Nendi.Verified.EventLog

/-! # Keys and pages of the store

Four pieces of code look at a stored key: the order of the column family, the seek of
`read_from`, the compaction filter and the read filter.  Two compare bytes and two decode;
`stored_keys_agree` says that all of them see the same `(lsn, xid)`.

A read is then a page of the log.  The loop of `read_from` looks at the limit behind each
push, so a limit of zero is taken for one; and a limit that no vector can have panics. -/

namespace Nendi.Verified

open Nendi.Lib Nendi.Shared Nendi.Core

/-! ## Keys -/

theorem makeKey_eq (event : ChangeEvent) : makeKey event = keyBytes (eventKey event) := rfl

theorem makeKey_lt_iff (first second : ChangeEvent) :
    makeKey first < makeKey second ↔ eventKey first < eventKey second := by
  rw [makeKey_eq, makeKey_eq, keyBytes_lt_iff]

theorem makeKey_eq_iff (first second : ChangeEvent) :
    makeKey first = makeKey second ↔ eventKey first = eventKey second := by
  rw [makeKey_eq, makeKey_eq]
  exact keyBytes_strictMono.injective.eq_iff

theorem start_le_makeKey_iff (start : Lsn) (event : ChangeEvent) :
    start.toBeBytes ≤ makeKey event ↔ start ≤ event.lsn := by
  rw [← not_lt, ← not_lt, makeKey_eq, keyBytes_lt_start_iff]
  rfl

theorem removes_makeKey_iff (watermark : Lsn) (event : ChangeEvent) :
    (EventGcFilter.new watermark).filter (makeKey event) = .remove ↔ event.lsn < watermark := by
  have kept := EventGcFilter.filter_makeKey watermark event
  cases decision : (EventGcFilter.new watermark).filter (makeKey event) with
  | keep =>
    have notBelow : watermark ≤ event.lsn := kept.mp decision
    exact ⟨nofun, fun below => absurd below (not_lt.mpr notBelow)⟩
  | remove =>
    have below : ¬ watermark ≤ event.lsn := fun notBelow => by
      rw [kept.mpr notBelow] at decision
      cases decision
    exact ⟨fun _ => not_le.mp below, fun _ => rfl⟩

/-- Byte comparison, seeking, compaction and prefiltering agree with the numbers, compared
    LSN first, and the prefilter drops no event that the filter accepts. -/
theorem stored_keys_agree (first second : ChangeEvent) (start watermark lo hi : Lsn) (filter : ReadFilter) :
    (makeKey first < makeKey second ↔ eventKey first < eventKey second) ∧
      (makeKey first = makeKey second ↔ eventKey first = eventKey second) ∧
      (start.toBeBytes ≤ makeKey first ↔ start ≤ first.lsn) ∧
      ((EventGcFilter.new watermark).filter (makeKey first) = .remove ↔ first.lsn < watermark) ∧
      ((filter.withLsnRange lo hi).keyMightMatch (makeKey first) = true ↔
        lo ≤ first.lsn ∧ first.lsn ≤ hi) ∧
      (filter.accept first = true → filter.keyMightMatch (makeKey first) = true) := by
  refine ⟨makeKey_lt_iff first second, makeKey_eq_iff first second, start_le_makeKey_iff start first,
    removes_makeKey_iff watermark first, (filter.withLsnRange lo hi).keyMightMatch_makeKey first, ?_⟩
  intro accepted
  exact (filter.keyMightMatch_makeKey first).mpr (ReadFilter.lsn_of_accept accepted)

/-! ## Pages -/

/-- The events a store holds from `start` on, in the order of their keys: of each key the
    one written last. -/
structure StoredFrom (written : List ChangeEvent) (start : Lsn) (stored : List ChangeEvent) : Prop where
  sorted : stored.Pairwise fun first second => eventKey first < eventKey second
  mem_iff : ∀ event, event ∈ stored ↔ LastWith eventKey written event ∧ start ≤ event.lsn

theorem storedFrom_log {written : List ChangeEvent} (fit : ∀ event ∈ written, event.Fits) (start : Lsn) :
    StoredFrom written start ((EventLog.empty.write written fit).from_ start) := by
  refine ⟨EventLog.from_sorted _ start, ?_⟩
  intro event
  rw [EventLog.from_, List.mem_filter, EventLog.mem_write_empty, decide_eq_true_iff]

theorem StoredFrom.eq_nil_iff {written stored : List ChangeEvent} {start : Lsn}
    (isStored : StoredFrom written start stored) : stored = [] ↔ ∀ event ∈ written, event.lsn < start := by
  constructor
  · intro empty event member
    obtain ⟨last, isLast, sameKey⟩ := exists_lastWith eventKey member
    have sameLsn : last.lsn = event.lsn := congrArg (fun key => (ofLex key).1) sameKey
    by_contra notBelow
    have present := (isStored.mem_iff last).mpr ⟨isLast, sameLsn ▸ not_lt.mp notBelow⟩
    rw [empty] at present
    cases present
  · intro below
    rw [List.eq_nil_iff_forall_not_mem]
    intro event member
    obtain ⟨isLast, reached⟩ := (isStored.mem_iff event).mp member
    exact absurd reached (not_le.mpr (below event isLast.mem))

theorem take_max_one_iff {α : Type} (items : List α) (limit : Nat) :
    items.take (max limit 1) = items.take (min limit items.length) ↔ 0 < limit ∨ items = [] := by
  rw [List.take_eq_take_iff, ← List.length_eq_zero_iff]
  omega

/-- A read returns the first `limit` events from `start` on, exactly if a vector can have the
    limit for its capacity, and it is not zero or there is no event. -/
theorem readFrom_exact_iff (store written : TenantStore) (batches : List WriteBatch) (start : Lsn)
    (limit : Nat) (opened : store.columnFamily = some .empty)
    (fit : ∀ event ∈ batches.flatMap WriteBatch.events, event.Fits)
    (wrote : store.writeBatches batches = .ok written) :
    ∃ stored, StoredFrom (batches.flatMap WriteBatch.events) start stored ∧
      (written.readFrom start limit = .ok (stored.take (min limit stored.length)) ↔
        limit < 2 ^ 56 ∧ (0 < limit ∨ ∀ event ∈ batches.flatMap WriteBatch.events, event.lsn < start)) := by
  have holds : Holds store .empty := opened
  have holdsWritten := writeBatches_log holds fit wrote
  have isStored := storedFrom_log fit start
  refine ⟨_, isStored, ?_⟩
  rw [← isStored.eq_nil_iff, ← take_max_one_iff]
  constructor
  · intro read
    obtain ⟨small, page⟩ := readFrom_log_eq_ok holdsWritten read
    exact ⟨small, page.symm⟩
  · rintro ⟨small, same⟩
    rw [readFrom_log holdsWritten start small, same]

/-- One event in the store and a limit of zero. -/
theorem zero_limit_returns_event :
    ∃ written, emptyStore.writeBatches [WriteBatch.new.push (orderInsert 7 1)] = .ok written ∧
      written.readFrom 0 0 = .ok [orderInsert 7 1] := by
  obtain ⟨written, wrote⟩ := TenantStore.writeBatches_succeeds (show emptyStore.columnFamily = some .empty from rfl)
    [WriteBatch.new.push (orderInsert 7 1)]
  have holds : Holds emptyStore .empty := rfl
  refine ⟨written, wrote, ?_⟩
  rw [readFrom_log (writeBatches_log holds (by decide) wrote) 0 (by decide)]
  rfl

theorem readFrom_exact_one_event :
    ∃ written stored, emptyStore.writeBatches [WriteBatch.new.push (orderInsert 7 1)] = .ok written ∧
      StoredFrom [orderInsert 7 1] 5 stored ∧
      written.readFrom 5 3 = .ok (stored.take (min 3 stored.length)) := by
  obtain ⟨written, wrote⟩ := TenantStore.writeBatches_succeeds (show emptyStore.columnFamily = some .empty from rfl)
    [WriteBatch.new.push (orderInsert 7 1)]
  obtain ⟨stored, isStored, exact_⟩ := readFrom_exact_iff emptyStore written _ 5 3 rfl (by decide) wrote
  exact ⟨written, stored, wrote, isStored, exact_.mpr ⟨by decide, .inl (by decide)⟩⟩

end Nendi.Verified
