import Nendi.Verified.PipelineConservation
import Nendi.Verified.EventLog

/-! # From push to read without loss

The four layers together: what producers push into the ring comes back from the
store, each event once and unchanged, in ascending `(lsn, xid)` order, unless the read asks
for more events than can be allocated. -/

namespace Nendi.Verified

open Nendi.Lib Nendi.Shared Nendi.Core

/-! ## The end of a run -/

theorem pop_returns_empty {system next : Pipeline} {output : Output}
    (stepped : system.step .pop = some (next, output)) (returned : next.draining = none) :
    next.coordinator.ring.items = [] := by
  -- `drain_ring` returns only on an empty ring
  obtain ⟨count, _, moved | emptied⟩ := Pipeline.step_pop_eq_some stepped
  · obtain ⟨event, ring, _, rfl, _⟩ := moved
    cases returned
  · obtain ⟨items, rfl, _⟩ := emptied
    exact items

theorem forceFlush_step {system next : Pipeline} {flushedAt : Instant} {output : Output}
    (stepped : system.step (.forceFlush flushedAt) = some (next, output)) :
    system.draining = none ∧ next.coordinator.ring = system.coordinator.ring ∧
      next.coordinator.currentBatch.events = [] := by
  obtain ⟨between, rfl, _⟩ := Pipeline.step_forceFlush_eq_some stepped
  have sameRing : (system.coordinator.forceFlush flushedAt).2.ring = system.coordinator.ring := by
    obtain ⟨_, flushed⟩ | kept := system.coordinator.forceFlush_flushesFrom flushedAt
    · rw [flushed]
      rfl
    · rw [kept]
  exact ⟨between, sameRing, system.coordinator.forceFlush_empties flushedAt⟩

/-- After a drain and a forced flush every accepted event is in a returned batch. -/
theorem drained_run_returns_all {ring : RingBuffer ChangeEvent} {policy : FlushPolicy}
    {actions : List Action} {flushedAt : Instant} {final : Pipeline} {history : List (Action × Output)}
    (fresh : ring.items = [])
    (ran : run Pipeline.step (.start ring policy) (actions ++ [.pop, .forceFlush flushedAt]) =
      some (final, history)) :
    (returnedBatches history).flatMap WriteBatch.events = accepted history := by
  obtain ⟨spelled, _⟩ := conserves_run fresh ran
  obtain ⟨before, _, _, _, ranLast, _⟩ := run_append_eq_some ran
  obtain ⟨drained, _, _, popped, ranFlush, _⟩ := run_cons_eq_some ranLast
  obtain ⟨flushed, _, _, forced, ranNil, _⟩ := run_cons_eq_some ranFlush
  simp only [run_nil, Option.some.injEq, Prod.mk.injEq] at ranNil
  obtain ⟨rfl, _⟩ := ranNil
  obtain ⟨returned, sameRing, batchEmpty⟩ := forceFlush_step forced
  have ringEmpty := pop_returns_empty popped returned
  rwa [batchEmpty, sameRing, ringEmpty, List.append_nil, List.append_nil] at spelled

/-! ## The composition -/

def Before (first second : ChangeEvent) : Prop :=
  first.lsn < second.lsn ∨ first.lsn = second.lsn ∧ first.xid < second.xid

theorem eventKey_lt_iff (first second : ChangeEvent) :
    eventKey first < eventKey second ↔ Before first second :=
  Prod.Lex.lt_iff

theorem eventKey_inj {first second : ChangeEvent} (same : eventKey first = eventKey second) :
    (first.lsn, first.xid) = (second.lsn, second.xid) :=
  toLex.injective same

theorem from_zero (log : EventLog) : log.from_ Lsn.zero = log.events := by
  apply List.filter_eq_self.mpr
  intro event _
  simp [Lsn.zero]

theorem read_back_sorted {store written : TenantStore} {batches : List WriteBatch}
    {events : List ChangeEvent} (emptyStore : store.columnFamily = some .empty)
    (content : (batches.flatMap WriteBatch.events).Perm events)
    (fit : ∀ event ∈ events, event.Fits) (distinct : (events.map eventKey).Nodup)
    (wrote : store.writeBatches batches = .ok written) {limit : Nat} (enough : events.length ≤ limit)
    (small : limit < 2 ^ 56) :
    ∃ result, written.readFrom Lsn.zero limit = .ok result ∧ result.Perm events ∧
      result.Pairwise Before := by
  have batchesFit : ∀ event ∈ batches.flatMap WriteBatch.events, event.Fits := fun event member =>
    fit event (content.subset member)
  have holds : Holds store EventLog.empty := emptyStore
  have log := writeBatches_log holds batchesFit wrote
  have stored := EventLog.empty.write_perm batchesFit ((content.map eventKey).nodup_iff.mpr distinct)
    (by simp)
  have whole : (EventLog.empty.write _ batchesFit).events.Perm events := stored.trans content
  -- the limit cuts nothing off, so what is read is the whole log in its order
  refine ⟨_, readFrom_log log Lsn.zero small, ?_, ?_⟩
  · rw [from_zero, List.take_of_length_le (by rw [whole.length_eq]; omega)]
    exact whole
  · rw [from_zero]
    apply ((EventLog.events_sorted _).imp _).sublist (List.take_sublist _ _)
    intro first second less
    exact (eventKey_lt_iff first second).mp less

/-- End to end: in every run that closes with a completed drain and a forced
    flush, with every returned batch written once to an empty store, reading from
    the first LSN returns exactly the accepted events in ascending order, if and only if
    a vector can have the limit for its capacity. -/
theorem end_to_end_no_loss_iff (capacity : Nat) (positive : 0 < capacity) (policy : FlushPolicy)
    (actions : List Action) (flushedAt : Instant) (final : Pipeline) (history : List (Action × Output))
    (ran : run Pipeline.step (.start (.new capacity positive) policy)
      (actions ++ [.pop, .forceFlush flushedAt]) = some (final, history))
    (fit : ∀ event ∈ accepted history, event.Fits)
    (distinct : (accepted history).Pairwise fun first second =>
      (first.lsn, first.xid) ≠ (second.lsn, second.xid))
    (store written : TenantStore) (emptyStore : store.columnFamily = some .empty)
    (batches : List WriteBatch) (once : batches.Perm (returnedBatches history))
    (wrote : store.writeBatches batches = .ok written)
    (n : Nat) (enough : (accepted history).length ≤ n) :
    (∃ result, written.readFrom Lsn.zero n = .ok result ∧ result.Perm (accepted history) ∧
      result.Pairwise Before) ↔ n < 2 ^ 56 := by
  have content : (batches.flatMap WriteBatch.events).Perm (accepted history) := by
    rw [← drained_run_returns_all rfl ran]
    exact once.flatMap_right _
  have distinctKeys : ((accepted history).map eventKey).Nodup := by
    rw [List.Nodup, List.pairwise_map]
    exact distinct.imp fun different same => different (eventKey_inj same)
  constructor
  · rintro ⟨result, read, _, _⟩
    by_contra huge
    rw [TenantStore.readFrom_panics (TenantStore.writeBatches_columnFamily emptyStore wrote) _ (not_lt.mp huge)] at read
    cases read
  · exact read_back_sorted emptyStore content fit distinctKeys wrote enough

/-- Two events pushed against LSN order, drained and flushed. -/
def twoPushes : List Action :=
  [.push 0 (orderInsert 9 1), .push 1 (orderInsert 7 2), .beginDrain, .pop, .pop]

theorem twoPushes_run :
    ∃ final history, run Pipeline.step (.start (.new 2 (by decide)) (.new 0 0 0))
        (twoPushes ++ [.pop, .forceFlush 5]) = some (final, history) ∧
      accepted history = [orderInsert 9 1, orderInsert 7 2] := by
  obtain ⟨⟨final, history⟩, ran⟩ := Option.isSome_iff_exists.mp (show (run Pipeline.step
    (.start (.new 2 (by decide)) (.new 0 0 0)) (twoPushes ++ [.pop, .forceFlush 5])).isSome by decide)
  have pushed : (run Pipeline.step (.start (.new 2 (by decide)) (.new 0 0 0))
      (twoPushes ++ [.pop, .forceFlush 5])).map (fun ended => accepted ended.2) =
      some [orderInsert 9 1, orderInsert 7 2] := by decide
  rw [ran, Option.map_some, Option.some.injEq] at pushed
  exact ⟨final, history, ran, pushed⟩

/-- Both events are stored, but a caller that asks for all there are with `usize::MAX` panics. -/
theorem unlimited_read_panics :
    ∃ final history written,
      run Pipeline.step (.start (.new 2 (by decide)) (.new 0 0 0))
        (twoPushes ++ [.pop, .forceFlush 5]) = some (final, history) ∧
      accepted history = [orderInsert 9 1, orderInsert 7 2] ∧
      emptyStore.writeBatches (returnedBatches history) = .ok written ∧
      written.readFrom Lsn.zero (2 ^ 64 - 1) = .error .panic := by
  obtain ⟨final, history, ran, pushed⟩ := twoPushes_run
  have isEmpty : emptyStore.columnFamily = some .empty := rfl
  obtain ⟨written, wrote⟩ := TenantStore.writeBatches_succeeds isEmpty (returnedBatches history)
  exact ⟨final, history, written, ran, pushed, wrote,
    TenantStore.readFrom_panics (TenantStore.writeBatches_columnFamily isEmpty wrote) _ (by decide)⟩

theorem end_to_end_no_loss_two_pushes :
    ∃ final history written result,
      run Pipeline.step (.start (.new 2 (by decide)) (.new 0 0 0))
        (twoPushes ++ [.pop, .forceFlush 5]) = some (final, history) ∧
      accepted history = [orderInsert 9 1, orderInsert 7 2] ∧
      emptyStore.writeBatches (returnedBatches history) = .ok written ∧
      written.readFrom Lsn.zero 2 = .ok result ∧ result.Perm (accepted history) ∧
      result.Pairwise Before := by
  obtain ⟨final, history, ran, pushed⟩ := twoPushes_run
  have isEmpty : emptyStore.columnFamily = some .empty := rfl
  obtain ⟨written, wrote⟩ := TenantStore.writeBatches_succeeds isEmpty (returnedBatches history)
  obtain ⟨result, read, whole, sorted⟩ := (end_to_end_no_loss_iff 2 (by decide) _ twoPushes 5 final history
    ran (by rw [pushed]; decide) (by rw [pushed]; decide) emptyStore written isEmpty
    (returnedBatches history) (.refl _) wrote 2 (by rw [pushed]; decide)).mpr (by decide)
  exact ⟨final, history, written, result, ran, pushed, wrote, read, whole, sorted⟩

end Nendi.Verified
