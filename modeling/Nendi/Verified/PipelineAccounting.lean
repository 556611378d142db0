import Mathlib.Order.Bounds.Basic
import Nendi.Lib.BigEndian
import Nendi.Verified.PipelineConservation

/-! # The pipeline's counters

Five counters in three structures are moved by hand on a push, on the return of a drain
and on both ways of flushing.  `Balanced` compares each of them with what it stands for;
it holds in the middle of a drain too, where the events moved so far are in the drain's
own count. -/

namespace Nendi.Verified

open Nendi.Lib Nendi.Shared Nendi.Core

/-! ## Batches -/

def estimatedSizes (events : List ChangeEvent) : Nat := (events.map fun event => event.estimatedSize.toNat).sum

def lsns (batch : WriteBatch) : Set Lsn := {lsn | ∃ event ∈ batch.events, event.lsn = lsn}

/-- What a batch says about its events.  The LSNs start at the two sentinels. -/
structure Measured (batch : WriteBatch) : Prop where
  size : batch.totalBytes = UInt64.ofNat (estimatedSizes batch.events)
  least : IsLeast (insert Lsn.max (lsns batch)) batch.minLsn
  greatest : IsGreatest (insert Lsn.zero (lsns batch)) batch.maxLsn

theorem estimatedSizes_snoc (events : List ChangeEvent) (event : ChangeEvent) :
    estimatedSizes (events ++ [event]) = estimatedSizes events + event.estimatedSize.toNat := by
  simp [estimatedSizes]

theorem lsns_new : lsns .new = ∅ := by simp [lsns]

theorem lsns_push (batch : WriteBatch) (event : ChangeEvent) :
    lsns (batch.push event) = insert event.lsn (lsns batch) := by
  ext lsn
  simp only [lsns, WriteBatch.push, List.mem_append, List.mem_singleton, Set.mem_ofPred_eq, Set.mem_insert_iff]
  constructor
  · rintro ⟨other, earlier | rfl, rfl⟩
    · exact .inr ⟨other, earlier, rfl⟩
    · exact .inl rfl
  · rintro (rfl | ⟨other, earlier, rfl⟩)
    · exact ⟨event, .inr rfl, rfl⟩
    · exact ⟨other, .inl earlier, rfl⟩

theorem measured_new : Measured .new := by
  refine ⟨rfl, ?_, ?_⟩
  · simp only [lsns_new, insert_empty_eq]
    exact isLeast_singleton
  · simp only [lsns_new, insert_empty_eq]
    exact isGreatest_singleton

theorem Measured.push {batch : WriteBatch} (measured : Measured batch) (event : ChangeEvent) :
    Measured (batch.push event) := by
  constructor
  case size =>
    show batch.totalBytes + event.estimatedSize = UInt64.ofNat (estimatedSizes (batch.events ++ [event]))
    rw [estimatedSizes_snoc, UInt64.ofNat_add, UInt64.ofNat_toNat, measured.size]
  case least =>
    rw [lsns_push, Set.insert_comm]
    show IsLeast _ (if event.lsn < batch.minLsn then event.lsn else batch.minLsn)
    rw [← min_def_lt]
    exact measured.least.insert event.lsn
  case greatest =>
    rw [lsns_push, Set.insert_comm]
    show IsGreatest _ (if batch.maxLsn < event.lsn then event.lsn else batch.maxLsn)
    rw [← max_def_lt, max_comm]
    exact measured.greatest.insert event.lsn

theorem isLeast_of_insert {α : Type} [LinearOrder α] {sentinel least : α} {set : Set α}
    (isTop : ∀ value, value ≤ sentinel) (isLeast : IsLeast (insert sentinel set) least)
    (nonempty : set.Nonempty) : IsLeast set least := by
  refine ⟨?_, fun value member => isLeast.2 (Set.mem_insert_of_mem _ member)⟩
  obtain rfl | attained := isLeast.1
  · obtain ⟨value, member⟩ := nonempty
    have same := le_antisymm (isTop value) (isLeast.2 (Set.mem_insert_of_mem _ member))
    exact same ▸ member
  · exact attained

theorem Measured.spans {batch : WriteBatch} (measured : Measured batch) (nonempty : batch.events ≠ []) :
    IsLeast (lsns batch) batch.minLsn ∧ IsGreatest (lsns batch) batch.maxLsn := by
  obtain ⟨event, member⟩ := List.exists_mem_of_ne_nil _ nonempty
  have present : (lsns batch).Nonempty := ⟨event.lsn, event, member, rfl⟩
  have belowMax : ∀ lsn : Lsn, lsn ≤ Lsn.max := by
    intro lsn
    rw [UInt64.le_iff_toNat_le]
    exact Nat.le_of_lt_succ lsn.toNat_lt
  have aboveZero : ∀ lsn : Lsn, Lsn.zero ≤ lsn := by
    intro lsn
    rw [UInt64.le_iff_toNat_le]
    exact Nat.zero_le _
  -- the greatest LSN is the least one of the dual order
  exact ⟨isLeast_of_insert belowMax measured.least present,
    isLeast_of_insert (α := Lsnᵒᵈ) aboveZero measured.greatest present⟩

/-! ## The invariant -/

def eventCount (history : List (Action × Output)) (system : Pipeline) : Nat :=
  ((returnedBatches history).flatMap WriteBatch.events).length + system.coordinator.currentBatch.events.length

/-- Every counter is, up to wrapping, what it stands for. -/
structure Balanced (history : List (Action × Output)) (system : Pipeline) : Prop where
  bytes : system.coordinator.flushPolicy.currentBytes = system.coordinator.currentBatch.totalBytes
  processed : system.coordinator.eventsProcessed + system.draining.getD 0 =
    UInt64.ofNat (eventCount history system)
  flushed : system.coordinator.batchesFlushed = UInt64.ofNat (returnedBatches history).length
  counted : system.coordinator.flushPolicy.flushCount = system.coordinator.batchesFlushed
  current : Measured system.coordinator.currentBatch
  returned : ∀ batch ∈ returnedBatches history, Measured batch

section Steps

variable {past : List (Action × Output)} {system : Pipeline} {action : Action} {output : Output}

theorem Balanced.quiet {next : Pipeline} (balanced : Balanced past system)
    (nothingReturned : returnedBatches [(action, output)] = [])
    (sameBatch : next.coordinator.currentBatch = system.coordinator.currentBatch)
    (samePolicy : next.coordinator.flushPolicy = system.coordinator.flushPolicy)
    (sameFlushed : next.coordinator.batchesFlushed = system.coordinator.batchesFlushed)
    (sameProcessed : next.coordinator.eventsProcessed + next.draining.getD 0 =
      system.coordinator.eventsProcessed + system.draining.getD 0) :
    Balanced (past ++ [(action, output)]) next := by
  have sameReturned : returnedBatches (past ++ [(action, output)]) = returnedBatches past := by
    rw [returnedBatches_append, nothingReturned, List.append_nil]
  constructor
  case bytes => rw [samePolicy, sameBatch, balanced.bytes]
  case processed => rw [sameProcessed, balanced.processed, eventCount, eventCount, sameReturned, sameBatch]
  case flushed => rw [sameFlushed, sameReturned, balanced.flushed]
  case counted => rw [samePolicy, sameFlushed, balanced.counted]
  case current => exact sameBatch ▸ balanced.current
  case returned => exact sameReturned ▸ balanced.returned

theorem Balanced.absorb (balanced : Balanced past system) {count : UInt64}
    (draining : system.draining = some count) (event : ChangeEvent) (ring : RingBuffer ChangeEvent)
    (nothingReturned : returnedBatches [(action, output)] = []) :
    Balanced (past ++ [(action, output)])
      ⟨system.coordinator.absorb event ring, some (count + 1)⟩ := by
  have sameReturned : returnedBatches (past ++ [(action, output)]) = returnedBatches past := by
    rw [returnedBatches_append, nothingReturned, List.append_nil]
  constructor
  case bytes =>
    show system.coordinator.flushPolicy.currentBytes + event.estimatedSize =
      system.coordinator.currentBatch.totalBytes + event.estimatedSize
    rw [balanced.bytes]
  case processed =>
    have before := balanced.processed
    rw [draining, Option.getD_some] at before
    have more : eventCount (past ++ [(action, output)])
        ⟨system.coordinator.absorb event ring, some (count + 1)⟩ = eventCount past system + 1 := by
      simp only [eventCount, sameReturned, PipelineCoordinator.absorb, WriteBatch.push, List.length_append,
        List.length_singleton]
      omega
    rw [more, UInt64.ofNat_add, ← before, Option.getD_some]
    exact (UInt64.add_assoc _ _ _).symm
  case flushed => rw [sameReturned]; exact balanced.flushed
  case counted => exact balanced.counted
  case current => exact balanced.current.push event
  case returned => exact sameReturned ▸ balanced.returned

theorem Balanced.flush (balanced : Balanced past system) (flushedAt : Instant)
    {result : Option WriteBatch × PipelineCoordinator}
    (flushes : system.coordinator.FlushesFrom flushedAt result) :
    Balanced (past ++ [(action, .flushed result.1)]) { system with coordinator := result.2 } := by
  obtain ⟨_, rfl⟩ | rfl := flushes
  · have oneMore : returnedBatches (past ++ [(action, .flushed (some system.coordinator.currentBatch))]) =
        returnedBatches past ++ [system.coordinator.currentBatch] := by
      rw [returnedBatches_append]
      rfl
    constructor
    case bytes => rfl
    case processed =>
      rw [eventCount, oneMore]
      simpa [eventCount, PipelineCoordinator.takeBatch] using balanced.processed
    case flushed =>
      rw [oneMore, List.length_append, UInt64.ofNat_add, ← balanced.flushed]
      rfl
    case counted =>
      show system.coordinator.flushPolicy.flushCount + 1 = system.coordinator.batchesFlushed + 1
      rw [balanced.counted]
    case current => exact measured_new
    case returned =>
      intro batch member
      rw [oneMore, List.mem_append, List.mem_singleton] at member
      obtain earlier | rfl := member
      · exact balanced.returned batch earlier
      · exact balanced.current
  · exact balanced.quiet rfl rfl rfl rfl rfl

end Steps

theorem balanced_step (past : List (Action × Output)) (system : Pipeline) (action : Action)
    (next : Pipeline) (output : Output) (balanced : Balanced past system)
    (stepped : system.step action = some (next, output)) :
    Balanced (past ++ [(action, output)]) next := by
  cases action with
  | push producer event =>
    simp only [Pipeline.step, Option.some.injEq, Prod.mk.injEq] at stepped
    obtain ⟨rfl, rfl⟩ := stepped
    exact balanced.quiet rfl rfl rfl rfl rfl
  | beginDrain =>
    cases draining : system.draining with
    | none =>
      simp only [Pipeline.step, draining, Option.some.injEq, Prod.mk.injEq] at stepped
      obtain ⟨rfl, rfl⟩ := stepped
      exact balanced.quiet rfl rfl rfl rfl (by rw [draining]; rfl)
    | some count => simp [Pipeline.step, draining] at stepped
  | pop =>
    obtain ⟨count, draining, moved | emptied⟩ := Pipeline.step_pop_eq_some stepped
    · obtain ⟨event, ring, _, rfl, rfl⟩ := moved
      exact balanced.absorb draining event ring rfl
    · obtain ⟨_, rfl, rfl⟩ := emptied
      refine balanced.quiet rfl rfl rfl rfl ?_
      rw [draining]
      exact UInt64.add_zero _
  | maybeFlush now flushedAt =>
    obtain ⟨_, rfl, rfl⟩ := Pipeline.step_maybeFlush_eq_some stepped
    exact balanced.flush flushedAt (system.coordinator.maybeFlush_flushesFrom now flushedAt)
  | forceFlush flushedAt =>
    obtain ⟨_, rfl, rfl⟩ := Pipeline.step_forceFlush_eq_some stepped
    exact balanced.flush flushedAt (system.coordinator.forceFlush_flushesFrom flushedAt)

theorem balanced_run {ring : RingBuffer ChangeEvent} {maxBytes maxAgeUs : UInt64} {now : Instant}
    {actions : List Action} {final : Pipeline} {history : List (Action × Output)}
    (ran : run Pipeline.step (.start ring (.new maxBytes maxAgeUs now)) actions = some (final, history)) :
    Balanced history final := by
  have initially : Balanced [] (.start ring (.new maxBytes maxAgeUs now)) :=
    ⟨rfl, rfl, rfl, rfl, measured_new, by simp [returnedBatches]⟩
  exact run_invariant initially balanced_step ran

/-! ## Whole runs -/

/-- The counters of a pipeline at rest, in exact numbers. -/
structure Accounts (history : List (Action × Output)) (system : Pipeline) : Prop where
  bytes : system.coordinator.flushPolicy.currentBytes = system.coordinator.currentBatch.totalBytes
  size : system.coordinator.currentBatch.totalBytes.toNat =
    estimatedSizes system.coordinator.currentBatch.events
  processed : system.coordinator.eventsProcessed.toNat = eventCount history system
  flushed : system.coordinator.batchesFlushed = system.coordinator.flushPolicy.flushCount
  returned : system.coordinator.batchesFlushed.toNat = (returnedBatches history).length
  spans : ∀ batch ∈ returnedBatches history,
    IsLeast (lsns batch) batch.minLsn ∧ IsGreatest (lsns batch) batch.maxLsn

theorem batches_le_events {batches : List WriteBatch} (nonempty : ∀ batch ∈ batches, batch.events ≠ []) :
    batches.length ≤ (batches.flatMap WriteBatch.events).length := by
  induction batches with
  | nil => simp
  | cons batch batches inductionHypothesis =>
    have positive := List.length_pos_iff.mpr (nonempty batch List.mem_cons_self)
    have rest := inductionHypothesis fun other member => nonempty other (List.mem_cons_of_mem _ member)
    simp only [List.length_cons, List.flatMap_cons, List.length_append]
    omega

/-- After every run that is not inside a drain, as long as the sums stay below `2 ^ 64`. -/
theorem pipeline_accounts_exactly (capacity : Nat) (positive : 0 < capacity) (maxBytes maxAgeUs : UInt64)
    (now : Instant) (actions : List Action) (final : Pipeline) (history : List (Action × Output))
    (ran : run Pipeline.step (.start (.new capacity positive) (.new maxBytes maxAgeUs now)) actions =
      some (final, history))
    (atRest : final.draining = none)
    (bytesFit : estimatedSizes final.coordinator.currentBatch.events < 2 ^ 64)
    (eventsFit : eventCount history final < 2 ^ 64) : Accounts history final := by
  have balanced := balanced_run ran
  obtain ⟨_, nonempty⟩ := conserves_run rfl ran
  constructor
  case bytes => exact balanced.bytes
  case size => rw [balanced.current.size, UInt64.toNat_ofNat_of_lt' bytesFit]
  case processed =>
    have processed := balanced.processed
    rw [atRest, Option.getD_none, UInt64.add_zero] at processed
    rw [processed, UInt64.toNat_ofNat_of_lt' eventsFit]
  case flushed => exact balanced.counted.symm
  case returned =>
    have fewer := batches_le_events nonempty
    have small : (returnedBatches history).length < 2 ^ 64 := by
      rw [eventCount] at eventsFit
      omega
    rw [balanced.flushed, UInt64.toNat_ofNat_of_lt' small]
  case spans =>
    intro batch member
    exact (balanced.returned batch member).spans (nonempty batch member)

/-- Two events in the wrong order make one batch. -/
theorem pipeline_accounts_exactly_two_events :
    ∃ final history,
      run Pipeline.step (.start (.new 2 (by decide)) (.new 0 0 0))
        [.push 0 (orderInsert 9 1), .push 1 (orderInsert 7 2), .beginDrain, .pop, .pop, .pop,
          .maybeFlush 5 6] = some (final, history) ∧ Accounts history final := by
  obtain ⟨final, history, ran, atRest, bytesFit, eventsFit⟩ : ∃ final history,
      run Pipeline.step (.start (.new 2 (by decide)) (.new 0 0 0))
        [.push 0 (orderInsert 9 1), .push 1 (orderInsert 7 2), .beginDrain, .pop, .pop, .pop,
          .maybeFlush 5 6] = some (final, history) ∧ final.draining = none ∧
        estimatedSizes final.coordinator.currentBatch.events < 2 ^ 64 ∧ eventCount history final < 2 ^ 64 :=
    ⟨_, _, rfl, rfl, by decide, by decide⟩
  exact ⟨final, history, ran,
    pipeline_accounts_exactly 2 (by decide) 0 0 0 _ final history ran atRest bytesFit eventsFit⟩

end Nendi.Verified
