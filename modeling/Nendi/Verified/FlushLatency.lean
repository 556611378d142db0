import Nendi.Verified.PipelineAccounting

/-! # When a batch is flushed

`FlushPolicy` keeps a count of bytes and the time of the last flush, and never sees the
batch.  `maybe_flush_exact` says what its two thresholds amount to for the events that were
drained and not yet returned: over every run, `maybe_flush` returns all of them as soon as one
of the thresholds is reached, and nothing before. -/

namespace Nendi.Verified

open Nendi.Lib Nendi.Shared Nendi.Core

/-! ## What the history shows -/

def drainedTotal (history : List (Action × Output)) : UInt64 :=
  history.foldl (fun total entry =>
    match entry.2 with
    | .drained count => total + count
    | _ => total) 0

/-- The clock reading of the last flush that returned a batch, or of the start. -/
def lastFlushed (opened : Instant) (history : List (Action × Output)) : Instant :=
  history.foldl (fun last entry =>
    match entry with
    | (.maybeFlush _ flushedAt, .flushed (some _)) => flushedAt
    | (.forceFlush flushedAt, .flushed (some _)) => flushedAt
    | _ => last) opened

def pending (history : List (Action × Output)) : List ChangeEvent :=
  ((accepted history).take (drainedTotal history).toNat).drop
    ((returnedBatches history).flatMap WriteBatch.events).length

/-- The estimated sizes before they are cut to a `usize`. -/
def footprint (event : ChangeEvent) : Nat :=
  sizeOfChangeEvent + ((utf8Bytes event.table.schema).length + (utf8Bytes event.table.table).length) +
    event.after.elim 0 RowData.estimatedSize + event.before.elim 0 RowData.estimatedSize

def footprints (events : List ChangeEvent) : Nat := (events.map footprint).sum

theorem drainedTotal_snoc (history : List (Action × Output)) (action : Action) (count : UInt64) :
    drainedTotal (history ++ [(action, .drained count)]) = drainedTotal history + count := by
  simp [drainedTotal]

theorem drainedTotal_quiet (history : List (Action × Output)) (action : Action) {output : Output}
    (notDrained : ∀ count, output ≠ .drained count) :
    drainedTotal (history ++ [(action, output)]) = drainedTotal history := by
  cases output with
  | drained count => exact absurd rfl (notDrained count)
  | pushed result => simp [drainedTotal]
  | silent => simp [drainedTotal]
  | flushed batch => simp [drainedTotal]

theorem footprints_append (first second : List ChangeEvent) :
    footprints (first ++ second) = footprints first + footprints second := by
  simp [footprints]

theorem footprints_pos {events : List ChangeEvent} (nonempty : events ≠ []) : 0 < footprints events := by
  cases events with
  | nil => exact absurd rfl nonempty
  | cons event events =>
    simp only [footprints, List.map_cons, List.sum_cons, footprint, sizeOfChangeEvent]
    omega

theorem totalBytes_footprints (events : List ChangeEvent) :
    UInt64.ofNat (estimatedSizes events) = UInt64.ofNat (footprints events) := by
  induction events with
  | nil => rfl
  | cons event events inductionHypothesis =>
    have head : UInt64.ofNat (footprint event) = event.estimatedSize := rfl
    simp only [estimatedSizes, footprints, List.map_cons, List.sum_cons, UInt64.ofNat_add] at inductionHypothesis ⊢
    rw [inductionHypothesis, head, UInt64.ofNat_toNat]

/-! ## What the policy knows -/

/-- The thresholds are those the policy was made with, and its clock is the history's. -/
structure Clocked (opened : FlushPolicy) (history : List (Action × Output)) (system : Pipeline) : Prop where
  maxBytes : system.coordinator.flushPolicy.maxBytes = opened.maxBytes
  maxAgeUs : system.coordinator.flushPolicy.maxAgeUs = opened.maxAgeUs
  last : system.coordinator.flushPolicy.lastFlush = lastFlushed opened.lastFlush history
  processed : system.coordinator.eventsProcessed = drainedTotal history

section Steps

variable {opened : FlushPolicy} {past : List (Action × Output)} {system : Pipeline} {action : Action} {output : Output}

theorem Clocked.quiet {next : Pipeline} (clocked : Clocked opened past system)
    (notFlushed : ∀ last, lastFlushed last [(action, output)] = last)
    (notDrained : ∀ count, output ≠ .drained count)
    (sameBytes : next.coordinator.flushPolicy.maxBytes = system.coordinator.flushPolicy.maxBytes)
    (sameAge : next.coordinator.flushPolicy.maxAgeUs = system.coordinator.flushPolicy.maxAgeUs)
    (sameLast : next.coordinator.flushPolicy.lastFlush = system.coordinator.flushPolicy.lastFlush)
    (sameProcessed : next.coordinator.eventsProcessed = system.coordinator.eventsProcessed) :
    Clocked opened (past ++ [(action, output)]) next where
  maxBytes := sameBytes.trans clocked.maxBytes
  maxAgeUs := sameAge.trans clocked.maxAgeUs
  last := by
    rw [sameLast, clocked.last, lastFlushed, lastFlushed, List.foldl_append]
    exact (notFlushed _).symm
  processed := by rw [sameProcessed, clocked.processed, drainedTotal_quiet past action notDrained]

theorem Clocked.flush (clocked : Clocked opened past system) {flushedAt : Instant}
    (isFlush : (∃ now, action = .maybeFlush now flushedAt) ∨ action = .forceFlush flushedAt)
    {result : Option WriteBatch × PipelineCoordinator}
    (flushes : system.coordinator.FlushesFrom flushedAt result) :
    Clocked opened (past ++ [(action, .flushed result.1)]) { system with coordinator := result.2 } := by
  obtain ⟨_, rfl⟩ | rfl := flushes
  · constructor
    case maxBytes => exact clocked.maxBytes
    case maxAgeUs => exact clocked.maxAgeUs
    case last =>
      rw [lastFlushed, List.foldl_append]
      obtain ⟨now, rfl⟩ | rfl := isFlush
      · rfl
      · rfl
    case processed =>
      rw [drainedTotal_quiet past action (by simp)]
      exact clocked.processed
  · refine clocked.quiet ?_ (by simp) rfl rfl rfl rfl
    intro last
    obtain ⟨now, rfl⟩ | rfl := isFlush
    · rfl
    · rfl

end Steps

theorem clocked_step {opened : FlushPolicy} (past : List (Action × Output)) (system : Pipeline) (action : Action)
    (next : Pipeline) (output : Output) (clocked : Clocked opened past system)
    (stepped : system.step action = some (next, output)) : Clocked opened (past ++ [(action, output)]) next := by
  cases action with
  | push producer event =>
    simp only [Pipeline.step, Option.some.injEq, Prod.mk.injEq] at stepped
    obtain ⟨rfl, rfl⟩ := stepped
    exact clocked.quiet (fun _ => rfl) (by simp) rfl rfl rfl rfl
  | beginDrain =>
    cases draining : system.draining with
    | none =>
      simp only [Pipeline.step, draining, Option.some.injEq, Prod.mk.injEq] at stepped
      obtain ⟨rfl, rfl⟩ := stepped
      exact clocked.quiet (fun _ => rfl) (by simp) rfl rfl rfl rfl
    | some count => simp [Pipeline.step, draining] at stepped
  | pop =>
    obtain ⟨count, draining, moved | emptied⟩ := Pipeline.step_pop_eq_some stepped
    · obtain ⟨event, ring, _, rfl, rfl⟩ := moved
      exact clocked.quiet (fun _ => rfl) (by simp) rfl rfl rfl rfl
    · -- the drain returns, and its count is added to the events processed
      obtain ⟨_, rfl, rfl⟩ := emptied
      refine ⟨clocked.maxBytes, clocked.maxAgeUs, ?_, ?_⟩
      · simpa [lastFlushed] using clocked.last
      · rw [drainedTotal_snoc, ← clocked.processed]
  | maybeFlush now flushedAt =>
    obtain ⟨_, rfl, rfl⟩ := Pipeline.step_maybeFlush_eq_some stepped
    exact clocked.flush (.inl ⟨now, rfl⟩) (system.coordinator.maybeFlush_flushesFrom now flushedAt)
  | forceFlush flushedAt =>
    obtain ⟨_, rfl, rfl⟩ := Pipeline.step_forceFlush_eq_some stepped
    exact clocked.flush (.inr rfl) (system.coordinator.forceFlush_flushesFrom flushedAt)

theorem clocked_run {ring : RingBuffer ChangeEvent} {opened : FlushPolicy} {actions : List Action} {final : Pipeline}
    {history : List (Action × Output)}
    (ran : run Pipeline.step (.start ring opened) actions = some (final, history)) : Clocked opened history final := by
  have initially : Clocked opened [] (.start ring opened) := ⟨rfl, rfl, rfl, rfl⟩
  exact run_invariant initially clocked_step ran

/-! ## The thresholds -/

/-- There is something to return, and one of the thresholds is reached. -/
def Due (opened : FlushPolicy) (history : List (Action × Output)) (now : Instant) : Prop :=
  pending history ≠ [] ∧ (opened.maxBytes.toNat ≤ footprints (pending history) ∨
    opened.maxAgeUs.toNat ≤ (now - lastFlushed opened.lastFlush history) / 1000)

theorem currentBatch_pending {history : List (Action × Output)} {system : Pipeline} {opened : FlushPolicy}
    (conserves : Conserves history system) (balanced : Balanced history system)
    (clocked : Clocked opened history system) (atRest : system.draining = none)
    (eventsFit : (accepted history).length < 2 ^ 64) :
    system.coordinator.currentBatch.events = pending history := by
  obtain ⟨spelled, _⟩ := conserves
  have processed := balanced.processed
  rw [atRest, Option.getD_none, UInt64.add_zero, clocked.processed] at processed
  have total : (drainedTotal history).toNat = eventCount history system := by
    rw [processed, UInt64.toNat_ofNat_of_lt']
    rw [← spelled, List.length_append, List.length_append] at eventsFit
    show eventCount history system < 2 ^ 64
    rw [eventCount]
    omega
  have taken : (accepted history).take (eventCount history system) =
      (returnedBatches history).flatMap WriteBatch.events ++ system.coordinator.currentBatch.events := by
    rw [← spelled]
    apply List.take_left'
    rw [List.length_append, eventCount]
  rw [pending, total, taken, List.drop_left]

theorem shouldFlush_iff (policy : FlushPolicy) (now : Instant) (ageFits : (now - policy.lastFlush) / 1000 < 2 ^ 64) :
    policy.shouldFlush now = true ↔ policy.maxBytes.toNat ≤ policy.currentBytes.toNat ∨
      policy.maxAgeUs.toNat ≤ (now - policy.lastFlush) / 1000 ∧ 0 < policy.currentBytes.toNat := by
  have age : (policy.ageUs now).toNat = (now - policy.lastFlush) / 1000 := UInt64.toNat_ofNat_of_lt' ageFits
  unfold FlushPolicy.shouldFlush
  split
  next reached => simp [UInt64.le_iff_toNat_le.mp reached]
  next below =>
    rw [UInt64.le_iff_toNat_le] at below
    simp [UInt64.le_iff_toNat_le, UInt64.lt_iff_toNat_lt, age, below]

/-- At every `maybe_flush` of every run: when there are events that were drained and not
    returned, and their sizes reach `max_bytes` or the last flush is `max_age_us` ago, then
    exactly these events are returned, in the order of their pushes; otherwise nothing is. -/
theorem maybe_flush_exact (capacity : Nat) (positive : 0 < capacity) (maxBytes maxAgeUs : UInt64) (openedAt : Instant)
    (actions : List Action) (system next : Pipeline) (past : List (Action × Output)) (now flushedAt : Instant)
    (output : Output)
    (ran : run Pipeline.step (.start (.new capacity positive) (.new maxBytes maxAgeUs openedAt)) actions =
      some (system, past))
    (stepped : system.step (.maybeFlush now flushedAt) = some (next, output))
    (eventsFit : (accepted past).length < 2 ^ 64) (bytesFit : footprints (accepted past) < 2 ^ 64)
    (ageFits : (now - lastFlushed openedAt past) / 1000 < 2 ^ 64) :
    (Due (.new maxBytes maxAgeUs openedAt) past now →
      ∃ batch, output = .flushed (some batch) ∧ batch.events = pending past) ∧
    (¬ Due (.new maxBytes maxAgeUs openedAt) past now → output = .flushed none) := by
  obtain ⟨atRest, _, rfl⟩ := Pipeline.step_maybeFlush_eq_some stepped
  have conserves := conserves_run rfl ran
  have balanced := balanced_run ran
  have clocked := clocked_run ran
  have current := currentBatch_pending conserves balanced clocked atRest eventsFit
  -- the policy's count of bytes is that of the pending events
  have bytes : system.coordinator.flushPolicy.currentBytes.toNat = footprints (pending past) := by
    rw [balanced.bytes, balanced.current.size, totalBytes_footprints, current, UInt64.toNat_ofNat_of_lt']
    rw [← conserves.1, footprints_append, footprints_append, current] at bytesFit
    show footprints (pending past) < 2 ^ 64
    omega
  have flushes := shouldFlush_iff system.coordinator.flushPolicy now (by rw [clocked.last]; exact ageFits)
  rw [clocked.maxBytes, clocked.maxAgeUs, clocked.last, bytes] at flushes
  have due : (system.coordinator.flushPolicy.shouldFlush now && !system.coordinator.currentBatch.isEmpty) = true ↔
      Due (.new maxBytes maxAgeUs openedAt) past now := by
    rw [Bool.and_eq_true, flushes, WriteBatch.isEmpty, current, Due]
    simp only [Bool.not_eq_true', List.isEmpty_eq_false_iff]
    constructor
    · rintro ⟨full | ⟨old, _⟩, nonempty⟩
      · exact ⟨nonempty, .inl full⟩
      · exact ⟨nonempty, .inr old⟩
    · rintro ⟨nonempty, full | old⟩
      · exact ⟨.inl full, nonempty⟩
      · exact ⟨.inr ⟨old, footprints_pos nonempty⟩, nonempty⟩
  unfold PipelineCoordinator.maybeFlush
  constructor
  · intro isDue
    rw [if_pos (due.mpr isDue)]
    exact ⟨_, rfl, current⟩
  · intro notDue
    rw [if_neg (mt due.mp notDue)]

/-- One event is drained, and a second one waits in the ring: the age makes the first one due. -/
theorem maybe_flush_exact_by_age :
    ∃ system past next output batch,
      run Pipeline.step (.start (.new 2 (by decide)) (.new 100000 7 0))
        [.push 0 (orderInsert 9 1), .beginDrain, .pop, .pop, .push 1 (orderInsert 7 2)] = some (system, past) ∧
      system.step (.maybeFlush 7000 7001) = some (next, output) ∧ output = .flushed (some batch) ∧
      batch.events = [orderInsert 9 1] := by
  obtain ⟨system, past, next, output, ran, stepped, eventsFit, bytesFit, ageFits, isPending, last⟩ :
      ∃ system past next output,
        run Pipeline.step (.start (.new 2 (by decide)) (.new 100000 7 0))
          [.push 0 (orderInsert 9 1), .beginDrain, .pop, .pop, .push 1 (orderInsert 7 2)] = some (system, past) ∧
        system.step (.maybeFlush 7000 7001) = some (next, output) ∧ (accepted past).length < 2 ^ 64 ∧
        footprints (accepted past) < 2 ^ 64 ∧ (7000 - lastFlushed 0 past) / 1000 < 2 ^ 64 ∧
        pending past = [orderInsert 9 1] ∧ lastFlushed 0 past = 0 :=
    ⟨_, _, _, _, rfl, rfl, by decide, by decide, by decide, by decide, rfl⟩
  obtain ⟨returns, _⟩ := maybe_flush_exact 2 (by decide) 100000 7 0 _ system next past 7000 7001 output ran stepped
    eventsFit bytesFit ageFits
  have isDue : Due (.new 100000 7 0) past 7000 := by
    rw [Due, isPending]
    refine ⟨by simp, .inr ?_⟩
    show 7 ≤ (7000 - lastFlushed 0 past) / 1000
    rw [last]
  obtain ⟨batch, isReturned, events⟩ := returns isDue
  exact ⟨system, past, next, output, batch, ran, stepped, isReturned, events.trans isPending⟩

end Nendi.Verified
