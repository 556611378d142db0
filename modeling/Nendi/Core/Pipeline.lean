import Nendi.Lib.Machine
import Nendi.Shared.Event
import Nendi.Shared.Ring

/-! # The ingestion pipeline

Ring buffer to write batch to flush: `WriteBatch`, `FlushPolicy` and
`PipelineCoordinator` of `core/src/pipeline`, and the system they form with the
producers that push into the shared ring.

`usize` and `u64` counters are `UInt64` and wrap, as in the release profile.
Clock readings are arguments of the functions that take them, in nanoseconds;
nothing is assumed about how they relate. -/

namespace Nendi.Core

open Nendi.Shared

/-! ## Write batches -/

structure WriteBatch where
  events : List ChangeEvent
  minLsn : Lsn
  maxLsn : Lsn
  totalBytes : UInt64
deriving DecidableEq, Repr

namespace WriteBatch

def new : WriteBatch := ⟨[], Lsn.max, Lsn.zero, 0⟩

@[simp] theorem new_events : new.events = [] := rfl

def push (batch : WriteBatch) (event : ChangeEvent) : WriteBatch where
  events := batch.events ++ [event]
  minLsn := if event.lsn < batch.minLsn then event.lsn else batch.minLsn
  maxLsn := if batch.maxLsn < event.lsn then event.lsn else batch.maxLsn
  totalBytes := batch.totalBytes + event.estimatedSize

def isEmpty (batch : WriteBatch) : Bool := batch.events.isEmpty

end WriteBatch

/-! ## Flush policy -/

abbrev Instant := Nat

structure FlushPolicy where
  maxBytes : UInt64
  maxAgeUs : UInt64
  currentBytes : UInt64
  lastFlush : Instant
  flushCount : UInt64
deriving DecidableEq, Repr

namespace FlushPolicy

def new (maxBytes maxAgeUs : UInt64) (now : Instant) : FlushPolicy :=
  ⟨maxBytes, maxAgeUs, 0, now, 0⟩

def accumulate (policy : FlushPolicy) (bytes : UInt64) : FlushPolicy :=
  { policy with currentBytes := policy.currentBytes + bytes }

def ageUs (policy : FlushPolicy) (now : Instant) : UInt64 :=
  -- `last_flush.elapsed().as_micros() as u64`; `elapsed` is zero for a clock that went back
  UInt64.ofNat ((now - policy.lastFlush) / 1000)

def shouldFlush (policy : FlushPolicy) (now : Instant) : Bool :=
  if policy.maxBytes ≤ policy.currentBytes then true
  else decide (policy.maxAgeUs ≤ policy.ageUs now ∧ 0 < policy.currentBytes)

def markFlushed (policy : FlushPolicy) (now : Instant) : FlushPolicy :=
  { policy with
    currentBytes := 0
    lastFlush := now
    flushCount := policy.flushCount + 1 }

end FlushPolicy

/-! ## The coordinator -/

structure PipelineCoordinator where
  ring : RingBuffer ChangeEvent
  flushPolicy : FlushPolicy
  currentBatch : WriteBatch
  eventsProcessed : UInt64
  batchesFlushed : UInt64

namespace PipelineCoordinator

def new (ring : RingBuffer ChangeEvent) (flushPolicy : FlushPolicy) : PipelineCoordinator where
  ring
  flushPolicy
  currentBatch := .new
  eventsProcessed := 0
  batchesFlushed := 0

def absorb (coordinator : PipelineCoordinator) (event : ChangeEvent)
    (ring : RingBuffer ChangeEvent) : PipelineCoordinator :=
  -- the body of the loop in `drain_ring`, after a pop that returned `event`
  { coordinator with
    ring
    currentBatch := coordinator.currentBatch.push event
    flushPolicy := coordinator.flushPolicy.accumulate event.estimatedSize }

/-- Hand out the current batch and start a new one (`mem::replace`, `mark_flushed`). -/
def takeBatch (coordinator : PipelineCoordinator) (flushedAt : Instant) : PipelineCoordinator :=
  { coordinator with
    currentBatch := .new
    flushPolicy := coordinator.flushPolicy.markFlushed flushedAt
    batchesFlushed := coordinator.batchesFlushed + 1 }

def maybeFlush (coordinator : PipelineCoordinator) (now flushedAt : Instant) :
    Option WriteBatch × PipelineCoordinator :=
  if coordinator.flushPolicy.shouldFlush now && !coordinator.currentBatch.isEmpty then
    (some coordinator.currentBatch, coordinator.takeBatch flushedAt)
  else
    (none, coordinator)

def forceFlush (coordinator : PipelineCoordinator) (flushedAt : Instant) :
    Option WriteBatch × PipelineCoordinator :=
  if !coordinator.currentBatch.isEmpty then
    (some coordinator.currentBatch, coordinator.takeBatch flushedAt)
  else
    (none, coordinator)

def FlushesFrom (coordinator : PipelineCoordinator) (flushedAt : Instant)
    (result : Option WriteBatch × PipelineCoordinator) : Prop :=
  (coordinator.currentBatch.events ≠ [] ∧
      result = (some coordinator.currentBatch, coordinator.takeBatch flushedAt)) ∨
    result = (none, coordinator)

theorem maybeFlush_flushesFrom (coordinator : PipelineCoordinator) (now flushedAt : Instant) :
    coordinator.FlushesFrom flushedAt (coordinator.maybeFlush now flushedAt) := by
  unfold maybeFlush
  split
  next flushes =>
    simp only [Bool.and_eq_true, Bool.not_eq_true', WriteBatch.isEmpty, List.isEmpty_eq_false_iff]
      at flushes
    exact .inl ⟨flushes.2, rfl⟩
  next keeps => exact .inr rfl

theorem forceFlush_flushesFrom (coordinator : PipelineCoordinator) (flushedAt : Instant) :
    coordinator.FlushesFrom flushedAt (coordinator.forceFlush flushedAt) := by
  unfold forceFlush
  split
  next flushes =>
    simp only [Bool.not_eq_true', WriteBatch.isEmpty, List.isEmpty_eq_false_iff] at flushes
    exact .inl ⟨flushes, rfl⟩
  next keeps => exact .inr rfl

theorem forceFlush_empties (coordinator : PipelineCoordinator) (flushedAt : Instant) :
    (coordinator.forceFlush flushedAt).2.currentBatch.events = [] := by
  unfold forceFlush
  split
  next flushes => rfl
  next keeps => simpa [WriteBatch.isEmpty] using keeps

end PipelineCoordinator

/-! ## The system

Producers and the coordinator share the ring, so the atomic steps are the
operations on it.  `drain_ring` is split at its pops: between two of them any
producer may push.  The flushes touch only what the coordinator owns and are
single steps. -/

inductive Action where
  -- a producer calls `try_push`
  | push (producer : Nat) (event : ChangeEvent)
  -- the coordinator enters `drain_ring`
  | beginDrain
  -- one `try_pop` of `drain_ring` with the loop body, or the return that follows an empty pop
  | pop
  | maybeFlush (now flushedAt : Instant)
  | forceFlush (flushedAt : Instant)

inductive Output where
  | pushed (result : Except ChangeEvent Unit)
  | silent
  | drained (count : UInt64)
  | flushed (batch : Option WriteBatch)

structure Pipeline where
  coordinator : PipelineCoordinator
  -- the `count` of a `drain_ring` in progress
  draining : Option UInt64

namespace Pipeline

def start (ring : RingBuffer ChangeEvent) (flushPolicy : FlushPolicy) : Pipeline :=
  ⟨.new ring flushPolicy, none⟩

def step (system : Pipeline) : Action → Option (Pipeline × Output)
  | .push _ event =>
    let (result, ring) := system.coordinator.ring.tryPush event
    some ({ system with coordinator := { system.coordinator with ring } }, .pushed result)
  | .beginDrain =>
    match system.draining with
    | none => some ({ system with draining := some 0 }, .silent)
    | some _ => none
  | .pop =>
    match system.draining with
    | none => none
    | some count =>
      match system.coordinator.ring.tryPop with
      | (some event, ring) =>
        some (⟨system.coordinator.absorb event ring, some (count + 1)⟩, .silent)
      | (none, _) =>
        let coordinator :=
          { system.coordinator with eventsProcessed := system.coordinator.eventsProcessed + count }
        some (⟨coordinator, none⟩, .drained count)
  | .maybeFlush now flushedAt =>
    match system.draining with
    | none =>
      let (batch, coordinator) := system.coordinator.maybeFlush now flushedAt
      some ({ system with coordinator }, .flushed batch)
    | some _ => none
  | .forceFlush flushedAt =>
    match system.draining with
    | none =>
      let (batch, coordinator) := system.coordinator.forceFlush flushedAt
      some ({ system with coordinator }, .flushed batch)
    | some _ => none

/-! ### When a step of the coordinator is enabled, and what it leaves -/

variable {system next : Pipeline} {output : Output}

/-- A pop happens inside a drain: it moves the oldest event into the batch, or
    finds the ring empty and ends the drain. -/
theorem step_pop_eq_some (stepped : system.step .pop = some (next, output)) :
    ∃ count, system.draining = some count ∧
      ((∃ event ring, system.coordinator.ring.items = event :: ring.items ∧
          next = ⟨system.coordinator.absorb event ring, some (count + 1)⟩ ∧ output = .silent) ∨
        system.coordinator.ring.items = [] ∧
          next = ⟨{ system.coordinator with
            eventsProcessed := system.coordinator.eventsProcessed + count }, none⟩ ∧
          output = .drained count) := by
  cases draining : system.draining with
  | none => simp [step, draining] at stepped
  | some count =>
    refine ⟨count, rfl, ?_⟩
    obtain ⟨event, ring, popped, items⟩ | ⟨popped, items⟩ := system.coordinator.ring.tryPop_cases
    · simp only [step, draining, popped, Option.some.injEq, Prod.mk.injEq] at stepped
      exact .inl ⟨event, ring, items, stepped.1.symm, stepped.2.symm⟩
    · simp only [step, draining, popped, Option.some.injEq, Prod.mk.injEq] at stepped
      exact .inr ⟨items, stepped.1.symm, stepped.2.symm⟩

theorem step_maybeFlush_eq_some {now flushedAt : Instant}
    (stepped : system.step (.maybeFlush now flushedAt) = some (next, output)) :
    system.draining = none ∧
      next = { system with coordinator := (system.coordinator.maybeFlush now flushedAt).2 } ∧
      output = .flushed (system.coordinator.maybeFlush now flushedAt).1 := by
  cases draining : system.draining with
  | none =>
    simp only [step, draining, Option.some.injEq, Prod.mk.injEq] at stepped
    exact ⟨rfl, stepped.1.symm, stepped.2.symm⟩
  | some count => simp [step, draining] at stepped

theorem step_forceFlush_eq_some {flushedAt : Instant}
    (stepped : system.step (.forceFlush flushedAt) = some (next, output)) :
    system.draining = none ∧
      next = { system with coordinator := (system.coordinator.forceFlush flushedAt).2 } ∧
      output = .flushed (system.coordinator.forceFlush flushedAt).1 := by
  cases draining : system.draining with
  | none =>
    simp only [step, draining, Option.some.injEq, Prod.mk.injEq] at stepped
    exact ⟨rfl, stepped.1.symm, stepped.2.symm⟩
  | some count => simp [step, draining] at stepped

end Pipeline

/-! ## What a history shows -/

def accepted (history : List (Action × Output)) : List ChangeEvent :=
  history.filterMap fun
    | (.push _ event, .pushed (.ok ())) => some event
    | _ => none

def returnedBatches (history : List (Action × Output)) : List WriteBatch :=
  history.filterMap fun
    | (_, .flushed (some batch)) => some batch
    | _ => none

@[simp] theorem accepted_append (past later : List (Action × Output)) :
    accepted (past ++ later) = accepted past ++ accepted later := List.filterMap_append

@[simp] theorem returnedBatches_append (past later : List (Action × Output)) :
    returnedBatches (past ++ later) = returnedBatches past ++ returnedBatches later :=
  List.filterMap_append

end Nendi.Core
