import Nendi.Core.Offset

/-! # When to collect

`WatermarkTracker` and `GcScheduler` of `core/src/storage/gc`.  The tracker keeps the
last LSN each consumer reported, whichever way it moved; the scheduler asks for a
collection whenever the least of them has risen above the last one it asked for. -/

namespace Nendi.Core

open Nendi.Shared

structure WatermarkTracker where
  consumers : AList fun _ : String => Lsn

namespace WatermarkTracker

def new : WatermarkTracker := ⟨∅⟩

def update (tracker : WatermarkTracker) (consumer : String) (lsn : Lsn) : WatermarkTracker :=
  -- unlike `commit` of the registry this takes an LSN that goes backwards
  ⟨tracker.consumers.insert consumer lsn⟩

def remove (tracker : WatermarkTracker) (consumer : String) : WatermarkTracker :=
  ⟨tracker.consumers.erase consumer⟩

def watermark (tracker : WatermarkTracker) : Lsn :=
  -- the loop is the one in `min_offset`
  let min := tracker.consumers.entries.foldl OffsetRegistry.lower Lsn.max
  if min = Lsn.max then Lsn.zero else min

theorem watermark_least {tracker : WatermarkTracker} (positive : Lsn.zero < tracker.watermark) :
    (∀ consumer lsn, tracker.consumers.lookup consumer = some lsn → tracker.watermark ≤ lsn) ∧
      ∃ consumer, tracker.consumers.lookup consumer = some tracker.watermark := by
  simp only [watermark] at positive ⊢
  split at positive
  next => exact absurd positive (lt_irrefl _)
  next belowMax =>
    have isLeast := OffsetRegistry.lowest_isLeast tracker.consumers
    rw [if_neg belowMax]
    refine ⟨?_, isLeast.1.resolve_left belowMax⟩
    intro consumer lsn found
    exact isLeast.2 (Set.mem_insert_of_mem _ ⟨consumer, found⟩)

end WatermarkTracker

structure GcScheduler where
  -- in nanoseconds
  interval : Nat
  watermark : WatermarkTracker
  lastGcWatermark : Lsn
  gcRuns : UInt64

inductive SchedulerCall where
  | update (consumer : String) (lsn : Lsn)
  | remove (consumer : String)
  | maybeGc
deriving DecidableEq, Repr

namespace GcScheduler

def new (interval : Nat) : GcScheduler where
  interval
  watermark := .new
  lastGcWatermark := Lsn.zero
  gcRuns := 0

def maybeGc (scheduler : GcScheduler) : Option Lsn × GcScheduler :=
  let currentWatermark := scheduler.watermark.watermark
  if currentWatermark.isAheadOf scheduler.lastGcWatermark then
    (some currentWatermark,
      { scheduler with lastGcWatermark := currentWatermark, gcRuns := scheduler.gcRuns + 1 })
  else (none, scheduler)

def step (scheduler : GcScheduler) : SchedulerCall → Option Lsn × GcScheduler
  -- the tracker is shared: consumers reach it through `watermark_tracker`
  | .update consumer lsn => (none, { scheduler with watermark := scheduler.watermark.update consumer lsn })
  | .remove consumer => (none, { scheduler with watermark := scheduler.watermark.remove consumer })
  | .maybeGc => scheduler.maybeGc

theorem maybeGc_cases (scheduler : GcScheduler) :
    scheduler.maybeGc = (none, scheduler) ∨
      scheduler.lastGcWatermark < scheduler.watermark.watermark ∧
        scheduler.maybeGc = (some scheduler.watermark.watermark,
          { scheduler with
            lastGcWatermark := scheduler.watermark.watermark, gcRuns := scheduler.gcRuns + 1 }) := by
  by_cases ahead : scheduler.lastGcWatermark < scheduler.watermark.watermark
  · exact .inr ⟨ahead, by simp [maybeGc, Lsn.isAheadOf, ahead]⟩
  · exact .inl (by simp [maybeGc, Lsn.isAheadOf, ahead])

end GcScheduler

end Nendi.Core
