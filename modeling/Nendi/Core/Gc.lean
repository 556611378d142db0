import Nendi.Core.Offset
import Nendi.Core.Tenant

/-! # Garbage collection of stored events

`EventGcFilter` of `core/src/storage/rocks/compaction.rs`, and the system of
consumers, event writes and collection passes it runs in. -/

namespace Nendi.Core

open Nendi.Lib Nendi.Shared

/-! ## The compaction filter -/

inductive Decision where
  | keep
  | remove
deriving DecidableEq, Repr

structure EventGcFilter where
  watermarkLsnBytes : List UInt8

namespace EventGcFilter

def new (watermark : UInt64) : EventGcFilter := ⟨watermark.toBeBytes⟩

def filter (gc : EventGcFilter) (key : List UInt8) : Decision :=
  if 8 ≤ key.length ∧ key.take 8 < gc.watermarkLsnBytes then .remove else .keep

def compact (gc : EventGcFilter) (cf : ColumnFamily) : ColumnFamily :=
  cf.filterKeys fun key => decide (gc.filter key = .keep)

theorem filter_makeKey (watermark : UInt64) (event : ChangeEvent) :
    (new watermark).filter (makeKey event) = .keep ↔ watermark ≤ event.lsn := by
  have field : (makeKey event).take 8 = event.lsn.toBeBytes := by simp [makeKey]
  have long : 8 ≤ (makeKey event).length := by simp [makeKey]
  simp only [filter, field, new, UInt64.toBeBytes_lt_iff, long, true_and]
  by_cases below : event.lsn < watermark
  · simp [below]
  · rw [if_neg below]
    exact ⟨fun _ => not_lt.mp below, fun _ => rfl⟩

end EventGcFilter

/-! ## Consumers, writes and collection passes -/

inductive GcAction where
  | register (consumer : String)
  | commit (consumer : String) (lsn : Lsn)
  | unregister (consumer : String)
  | write (event : ChangeEvent)
  | gc

structure GcState where
  manager : OffsetManager
  events : ColumnFamily

namespace GcState

def initial : GcState := ⟨.new, .empty⟩

def step (state : GcState) : GcAction → GcState
  | .register consumer => { state with manager := state.manager.registerConsumer consumer }
  | .commit consumer lsn => { state with manager := (state.manager.commit consumer lsn).2 }
  | .unregister consumer => { state with manager := state.manager.unregisterConsumer consumer }
  | .write event => { state with events := state.events.insert (makeKey event) (encodeEvent event) }
  | .gc => { state with events := (EventGcFilter.new state.manager.watermark).compact state.events }

def after (history : List GcAction) : GcState := history.foldl step initial

@[simp] theorem after_append (past later : List GcAction) :
    after (past ++ later) = later.foldl step (after past) := List.foldl_append

theorem after_snoc (past : List GcAction) (action : GcAction) :
    after (past ++ [action]) = (after past).step action := by simp

end GcState

end Nendi.Core
