import Nendi.Core.Tenant

/-! # Filters for reads

`ReadFilter` of `core/src/storage/rocks/filter.rs`: a test of events, and a coarser test
of their keys that saves decoding them. -/

namespace Nendi.Core

open Nendi.Lib Nendi.Shared

structure ReadFilter where
  tables : Option (List String)
  minLsn : Lsn
  maxLsn : Lsn
deriving DecidableEq, Repr

namespace ReadFilter

def new : ReadFilter := ⟨none, Lsn.zero, Lsn.max⟩

def withTables (filter : ReadFilter) (tables : List String) : ReadFilter :=
  { filter with tables := some tables }

def withLsnRange (filter : ReadFilter) (min max : Lsn) : ReadFilter :=
  { filter with minLsn := min, maxLsn := max }

def accept (filter : ReadFilter) (event : ChangeEvent) : Bool :=
  if event.lsn < filter.minLsn ∨ filter.maxLsn < event.lsn then false
  else
    match filter.tables with
    | some tables => tables.any fun table => table == event.table.qualified
    | none => true

def keyMightMatch (filter : ReadFilter) (key : List UInt8) : Bool :=
  if key.length < 8 then false
  else
    let lsn := UInt64.ofBeBytes (key.take 8)
    decide (filter.minLsn ≤ lsn) && decide (lsn ≤ filter.maxLsn)

theorem keyMightMatch_makeKey (filter : ReadFilter) (event : ChangeEvent) :
    filter.keyMightMatch (makeKey event) = true ↔ filter.minLsn ≤ event.lsn ∧ event.lsn ≤ filter.maxLsn := by
  have field : (makeKey event).take 8 = event.lsn.toBeBytes := by simp [makeKey]
  have long : ¬ (makeKey event).length < 8 := by simp [makeKey]
  rw [keyMightMatch, if_neg long, field, UInt64.ofBeBytes_toBeBytes]
  simp

theorem lsn_of_accept {filter : ReadFilter} {event : ChangeEvent} (accepted : filter.accept event = true) :
    filter.minLsn ≤ event.lsn ∧ event.lsn ≤ filter.maxLsn := by
  rw [accept] at accepted
  split at accepted
  next => cases accepted
  next inRange =>
    rw [not_or] at inRange
    exact ⟨not_lt.mp inRange.1, not_lt.mp inRange.2⟩

end ReadFilter

end Nendi.Core
