import Nendi.Core.Ingestion
import Nendi.Verified.Acknowledgements
import Nendi.Verified.EndToEnd
import Nendi.Verified.PipelineAccounting

/-! # Restarts lose nothing

The server streams committed transactions in the order of their commits and starts again
behind the position it was last told.  `AckManager` is told the greatest LSN of a batch once
the batch is written.  The LSN of a change is not a commit position: changes of later
transactions may have smaller ones, and a batch may end within a transaction.
`acknowledged_is_stored` says that nevertheless nothing that the server will not send again
is missing from the store, and `restart_loses_nothing` that a second session then leaves the
store as one session would have.  Of changes with the same LSN and xid the store keeps the last,
with or without a restart. -/

namespace Nendi.Verified

open Nendi.Lib Nendi.Shared Nendi.Core Nendi.Pgsql

/-! ## The stream -/

/-- A run of the pipeline, of whose batches the first ones were written, in order. -/
structure PipelineSession (before after : TenantStore) where
  capacity : Nat
  positive : 0 < capacity
  maxBytes : UInt64
  maxAgeUs : UInt64
  opened : Instant
  actions : List Action
  final : Pipeline
  history : List (Action × Output)
  ran : run Pipeline.step (.start (.new capacity positive) (.new maxBytes maxAgeUs opened)) actions =
    some (final, history)
  written : List WriteBatch
  inOrder : written <+: returnedBatches history
  wrote : before.writeBatches written = .ok after

namespace PipelineSession

variable {before after : TenantStore}

def taken (session : PipelineSession before after) : List ChangeEvent := accepted session.history

def stored (session : PipelineSession before after) : List ChangeEvent := session.written.flatMap WriteBatch.events

theorem log (session : PipelineSession before after) {log : EventLog} (holds : Holds before log)
    (fit : ∀ event ∈ session.stored, event.Fits) : Holds after (log.write session.stored fit) :=
  writeBatches_log holds fit session.wrote

end PipelineSession

end Nendi.Verified
