import Nendi.Core.Offset
import Nendi.Core.Tenant

/-! # Catching up

How a consumer that comes back reads what it has missed: from one past its
committed offset, a page at a time, committing as it goes.  `ReplayManager` of
`http/src/egress/grpc/replay.rs` gives the range to read. -/

namespace Nendi.Http

open Nendi.Lib Nendi.Shared Nendi.Core

structure ReplayRange where
  startLsn : Lsn
  endLsn : Lsn
deriving DecidableEq, Repr

structure ReplayManager where
  batchSize : Nat
deriving DecidableEq, Repr

def ReplayManager.replayRange (_manager : ReplayManager) (committedLsn headLsn : Lsn) :
    Option ReplayRange :=
  if committedLsn ≥ headLsn then
    none
  else
    some { startLsn := committedLsn.saturatingAdd 1, endLsn := headLsn }

/-- A consumer reads a page from where it resumes and commits the LSN of its last
    event, until a page is empty; `none` if the fuel runs out before that or a read
    fails. -/
def catchUp (store : TenantStore) (consumer : String) (limit : Nat) :
    Nat → OffsetManager → Option (List (List ChangeEvent))
  | 0, _ => none
  | fuel + 1, offsets =>
    match store.readFrom (offsets.resumeLsn consumer) limit with
    | .error _ => none
    | .ok page =>
      match page.getLast? with
      | none => some []
      | some last => (catchUp store consumer limit fuel (offsets.commit consumer last.lsn).2).map (page :: ·)

/-! ## Catching up while events are written -/

structure LiveState where
  store : TenantStore
  offsets : OffsetManager
  -- the events of all pages so far
  delivered : List ChangeEvent

inductive LiveAction where
  | write (batch : WriteBatch)
  | poll (limit : Nat)

namespace LiveState

def poll (state : LiveState) (consumer : String) (limit : Nat) : LiveState :=
  match state.store.readFrom (state.offsets.resumeLsn consumer) limit with
  | .error _ => state
  | .ok page =>
    match page.getLast? with
    | none => state
    | some last =>
      { state with
        offsets := (state.offsets.commit consumer last.lsn).2
        delivered := state.delivered ++ page }

def step (consumer : String) (state : LiveState) : LiveAction → LiveState
  | .write batch =>
    match state.store.writeBatch batch with
    | .ok store => { state with store }
    | .error _ => state
  | .poll limit => state.poll consumer limit

def after (consumer : String) (state : LiveState) (history : List LiveAction) : LiveState :=
  history.foldl (step consumer) state

theorem after_snoc (consumer : String) (state : LiveState) (past : List LiveAction) (action : LiveAction) :
    state.after consumer (past ++ [action]) = (state.after consumer past).step consumer action := by
  rw [after, List.foldl_append]
  rfl

end LiveState

def writtenEvents (history : List LiveAction) : List ChangeEvent :=
  history.flatMap fun
    | .write batch => batch.events
    | .poll _ => []

end Nendi.Http
