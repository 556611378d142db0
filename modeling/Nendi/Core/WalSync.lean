import Nendi.Core.Wal

/-! # Syncing the log

`WalWriter::sync` of `core/src/storage/wal/batch.rs`, and what a crash may leave of the
log.  Bytes reach the disk when the system pleases; only those that a file had when it was
synced are certain to be there. -/

namespace Nendi.Core

open Nendi.Lib Nendi.Shared

inductive WalAction where
  | append (call : Call)
  -- a call of `sync`, and whether the system grants it
  | sync (granted : Bool)

inductive WalError where
  | append (fault : Fault IoError)
  | syncFailed

/-- The log, and how many bytes each segment had when it was last synced. -/
structure SyncedWal where
  wal : Wal
  synced : Nat → Nat

namespace SyncedWal

def new (maxSegmentBytes : Nat) : SyncedWal := ⟨.new ∅ maxSegmentBytes, fun _ => 0⟩

def contents (log : SyncedWal) (segment : Nat) : List UInt8 := log.wal.dir.contents (segmentName segment)

def sync (log : SyncedWal) (granted : Bool) : Except WalError Unit × SyncedWal :=
  -- only the file that is open is synced
  match log.wal.writer.currentFile with
  | none => (.ok (), log)
  | some file =>
    if granted then
      (.ok (), { log with synced := Function.update log.synced file (log.contents file).length })
    else (.error .syncFailed, log)

def step (log : SyncedWal) : WalAction → Except WalError Unit × SyncedWal
  | .append call =>
    match log.wal.append call with
    | (.ok _, wal) => (.ok (), { log with wal })
    | (.error fault, wal) => (.error (.append fault), { log with wal })
  | .sync granted => log.sync granted

def after (log : SyncedWal) (actions : List WalAction) : SyncedWal :=
  actions.foldl (fun log action => (log.step action).2) log

/-- No append of the run fails; a sync may. -/
def AppendsOk : SyncedWal → List WalAction → Prop
  | _, [] => True
  | log, .append call :: actions =>
    (log.wal.append call).1 = .ok () ∧ (log.step (.append call)).2.AppendsOk actions
  | log, .sync granted :: actions => (log.step (.sync granted)).2.AppendsOk actions

/-- What a crash may leave in the segments: a front part of each, with all that was synced. -/
def LeftBy (log : SyncedWal) (left : Nat → List UInt8) : Prop :=
  ∀ segment, left segment <+: log.contents segment ∧ log.synced segment ≤ (left segment).length

def Settled (log : SyncedWal) : Prop :=
  ∀ file, log.wal.writer.currentFile = some file → log.synced file = (log.contents file).length

/-! ## What an action does -/

theorem step_append_ok {log : SyncedWal} {call : Call} (ok : (log.wal.append call).1 = .ok ()) :
    (log.step (.append call)).2 = { log with wal := log.wal.advanced call.record } := by
  rw [step, Wal.append_ok ok]

theorem step_sync_wal (log : SyncedWal) (granted : Bool) : (log.step (.sync granted)).2.wal = log.wal := by
  simp only [step, sync]
  split
  · rfl
  · split <;> rfl

theorem step_sync_cases (log : SyncedWal) (granted : Bool) :
    (∃ file, log.wal.writer.currentFile = some file ∧
        (log.step (.sync granted)).2 =
          { log with synced := Function.update log.synced file (log.contents file).length }) ∨
      (log.step (.sync granted)).2 = log ∧ (granted = true → log.wal.writer.currentFile = none) := by
  cases isOpen : log.wal.writer.currentFile with
  | none => exact .inr ⟨by simp [step, sync, isOpen], fun _ => rfl⟩
  | some file =>
    cases granted with
    | true => exact .inl ⟨file, rfl, by simp [step, sync, isOpen]⟩
    | false => exact .inr ⟨by simp [step, sync, isOpen], nofun⟩

theorem after_append (log : SyncedWal) (past later : List WalAction) :
    log.after (past ++ later) = (log.after past).after later := List.foldl_append

theorem after_snoc (log : SyncedWal) (past : List WalAction) (action : WalAction) :
    log.after (past ++ [action]) = ((log.after past).step action).2 := log.after_append past [action]

theorem appendsOk_append {log : SyncedWal} {past later : List WalAction} :
    log.AppendsOk (past ++ later) ↔ log.AppendsOk past ∧ (log.after past).AppendsOk later := by
  induction past generalizing log with
  | nil => exact ⟨fun ok => ⟨trivial, ok⟩, And.right⟩
  | cons action past inductionHypothesis =>
    cases action with
    | append call => exact (and_congr_right' inductionHypothesis).trans and_assoc.symm
    | sync granted => exact inductionHypothesis

end SyncedWal

def appendedRecords (actions : List WalAction) : List Record :=
  actions.filterMap fun
    | .append call => some call.record
    | .sync _ => none

end Nendi.Core
