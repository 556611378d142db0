import Nendi.Lib.BigEndian
import Nendi.Shared.Event

/-! # Acknowledging WAL positions

`AckManager` of `services/pgsql/src/replication/ack.rs`.  Clock readings and intervals are
in nanoseconds, and a reading is an argument of the call that takes it. -/

namespace Nendi.Pgsql

open Nendi.Shared

structure AckManager where
  confirmedFlushLsn : Lsn
  receivedLsn : Lsn
  minInterval : Nat
  maxInterval : Nat
  lastAckTime : Nat
  dirty : Bool
deriving DecidableEq, Repr

inductive AckCall where
  | advanceReceived (lsn : Lsn)
  | advanceConfirmed (lsn : Lsn)
  | buildStatusUpdate (now : Nat)
deriving DecidableEq, Repr

/-- The write, flush and apply positions of a `StandbyStatusUpdate`. -/
abbrev Status := Lsn × Lsn × Lsn

namespace AckManager

def new (minInterval maxInterval now : Nat) : AckManager where
  confirmedFlushLsn := Lsn.zero
  receivedLsn := Lsn.zero
  minInterval
  maxInterval
  lastAckTime := now
  dirty := false

def advanceReceived (ack : AckManager) (lsn : Lsn) : AckManager :=
  if lsn.isAheadOf ack.receivedLsn then { ack with receivedLsn := lsn, dirty := true } else ack

def advanceConfirmed (ack : AckManager) (lsn : Lsn) : AckManager :=
  if lsn.isAheadOf ack.confirmedFlushLsn then { ack with confirmedFlushLsn := lsn, dirty := true } else ack

def shouldAck (ack : AckManager) (now : Nat) : Bool :=
  -- `elapsed` is zero for a clock that went back
  let elapsed := now - ack.lastAckTime
  -- the heartbeat does not ask whether there is anything to say
  if ack.maxInterval ≤ elapsed then true
  else if ack.dirty ∧ ack.minInterval ≤ elapsed then true
  else false

def buildStatusUpdate (ack : AckManager) (now : Nat) : Status × AckManager :=
  ((ack.receivedLsn, ack.confirmedFlushLsn, ack.confirmedFlushLsn),
    { ack with lastAckTime := now, dirty := false })

def step (ack : AckManager) : AckCall → Option Status × AckManager
  | .advanceReceived lsn => (none, ack.advanceReceived lsn)
  | .advanceConfirmed lsn => (none, ack.advanceConfirmed lsn)
  | .buildStatusUpdate now => ((ack.buildStatusUpdate now).1, (ack.buildStatusUpdate now).2)

theorem advanceReceived_cases (ack : AckManager) (lsn : Lsn) :
    ack.receivedLsn < lsn ∧ ack.advanceReceived lsn = { ack with receivedLsn := lsn, dirty := true } ∨
      lsn ≤ ack.receivedLsn ∧ ack.advanceReceived lsn = ack := by
  by_cases ahead : ack.receivedLsn < lsn
  · exact .inl ⟨ahead, by simp [advanceReceived, Lsn.isAheadOf, ahead]⟩
  · exact .inr ⟨not_lt.mp ahead, by simp [advanceReceived, Lsn.isAheadOf, ahead]⟩

theorem advanceConfirmed_cases (ack : AckManager) (lsn : Lsn) :
    ack.confirmedFlushLsn < lsn ∧
        ack.advanceConfirmed lsn = { ack with confirmedFlushLsn := lsn, dirty := true } ∨
      lsn ≤ ack.confirmedFlushLsn ∧ ack.advanceConfirmed lsn = ack := by
  by_cases ahead : ack.confirmedFlushLsn < lsn
  · exact .inl ⟨ahead, by simp [advanceConfirmed, Lsn.isAheadOf, ahead]⟩
  · exact .inr ⟨not_lt.mp ahead, by simp [advanceConfirmed, Lsn.isAheadOf, ahead]⟩

theorem advanceReceived_times (ack : AckManager) (lsn : Lsn) :
    (ack.advanceReceived lsn).minInterval = ack.minInterval ∧
      (ack.advanceReceived lsn).maxInterval = ack.maxInterval ∧
      (ack.advanceReceived lsn).lastAckTime = ack.lastAckTime := by
  unfold advanceReceived
  split <;> exact ⟨rfl, rfl, rfl⟩

theorem advanceConfirmed_times (ack : AckManager) (lsn : Lsn) :
    (ack.advanceConfirmed lsn).minInterval = ack.minInterval ∧
      (ack.advanceConfirmed lsn).maxInterval = ack.maxInterval ∧
      (ack.advanceConfirmed lsn).lastAckTime = ack.lastAckTime := by
  unfold advanceConfirmed
  split <;> exact ⟨rfl, rfl, rfl⟩

theorem shouldAck_iff_dirty {ack : AckManager} {now : Nat} (late : ack.lastAckTime + ack.minInterval ≤ now)
    (early : now < ack.lastAckTime + ack.maxInterval) : ack.shouldAck now = true ↔ ack.dirty = true := by
  have notYet : ¬ ack.maxInterval ≤ now - ack.lastAckTime := by omega
  have passed : ack.minInterval ≤ now - ack.lastAckTime := by omega
  simp [shouldAck, notYet, passed]

end AckManager

end Nendi.Pgsql
