import Mathlib.Order.Bounds.Basic
import Nendi.Lib.Machine
import Nendi.Pgsql.Ack

/-! # Acknowledgements say how far things are

LSNs are received and confirmed in any order, and a status tells the server how far each
of the two has got.  No status goes back behind an earlier one, and whenever one of the
positions has moved since the last status, the mark that asks for another is set. -/

namespace Nendi.Verified

open Nendi.Lib Nendi.Shared Nendi.Pgsql

/-! ## What has been reported -/

def received (calls : List AckCall) : Set Lsn := {lsn | .advanceReceived lsn ∈ calls}

def confirmed (calls : List AckCall) : Set Lsn := {lsn | .advanceConfirmed lsn ∈ calls}

/-- The greatest LSNs received and confirmed, which are zero if there is none. -/
structure Maxima (calls : List AckCall) (write flush : Lsn) : Prop where
  received : IsGreatest (insert Lsn.zero (received calls)) write
  confirmed : IsGreatest (insert Lsn.zero (confirmed calls)) flush

def acknowledged (minInterval maxInterval start : Nat) (calls : List AckCall) :
    AckManager × List (AckCall × Option Status) :=
  trace AckManager.step (.new minInterval maxInterval start) calls

def statuses (history : List (AckCall × Option Status)) : List Status := history.filterMap Prod.snd

def lastSent (history : List (AckCall × Option Status)) : Lsn × Lsn :=
  ((statuses history).getLast?.map fun status => (status.1, status.2.1)).getD (Lsn.zero, Lsn.zero)

def lastSentAt (start : Nat) (calls : List AckCall) : Nat :=
  calls.foldl (fun time call =>
    match call with
    | .buildStatusUpdate now => now
    | _ => time) start

structure Acknowledges (minInterval maxInterval start : Nat) (calls : List AckCall) : Prop where
  exact_ : ∀ past now, past ++ [.buildStatusUpdate now] <+: calls → ∃ write flush, Maxima past write flush ∧
    ((acknowledged minInterval maxInterval start past).1.buildStatusUpdate now).1 = (write, flush, flush)
  -- statuses are compared position by position
  ascending : (statuses (acknowledged minInterval maxInterval start calls).2).Pairwise (· ≤ ·)
  -- between the two intervals a status is due exactly if there is something new to say
  due : ∀ past now, past <+: calls → lastSentAt start past + minInterval ≤ now →
    now < lastSentAt start past + maxInterval → ∃ write flush, Maxima past write flush ∧
      ((acknowledged minInterval maxInterval start past).1.shouldAck now = true ↔
        (write, flush) ≠ lastSent (acknowledged minInterval maxInterval start past).2)

/-! ## One call more -/

section Snoc

variable (calls : List AckCall) (lsn : Lsn) (now : Nat)

@[simp] theorem received_advanceReceived :
    received (calls ++ [.advanceReceived lsn]) = insert lsn (received calls) := by
  ext other
  simp [received, or_comm]

@[simp] theorem received_advanceConfirmed :
    received (calls ++ [.advanceConfirmed lsn]) = received calls := by
  simp [received]

@[simp] theorem received_buildStatusUpdate :
    received (calls ++ [.buildStatusUpdate now]) = received calls := by
  simp [received]

@[simp] theorem confirmed_advanceReceived :
    confirmed (calls ++ [.advanceReceived lsn]) = confirmed calls := by
  simp [confirmed]

@[simp] theorem confirmed_advanceConfirmed :
    confirmed (calls ++ [.advanceConfirmed lsn]) = insert lsn (confirmed calls) := by
  ext other
  simp [confirmed, or_comm]

@[simp] theorem confirmed_buildStatusUpdate :
    confirmed (calls ++ [.buildStatusUpdate now]) = confirmed calls := by
  simp [confirmed]

end Snoc

@[simp] theorem statuses_none (history : List (AckCall × Option Status)) (call : AckCall) :
    statuses (history ++ [(call, none)]) = statuses history := by
  simp [statuses]

@[simp] theorem statuses_some (history : List (AckCall × Option Status)) (call : AckCall) (status : Status) :
    statuses (history ++ [(call, some status)]) = statuses history ++ [status] := by
  simp [statuses]

@[simp] theorem lastSent_none (history : List (AckCall × Option Status)) (call : AckCall) :
    lastSent (history ++ [(call, none)]) = lastSent history := by
  simp [lastSent]

@[simp] theorem lastSent_some (history : List (AckCall × Option Status)) (call : AckCall) (status : Status) :
    lastSent (history ++ [(call, some status)]) = (status.1, status.2.1) := by
  simp [lastSent]

theorem isGreatest_ahead {lsns : Set Lsn} {current lsn : Lsn}
    (isGreatest : IsGreatest (insert Lsn.zero lsns) current) (ahead : current < lsn) :
    IsGreatest (insert Lsn.zero (insert lsn lsns)) lsn := by
  have grown := isGreatest.insert lsn
  rwa [max_eq_left (le_of_lt ahead), Set.insert_comm] at grown

theorem isGreatest_behind {lsns : Set Lsn} {current lsn : Lsn}
    (isGreatest : IsGreatest (insert Lsn.zero lsns) current) (behind : lsn ≤ current) :
    IsGreatest (insert Lsn.zero (insert lsn lsns)) current := by
  have grown := isGreatest.insert lsn
  rwa [max_eq_right behind, Set.insert_comm] at grown

/-! ## The invariant -/

/-- What ties a manager to the calls and statuses so far. -/
structure Settled (calls : List AckCall) (history : List (AckCall × Option Status)) (ack : AckManager) :
    Prop where
  maxima : Maxima calls ack.receivedLsn ack.confirmedFlushLsn
  ascending : (statuses history).Pairwise (· ≤ ·)
  sent : ∀ status ∈ statuses history,
    status ≤ (ack.receivedLsn, ack.confirmedFlushLsn, ack.confirmedFlushLsn)
  dirty : ack.dirty = true ↔ (ack.receivedLsn, ack.confirmedFlushLsn) ≠ lastSent history

variable {calls : List AckCall} {history : List (AckCall × Option Status)} {ack : AckManager}

theorem Settled.lastSent_le (settled : Settled calls history ack) :
    lastSent history ≤ (ack.receivedLsn, ack.confirmedFlushLsn) := by
  cases last : (statuses history).getLast? with
  | none =>
    rw [lastSent, last]
    exact ⟨settled.maxima.received.2 (Set.mem_insert _ _), settled.maxima.confirmed.2 (Set.mem_insert _ _)⟩
  | some status =>
    have behind := settled.sent status (List.mem_of_getLast? last)
    rw [lastSent, last]
    exact ⟨behind.1, behind.2.1⟩

theorem Settled.moved (settled : Settled calls history ack) {call : AckCall} {write flush : Lsn}
    (maxima : Maxima (calls ++ [call]) write flush)
    (forward : (ack.receivedLsn, ack.confirmedFlushLsn) < (write, flush)) :
    Settled (calls ++ [call]) (history ++ [(call, none)])
      { ack with receivedLsn := write, confirmedFlushLsn := flush, dirty := true } := by
  constructor
  case maxima => exact maxima
  case ascending => simpa using settled.ascending
  case sent =>
    intro status member
    rw [statuses_none] at member
    have before := settled.sent status member
    exact ⟨before.1.trans forward.le.1, before.2.1.trans forward.le.2, before.2.2.trans forward.le.2⟩
  case dirty =>
    have behind := settled.lastSent_le.trans_lt forward
    rw [lastSent_none]
    exact iff_of_true rfl behind.ne'

theorem Settled.ignored (settled : Settled calls history ack) {call : AckCall}
    (maxima : Maxima (calls ++ [call]) ack.receivedLsn ack.confirmedFlushLsn) :
    Settled (calls ++ [call]) (history ++ [(call, none)]) ack := by
  constructor
  case maxima => exact maxima
  case ascending => simpa using settled.ascending
  case sent => simpa using settled.sent
  case dirty => simpa using settled.dirty

theorem Settled.advanceReceived (settled : Settled calls history ack) (lsn : Lsn) :
    Settled (calls ++ [.advanceReceived lsn]) (history ++ [(.advanceReceived lsn, none)])
      (ack.advanceReceived lsn) := by
  have sameConfirmed := settled.maxima.confirmed
  rw [← confirmed_advanceReceived calls lsn] at sameConfirmed
  obtain ⟨ahead, taken⟩ | ⟨behind, ignored⟩ := ack.advanceReceived_cases lsn
  · have greatest := isGreatest_ahead settled.maxima.received ahead
    rw [← received_advanceReceived] at greatest
    rw [taken]
    exact settled.moved ⟨greatest, sameConfirmed⟩ (Prod.mk_lt_mk_iff_left.mpr ahead)
  · have greatest := isGreatest_behind settled.maxima.received behind
    rw [← received_advanceReceived] at greatest
    rw [ignored]
    exact settled.ignored ⟨greatest, sameConfirmed⟩

theorem Settled.advanceConfirmed (settled : Settled calls history ack) (lsn : Lsn) :
    Settled (calls ++ [.advanceConfirmed lsn]) (history ++ [(.advanceConfirmed lsn, none)])
      (ack.advanceConfirmed lsn) := by
  have sameReceived := settled.maxima.received
  rw [← received_advanceConfirmed calls lsn] at sameReceived
  obtain ⟨ahead, taken⟩ | ⟨behind, ignored⟩ := ack.advanceConfirmed_cases lsn
  · have greatest := isGreatest_ahead settled.maxima.confirmed ahead
    rw [← confirmed_advanceConfirmed] at greatest
    rw [taken]
    exact settled.moved ⟨sameReceived, greatest⟩ (Prod.mk_lt_mk_iff_right.mpr ahead)
  · have greatest := isGreatest_behind settled.maxima.confirmed behind
    rw [← confirmed_advanceConfirmed] at greatest
    rw [ignored]
    exact settled.ignored ⟨sameReceived, greatest⟩

theorem Settled.buildStatusUpdate (settled : Settled calls history ack) (now : Nat) :
    Settled (calls ++ [.buildStatusUpdate now])
      (history ++ [(.buildStatusUpdate now, some (ack.buildStatusUpdate now).1)])
      (ack.buildStatusUpdate now).2 := by
  constructor
  case maxima =>
    constructor
    · simpa [AckManager.buildStatusUpdate] using settled.maxima.received
    · simpa [AckManager.buildStatusUpdate] using settled.maxima.confirmed
  case ascending =>
    rw [statuses_some, List.pairwise_append]
    refine ⟨settled.ascending, List.pairwise_singleton _ _, ?_⟩
    intro earlier member later last
    rw [List.mem_singleton.mp last]
    exact settled.sent earlier member
  case sent =>
    intro status member
    rw [statuses_some, List.mem_append, List.mem_singleton] at member
    obtain earlier | rfl := member
    · exact settled.sent status earlier
    · exact le_refl _
  case dirty => simp [AckManager.buildStatusUpdate]

/-! ## Runs -/

variable (minInterval maxInterval start : Nat)

theorem acknowledged_snoc (calls : List AckCall) (call : AckCall) :
    acknowledged minInterval maxInterval start (calls ++ [call]) =
      (((acknowledged minInterval maxInterval start calls).1.step call).2,
        (acknowledged minInterval maxInterval start calls).2 ++
          [(call, ((acknowledged minInterval maxInterval start calls).1.step call).1)]) :=
  trace_snoc _ _ calls call

theorem settled_after (calls : List AckCall) :
    Settled calls (acknowledged minInterval maxInterval start calls).2
      (acknowledged minInterval maxInterval start calls).1 := by
  induction calls using List.reverseRecOn with
  | nil =>
    have nothing : Maxima [] Lsn.zero Lsn.zero := by
      constructor <;> simp [received, confirmed]
    exact ⟨nothing, List.Pairwise.nil, nofun, by simp [acknowledged, trace, AckManager.new, lastSent, statuses]⟩
  | append_singleton calls call inductionHypothesis =>
    rw [acknowledged_snoc]
    cases call with
    | advanceReceived lsn => exact inductionHypothesis.advanceReceived lsn
    | advanceConfirmed lsn => exact inductionHypothesis.advanceConfirmed lsn
    | buildStatusUpdate now => exact inductionHypothesis.buildStatusUpdate now

theorem timed_after (calls : List AckCall) :
    (acknowledged minInterval maxInterval start calls).1.minInterval = minInterval ∧
      (acknowledged minInterval maxInterval start calls).1.maxInterval = maxInterval ∧
      (acknowledged minInterval maxInterval start calls).1.lastAckTime = lastSentAt start calls := by
  induction calls using List.reverseRecOn with
  | nil => exact ⟨rfl, rfl, rfl⟩
  | append_singleton calls call inductionHypothesis =>
    rw [acknowledged_snoc, lastSentAt, List.foldl_append]
    obtain ⟨sameMin, sameMax, sameTime⟩ := inductionHypothesis
    cases call with
    | advanceReceived lsn =>
      have kept := (acknowledged minInterval maxInterval start calls).1.advanceReceived_times lsn
      exact ⟨kept.1.trans sameMin, kept.2.1.trans sameMax, kept.2.2.trans sameTime⟩
    | advanceConfirmed lsn =>
      have kept := (acknowledged minInterval maxInterval start calls).1.advanceConfirmed_times lsn
      exact ⟨kept.1.trans sameMin, kept.2.1.trans sameMax, kept.2.2.trans sameTime⟩
    | buildStatusUpdate now => exact ⟨sameMin, sameMax, rfl⟩

/-- Whatever is received and confirmed, and in whichever order. -/
theorem acknowledgements_keep_up (minInterval maxInterval start : Nat) (calls : List AckCall) :
    Acknowledges minInterval maxInterval start calls := by
  constructor
  case exact_ =>
    intro past now _
    exact ⟨_, _, (settled_after minInterval maxInterval start past).maxima, rfl⟩
  case ascending => exact (settled_after minInterval maxInterval start calls).ascending
  case due =>
    intro past now _ late early
    have settled := settled_after minInterval maxInterval start past
    obtain ⟨sameMin, sameMax, sameTime⟩ := timed_after minInterval maxInterval start past
    refine ⟨_, _, settled.maxima, ?_⟩
    rw [AckManager.shouldAck_iff_dirty (by omega) (by omega)]
    exact settled.dirty

end Nendi.Verified
