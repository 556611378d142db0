import Mathlib.Data.List.Induction
import Mathlib.Order.Lattice
import Nendi.Http.Circuit

/-! # The circuit breaker keeps its protocol

Whatever success and failure reports arrive, and when: the breaker trips on the failure
that completes the threshold and on no other, turns everything away until the timeout
has passed, then lets one probe through.  `Consistent` ties counter, state and timestamp
to the calls so far; the promises about a stretch of calls follow from what single steps
do in the states Open and HalfOpen. -/

namespace Nendi.Verified

open Nendi.Http

/-! ## What the protocol says -/

/-- The call reports a success, or the breaker enters Closed with it. -/
def resets (breaker : CircuitBreaker) (timed : TimedCall) : Bool :=
  decide (timed.call = .onSuccess) ||
    decide (breaker.state ≠ .closed ∧ (breaker.step timed).2.state = .closed)

/-- The calls since the later of the last success and the last entry into Closed. -/
def sinceReset (threshold : UInt32) (timeout : Nat) (calls : List TimedCall) : List TimedCall :=
  (calls.foldl (fun (reached : CircuitBreaker × List TimedCall) timed =>
    ((reached.1.step timed).2, if resets reached.1 timed then [] else reached.2 ++ [timed]))
    (.new threshold timeout, [])).2

def failures (calls : List TimedCall) : Nat := calls.countP fun timed => timed.call = .onFailure

structure KeepsProtocol (threshold : UInt32) (timeout : Nat) (calls : List TimedCall) : Prop where
  -- Closed is left exactly on the failure that completes the threshold
  trips : ∀ past timed, past ++ [timed] <+: calls →
    (CircuitBreaker.after threshold timeout past).state = .closed →
    ((CircuitBreaker.after threshold timeout (past ++ [timed])).state ≠ .closed ↔
      timed.call = .onFailure ∧
        failures (sinceReset threshold timeout past) + 1 = max threshold.toNat 1)
  -- once Open is entered, requests are turned away until the timeout has passed
  rejects : ∀ past entry between request, past ++ entry :: (between ++ [request]) <+: calls →
    (CircuitBreaker.after threshold timeout past).state ≠ .open_ →
    (CircuitBreaker.after threshold timeout (past ++ [entry])).state = .open_ →
    request.call = .allowRequest → request.time < entry.time + timeout →
    ((CircuitBreaker.after threshold timeout (past ++ entry :: between)).step request).1 = some false
  -- behind a probe, requests are turned away until a result is reported
  probes : ∀ past probe between request, past ++ probe :: (between ++ [request]) <+: calls →
    (CircuitBreaker.after threshold timeout past).state = .open_ →
    ((CircuitBreaker.after threshold timeout past).step probe).1 = some true →
    (∀ timed ∈ between, timed.call = .allowRequest) → request.call = .allowRequest →
    ((CircuitBreaker.after threshold timeout (past ++ probe :: between)).step request).1 = some false
  -- the timestamp is there exactly outside Closed
  stamped : ∀ past, past <+: calls →
    ((CircuitBreaker.after threshold timeout past).openedAt.isSome = true ↔
      (CircuitBreaker.after threshold timeout past).state ≠ .closed)

/-! ## Counter, state and timestamp -/

variable {threshold : UInt32} {timeout : Nat}

theorem sinceReset_snoc (past : List TimedCall) (timed : TimedCall) :
    sinceReset threshold timeout (past ++ [timed]) =
      if resets (CircuitBreaker.after threshold timeout past) timed then []
      else sinceReset threshold timeout past ++ [timed] := by
  have reached : ∀ calls : List TimedCall,
      (calls.foldl (fun (reached : CircuitBreaker × List TimedCall) timed =>
        ((reached.1.step timed).2, if resets reached.1 timed then [] else reached.2 ++ [timed]))
        (.new threshold timeout, [])).1 = CircuitBreaker.after threshold timeout calls := by
    intro calls
    induction calls using List.reverseRecOn with
    | nil => rfl
    | append_singleton calls last inductionHypothesis =>
      rw [List.foldl_append, CircuitBreaker.after_snoc, ← inductionHypothesis]
      rfl
  rw [sinceReset, List.foldl_append, ← reached]
  rfl

/-- What holds of a breaker that was created with these parameters and has been through
    `past`. -/
structure Consistent (threshold : UInt32) (timeout : Nat) (past : List TimedCall)
    (breaker : CircuitBreaker) : Prop where
  failureThreshold : breaker.failureThreshold = threshold
  recoveryTimeout : breaker.recoveryTimeout = timeout
  stamped : breaker.openedAt.isSome = true ↔ breaker.state ≠ .closed
  counted : breaker.state = .closed →
    breaker.failureCount.toNat = failures (sinceReset threshold timeout past) ∧
      failures (sinceReset threshold timeout past) < max threshold.toNat 1

theorem failures_snoc (calls : List TimedCall) (timed : TimedCall) :
    failures (calls ++ [timed]) = failures calls + if timed.call = .onFailure then 1 else 0 := by
  by_cases isFailure : timed.call = .onFailure
  · simp [failures, isFailure]
  · simp [failures, isFailure]

theorem count_succ {breaker : CircuitBreaker} (below : breaker.failureCount.toNat < max threshold.toNat 1) :
    (breaker.failureCount + 1).toNat = breaker.failureCount.toNat + 1 := by
  have bound := threshold.toNat_lt
  rw [UInt32.toNat_add, UInt32.toNat_one, Nat.mod_eq_of_lt]
  omega

section Transitions

variable {breaker : CircuitBreaker} {timed : TimedCall} {result : Option Bool × CircuitBreaker}

theorem completes_iff {past : List TimedCall} (consistent : Consistent threshold timeout past breaker)
    (closed : breaker.state = .closed) :
    breaker.failureThreshold ≤ breaker.failureCount + 1 ↔
      failures (sinceReset threshold timeout past) + 1 = max threshold.toNat 1 := by
  obtain ⟨counted, below⟩ := consistent.counted closed
  rw [consistent.failureThreshold, UInt32.le_iff_toNat_le, count_succ (counted ▸ below), counted]
  omega

/-- The failure that completes the threshold opens the breaker, and nothing else changes
    its state. -/
theorem trips_iff {past : List TimedCall} (consistent : Consistent threshold timeout past breaker)
    (closed : breaker.state = .closed) (transition : breaker.Transition timed result) :
    result.2.state ≠ .closed ↔
      timed.call = .onFailure ∧
        failures (sinceReset threshold timeout past) + 1 = max threshold.toNat 1 := by
  have complete := completes_iff consistent closed
  cases transition with
  | pass _ asks => simp [closed, asks]
  | probe opened _ _ _ => simp [closed] at opened
  | turnAway notClosed _ => exact absurd closed notClosed
  | recover halfOpen _ => simp [closed] at halfOpen
  | clear _ succeeds => simp [closed, succeeds]
  | trip _ reached fails => simp [fails, ← complete, reached closed]
  | count _ below fails => simp [closed, fails, ← complete, below closed]

theorem closes_iff (notClosed : breaker.state ≠ .closed) (transition : breaker.Transition timed result) :
    result.2.state = .closed ↔ breaker.state = .halfOpen ∧ timed.call = .onSuccess := by
  cases transition with
  | pass closed _ => exact absurd closed notClosed
  | probe _ _ _ asks => simp [asks]
  | turnAway _ asks => simp [notClosed, asks]
  | recover halfOpen succeeds => simp [halfOpen, succeeds]
  | clear notHalfOpen _ => simp [notClosed, notHalfOpen]
  | trip _ _ fails => simp [fails]
  | count _ _ fails => simp [notClosed, fails]

theorem parameters_kept (transition : breaker.Transition timed result) :
    result.2.failureThreshold = breaker.failureThreshold ∧
      result.2.recoveryTimeout = breaker.recoveryTimeout := by
  cases transition <;> exact ⟨rfl, rfl⟩

theorem stamped_kept (stamped : breaker.openedAt.isSome = true ↔ breaker.state ≠ .closed)
    (transition : breaker.Transition timed result) :
    result.2.openedAt.isSome = true ↔ result.2.state ≠ .closed := by
  -- every way into Open sets the timestamp and the way into Closed removes it
  cases transition with
  | probe _ found _ _ => simp [found]
  | recover _ _ => simp
  | trip _ _ _ => simp
  | pass _ _ => exact stamped
  | turnAway _ _ => exact stamped
  | clear _ _ => exact stamped
  | count _ _ _ => exact stamped

theorem resets_eq (breaker : CircuitBreaker) (timed : TimedCall) :
    resets breaker timed = decide (timed.call = .onSuccess) := by
  -- Closed is entered by a success, so that only successes reset the count
  by_cases succeeds : timed.call = .onSuccess
  · simp [resets, succeeds]
  · have staysOut : breaker.state ≠ .closed → (breaker.step timed).2.state ≠ .closed := by
      intro notClosed closes
      exact succeeds ((closes_iff notClosed (breaker.step_transition timed)).mp closes).2
    simpa [resets, succeeds] using staysOut

theorem counted_kept {past : List TimedCall} (consistent : Consistent threshold timeout past breaker)
    (transition : breaker.Transition timed result) (closed : result.2.state = .closed) :
    let calls := if timed.call = .onSuccess then [] else sinceReset threshold timeout past ++ [timed]
    result.2.failureCount.toNat = failures calls ∧ failures calls < max threshold.toNat 1 := by
  cases transition with
  | pass _ asks => simpa [asks, failures_snoc] using consistent.counted closed
  | probe _ _ _ _ => cases closed
  | turnAway notClosed _ => exact absurd closed notClosed
  | recover _ succeeds => simp [succeeds, failures]
  | clear _ succeeds => simp [succeeds, failures]
  | trip _ _ _ => cases closed
  | count _ short fails =>
    obtain ⟨counted, below⟩ := consistent.counted closed
    -- had this failure completed the threshold, the breaker would be open
    have incomplete := (completes_iff consistent closed).not.mp (short closed)
    simp only [fails, reduceCtorEq, if_false, failures_snoc, if_true, count_succ (counted ▸ below), counted,
      true_and]
    omega

end Transitions

theorem consistent_after (past : List TimedCall) :
    Consistent threshold timeout past (CircuitBreaker.after threshold timeout past) := by
  induction past using List.reverseRecOn with
  | nil =>
    refine ⟨rfl, rfl, by simp [CircuitBreaker.new], fun _ => ⟨rfl, ?_⟩⟩
    exact Nat.lt_of_lt_of_le Nat.zero_lt_one (le_max_right _ _)
  | append_singleton past timed inductionHypothesis =>
    have transition := (CircuitBreaker.after threshold timeout past).step_transition timed
    obtain ⟨sameThreshold, sameTimeout⟩ := parameters_kept transition
    rw [CircuitBreaker.after_snoc]
    refine ⟨sameThreshold.trans inductionHypothesis.failureThreshold,
      sameTimeout.trans inductionHypothesis.recoveryTimeout,
      stamped_kept inductionHypothesis.stamped transition, ?_⟩
    intro closed
    simpa only [sinceReset_snoc, resets_eq, decide_eq_true_eq] using
      counted_kept inductionHypothesis transition closed

/-! ## Stretches of calls -/

theorem after_append (past later : List TimedCall) :
    CircuitBreaker.after threshold timeout (past ++ later) =
      later.foldl (fun breaker timed => (breaker.step timed).2)
        (CircuitBreaker.after threshold timeout past) := List.foldl_append

theorem openedAt_of_entry {breaker : CircuitBreaker} {timed : TimedCall}
    {result : Option Bool × CircuitBreaker} (before : breaker.state ≠ .open_)
    (transition : breaker.Transition timed result) (entered : result.2.state = .open_) :
    result.2.openedAt = some timed.time := by
  cases transition with
  | trip _ _ _ => rfl
  | probe _ _ _ _ => cases entered
  | recover _ _ => cases entered
  | pass _ _ => exact absurd entered before
  | turnAway _ _ => exact absurd entered before
  | clear _ _ => exact absurd entered before
  | count _ _ _ => exact absurd entered before

def OpenSince (timeout since : Nat) (breaker : CircuitBreaker) : Prop :=
  breaker.state = .open_ ∧ breaker.openedAt = some since ∧ breaker.recoveryTimeout = timeout

theorem openSince_kept {since : Nat} {breaker : CircuitBreaker} {timed : TimedCall}
    {result : Option Bool × CircuitBreaker} (isOpen : OpenSince timeout since breaker)
    (later : since ≤ timed.time) (early : timed.time < since + timeout)
    (transition : breaker.Transition timed result) :
    OpenSince timeout since result.2 ∧ (timed.call = .allowRequest → result.1 = some false) := by
  obtain ⟨opened, openedAt, recovery⟩ := isOpen
  cases transition with
  | pass closed _ => simp [opened] at closed
  | probe _ found passed _ =>
    -- the timestamp is `since`, and not long enough ago
    cases openedAt.symm.trans found
    omega
  | turnAway _ _ => exact ⟨⟨opened, openedAt, recovery⟩, fun _ => rfl⟩
  | recover halfOpen _ => simp [opened] at halfOpen
  | clear _ succeeds => exact ⟨⟨opened, openedAt, recovery⟩, by simp [succeeds]⟩
  | trip notOpen _ _ => exact absurd opened notOpen
  | count _ _ fails => exact ⟨⟨opened, openedAt, recovery⟩, by simp [fails]⟩

theorem stretch_openSince {since : Nat} {breaker : CircuitBreaker} (isOpen : OpenSince timeout since breaker)
    {between : List TimedCall} (later : ∀ timed ∈ between, since ≤ timed.time)
    (early : ∀ timed ∈ between, timed.time < since + timeout) :
    OpenSince timeout since (between.foldl (fun breaker timed => (breaker.step timed).2) breaker) := by
  induction between generalizing breaker with
  | nil => exact isOpen
  | cons timed between inductionHypothesis =>
    have next := openSince_kept isOpen (later timed List.mem_cons_self) (early timed List.mem_cons_self)
      (breaker.step_transition timed)
    exact inductionHypothesis next.1 (fun other member => later other (List.mem_cons_of_mem _ member))
      (fun other member => early other (List.mem_cons_of_mem _ member))

theorem step_halfOpen {breaker : CircuitBreaker} (halfOpen : breaker.state = .halfOpen) {timed : TimedCall}
    (isRequest : timed.call = .allowRequest) : breaker.step timed = (some false, breaker) := by
  simp [CircuitBreaker.step, isRequest, CircuitBreaker.allowRequest, halfOpen]

theorem stretch_halfOpen {breaker : CircuitBreaker} (halfOpen : breaker.state = .halfOpen)
    {between : List TimedCall} (requests : ∀ timed ∈ between, timed.call = .allowRequest) :
    between.foldl (fun breaker timed => (breaker.step timed).2) breaker = breaker := by
  induction between with
  | nil => rfl
  | cons timed between inductionHypothesis =>
    rw [List.foldl_cons, step_halfOpen halfOpen (requests timed List.mem_cons_self)]
    exact inductionHypothesis fun other member => requests other (List.mem_cons_of_mem _ member)

theorem halfOpen_of_probe {breaker : CircuitBreaker} {probe : TimedCall}
    {result : Option Bool × CircuitBreaker} (opened : breaker.state = .open_)
    (transition : breaker.Transition probe result) (allowed : result.1 = some true) :
    result.2.state = .halfOpen := by
  cases transition with
  | probe _ _ _ _ => rfl
  | pass closed _ => simp [opened] at closed
  | turnAway _ _ => cases allowed
  | recover _ _ => cases allowed
  | clear _ _ => cases allowed
  | trip _ _ _ => cases allowed
  | count _ _ _ => cases allowed

/-- Every run of a breaker through calls at non-decreasing times keeps the protocol. -/
theorem circuit_keeps_protocol (threshold : UInt32) (timeout : Nat) (calls : List TimedCall)
    (ordered : calls.Pairwise fun earlier later => earlier.time ≤ later.time) :
    KeepsProtocol threshold timeout calls := by
  constructor
  case trips =>
    intro past timed _ closed
    rw [CircuitBreaker.after_snoc]
    exact trips_iff (consistent_after past) closed (CircuitBreaker.step_transition _ timed)
  case rejects =>
    intro past entry between request within before entered isRequest early
    have times := ordered.sublist within.sublist
    rw [List.pairwise_append, List.pairwise_cons, List.pairwise_append] at times
    obtain ⟨_, ⟨behindEntry, _, _, beforeRequest⟩, _⟩ := times
    rw [CircuitBreaker.after_snoc] at entered
    have isOpen : OpenSince timeout entry.time
        ((CircuitBreaker.after threshold timeout past).step entry).2 :=
      ⟨entered, openedAt_of_entry before (CircuitBreaker.step_transition _ entry) entered,
        (parameters_kept (CircuitBreaker.step_transition _ entry)).2.trans
          (consistent_after past).recoveryTimeout⟩
    -- what comes before the request comes before the timeout too
    have stays := stretch_openSince isOpen
      (fun timed member => behindEntry timed (List.mem_append_left _ member))
      (fun timed member => (beforeRequest timed member request (List.mem_singleton_self _)).trans_lt early)
    rw [List.append_cons, after_append, CircuitBreaker.after_snoc]
    exact (openSince_kept stays (behindEntry request (by simp)) early
      (CircuitBreaker.step_transition _ request)).2 isRequest
  case probes =>
    intro past probe between request _ opened allowed requests isRequest
    have halfOpen := halfOpen_of_probe opened (CircuitBreaker.step_transition _ probe) allowed
    rw [List.append_cons, after_append, CircuitBreaker.after_snoc, stretch_halfOpen halfOpen requests,
      step_halfOpen halfOpen isRequest]
  case stamped =>
    intro past _
    exact (consistent_after past).stamped

/-- Two failures trip a breaker with threshold two, and it turns away a request that comes
    too early. -/
theorem circuit_keeps_protocol_two_failures :
    KeepsProtocol 2 10 [⟨0, .onFailure⟩, ⟨1, .onFailure⟩, ⟨5, .allowRequest⟩] :=
  circuit_keeps_protocol 2 10 _ (by simp)

end Nendi.Verified
