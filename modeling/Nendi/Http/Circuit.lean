import Mathlib.Data.List.Basic

/-! # The circuit breaker of a webhook endpoint

`CircuitBreaker` of `http/src/egress/webhook/circuit.rs`.  Clock readings and the
timeout are in nanoseconds, and a reading is an argument of the call that takes it.
The counter is a `u32` and wraps, as in the release profile. -/

namespace Nendi.Http

inductive CircuitState where
  | closed
  | open_
  | halfOpen
deriving DecidableEq, Repr

structure CircuitBreaker where
  state : CircuitState
  failureCount : UInt32
  failureThreshold : UInt32
  recoveryTimeout : Nat
  openedAt : Option Nat
deriving DecidableEq, Repr

inductive CircuitCall where
  | allowRequest
  | onSuccess
  | onFailure
deriving DecidableEq, Repr

structure TimedCall where
  time : Nat
  call : CircuitCall
deriving DecidableEq, Repr

namespace CircuitBreaker

def new (failureThreshold : UInt32) (recoveryTimeout : Nat) : CircuitBreaker where
  state := .closed
  failureCount := 0
  failureThreshold
  recoveryTimeout
  openedAt := none

def allowRequest (breaker : CircuitBreaker) (now : Nat) : Bool × CircuitBreaker :=
  -- `elapsed` is zero for a clock that went back
  match breaker.state with
  | .closed => (true, breaker)
  | .open_ =>
    match breaker.openedAt with
    | some openedAt =>
      if breaker.recoveryTimeout ≤ now - openedAt then (true, { breaker with state := .halfOpen })
      else (false, breaker)
    | none => (false, breaker)
  -- the one probe is already under way
  | .halfOpen => (false, breaker)

def onSuccess (breaker : CircuitBreaker) : CircuitBreaker :=
  match breaker.state with
  | .halfOpen => { breaker with state := .closed, failureCount := 0, openedAt := none }
  | _ => { breaker with failureCount := 0 }

def onFailure (breaker : CircuitBreaker) (now : Nat) : CircuitBreaker :=
  let counted := { breaker with failureCount := breaker.failureCount + 1 }
  match breaker.state with
  | .closed =>
    if counted.failureThreshold ≤ counted.failureCount then
      { counted with state := .open_, openedAt := some now }
    else counted
  | .halfOpen => { counted with state := .open_, openedAt := some now }
  -- a late failure of a request from before the trip
  | .open_ => counted

def step (breaker : CircuitBreaker) (timed : TimedCall) : Option Bool × CircuitBreaker :=
  match timed.call with
  | .allowRequest =>
    let (allowed, next) := breaker.allowRequest timed.time
    (some allowed, next)
  | .onSuccess => (none, breaker.onSuccess)
  | .onFailure => (none, breaker.onFailure timed.time)

/-- What a call can do: the arms of the three functions, those with the same effect in one. -/
inductive Transition (breaker : CircuitBreaker) (timed : TimedCall) :
    Option Bool × CircuitBreaker → Prop where
  | pass (closed : breaker.state = .closed) (asks : timed.call = .allowRequest) :
      Transition breaker timed (some true, breaker)
  | probe {openedAt : Nat} (opened : breaker.state = .open_) (stamped : breaker.openedAt = some openedAt)
      (passed : breaker.recoveryTimeout ≤ timed.time - openedAt) (asks : timed.call = .allowRequest) :
      Transition breaker timed (some true, { breaker with state := .halfOpen })
  | turnAway (notClosed : breaker.state ≠ .closed) (asks : timed.call = .allowRequest) :
      Transition breaker timed (some false, breaker)
  | recover (halfOpen : breaker.state = .halfOpen) (succeeds : timed.call = .onSuccess) :
      Transition breaker timed
        (none, { breaker with state := .closed, failureCount := 0, openedAt := none })
  | clear (notHalfOpen : breaker.state ≠ .halfOpen) (succeeds : timed.call = .onSuccess) :
      Transition breaker timed (none, { breaker with failureCount := 0 })
  | trip (notOpen : breaker.state ≠ .open_)
      (reached : breaker.state = .closed → breaker.failureThreshold ≤ breaker.failureCount + 1)
      (fails : timed.call = .onFailure) :
      Transition breaker timed (none, { breaker with
        state := .open_, failureCount := breaker.failureCount + 1, openedAt := some timed.time })
  | count (notHalfOpen : breaker.state ≠ .halfOpen)
      (below : breaker.state = .closed → ¬ breaker.failureThreshold ≤ breaker.failureCount + 1)
      (fails : timed.call = .onFailure) :
      Transition breaker timed (none, { breaker with failureCount := breaker.failureCount + 1 })

theorem allowRequest_transition (breaker : CircuitBreaker) {timed : TimedCall}
    (asks : timed.call = .allowRequest) : Transition breaker timed (breaker.step timed) := by
  simp only [step, asks, allowRequest]
  split
  next closed => exact .pass closed asks
  next opened =>
    split
    next openedAt stamped =>
      split
      next passed => exact .probe opened stamped passed asks
      next => exact .turnAway (by simp [opened]) asks
    next => exact .turnAway (by simp [opened]) asks
  next halfOpen => exact .turnAway (by simp [halfOpen]) asks

theorem onSuccess_transition (breaker : CircuitBreaker) {timed : TimedCall}
    (succeeds : timed.call = .onSuccess) : Transition breaker timed (breaker.step timed) := by
  simp only [step, succeeds, onSuccess]
  split
  next halfOpen => exact .recover halfOpen succeeds
  next notHalfOpen => exact .clear notHalfOpen succeeds

theorem onFailure_transition (breaker : CircuitBreaker) {timed : TimedCall}
    (fails : timed.call = .onFailure) : Transition breaker timed (breaker.step timed) := by
  simp only [step, fails, onFailure]
  split
  next closed =>
    split
    next reached => exact .trip (by simp [closed]) (fun _ => reached) fails
    next below => exact .count (by simp [closed]) (fun _ => below) fails
  next halfOpen => exact .trip (by simp [halfOpen]) (by simp [halfOpen]) fails
  next opened => exact .count (by simp [opened]) (by simp [opened]) fails

theorem step_transition (breaker : CircuitBreaker) (timed : TimedCall) :
    Transition breaker timed (breaker.step timed) := by
  cases called : timed.call with
  | allowRequest => exact breaker.allowRequest_transition called
  | onSuccess => exact breaker.onSuccess_transition called
  | onFailure => exact breaker.onFailure_transition called

def after (failureThreshold : UInt32) (recoveryTimeout : Nat) (calls : List TimedCall) : CircuitBreaker :=
  calls.foldl (fun breaker timed => (breaker.step timed).2) (new failureThreshold recoveryTimeout)

variable {failureThreshold : UInt32} {recoveryTimeout : Nat}

@[simp] theorem after_nil :
    after failureThreshold recoveryTimeout [] = new failureThreshold recoveryTimeout := rfl

theorem after_snoc (past : List TimedCall) (timed : TimedCall) :
    after failureThreshold recoveryTimeout (past ++ [timed]) =
      ((after failureThreshold recoveryTimeout past).step timed).2 := by
  rw [after, List.foldl_append]
  rfl

end CircuitBreaker

end Nendi.Http
