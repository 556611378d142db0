import Nendi.Lib.Duration

/-! # The replication throttle

`ReplicationThrottle` of `services/pgsql/src/replication/throttle.rs`, a token bucket.  Its
`f64` numbers are read as exact rationals.  Clock readings are in nanoseconds, and a reading
is an argument of the call that takes it. -/

namespace Nendi.Pgsql

open Nendi.Lib

structure ReplicationThrottle where
  burst : UInt64
  rate : ℚ
  tokens : ℚ
  lastRefill : Nat
deriving DecidableEq, Repr

namespace ReplicationThrottle

def new (msgsPerSec : ℚ) (burst : UInt64) (now : Nat) : ReplicationThrottle where
  burst
  rate := msgsPerSec
  tokens := burst.toNat
  lastRefill := now

/-- `f64::MAX`. -/
def f64Max : ℚ := (2 ^ 53 - 1) * 2 ^ 971

def unlimited (now : Nat) : ReplicationThrottle where
  burst := 0xFFFFFFFFFFFFFFFF
  rate := f64Max
  tokens := f64Max
  lastRefill := now

def refill (throttle : ReplicationThrottle) (now : Nat) : ReplicationThrottle :=
  -- `duration_since` is zero for a clock that went back
  let elapsed : ℚ := ((now - throttle.lastRefill : Nat) : ℚ) / 10 ^ 9
  let newTokens := elapsed * throttle.rate
  { throttle with
    tokens := min (throttle.tokens + newTokens) throttle.burst.toNat
    lastRefill := now }

def tryAcquire (throttle : ReplicationThrottle) (now : Nat) : Bool × ReplicationThrottle :=
  let refilled := throttle.refill now
  if 1 ≤ refilled.tokens then (true, { refilled with tokens := refilled.tokens - 1 })
  else (false, refilled)

def backoffDuration (throttle : ReplicationThrottle) : Option Duration :=
  -- `none` where it panics; without a rate the quotient is infinite
  if 1 ≤ throttle.tokens then some .zero
  else if throttle.rate = 0 then none
  else Duration.fromSecsF64 ((1 - throttle.tokens) / throttle.rate)

end ReplicationThrottle

end Nendi.Pgsql
