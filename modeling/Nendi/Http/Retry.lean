import Nendi.Http.Webhook
import Nendi.Lib.Duration

/-! # Retries of webhook deliveries

`RetryPolicy` of `http/src/egress/webhook/retry.rs`.  The multiplier, an `f64`, and its
powers are read as exact rationals. -/

namespace Nendi.Http

open Nendi.Lib

structure RetryPolicy where
  maxAttempts : UInt32
  initialBackoff : Duration
  maxBackoff : Duration
  multiplier : ℚ
deriving DecidableEq, Repr

namespace RetryPolicy

def new (maxAttempts : UInt32) (initialBackoff : Duration) : RetryPolicy where
  maxAttempts
  initialBackoff
  maxBackoff := .fromSecs 60
  multiplier := 2

def fromTarget (target : WebhookTarget) : RetryPolicy := new target.retryMaxAttempts (.fromMillis 500)

def backoffFor (policy : RetryPolicy) (attempt : UInt32) : Option Duration :=
  -- `none` where it panics: the product is made before it is capped. `attempt as i32` is negative
  -- from `2 ^ 31` on, and so is the exponent
  (policy.initialBackoff.mulF64 (policy.multiplier ^ attempt.toInt32.toInt)).map (min · policy.maxBackoff)

/-- The sum wraps, as in the release profile. -/
def shouldRetry (policy : RetryPolicy) (attempt : UInt32) : Bool := attempt + 1 < policy.maxAttempts

end RetryPolicy

end Nendi.Http
