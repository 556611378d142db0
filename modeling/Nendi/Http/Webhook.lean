import Nendi.Lib.Fnv
import Nendi.Lib.Hex
import Nendi.Shared.Event

/-! # Webhook delivery

The dispatcher, the batcher and the dead letter queue of `http/src/egress/webhook`, with the part of
`shared/src/config/loader.rs` that configures them.  The endpoint and the network are a
parameter of `dispatch`, which answers a request with a status or not at all; the clock
reading of a push is an argument of the push. -/

namespace Nendi.Http

open Nendi.Lib Nendi.Shared

/-- The fields that the dispatcher and the retry policy read. -/
structure WebhookTarget where
  url : String
  retryMaxAttempts : UInt32
  signingSecret : Option String
deriving DecidableEq, Repr

/-! ## Dispatcher -/

structure WebhookDispatcher where
  url : String
  signingSecret : Option String
deriving DecidableEq, Repr

structure WebhookRequest where
  url : String
  headers : List (String × String)
  body : String
deriving DecidableEq, Repr

def computeHmac (secret payload : String) : String :=
  -- hashes the secret and behind it the payload
  let hash := fnvFrom fnvOffset (utf8Bytes secret ++ utf8Bytes payload)
  "sha256=" ++ String.ofList (hex hash.toNat)

def eventJson (event : ChangeEvent) : String :=
  -- the object of one event; the names stand between the quotes as they are
  "\x7b\"lsn\":" ++ event.lsn.toNat.repr ++ ",\"xid\":" ++ event.xid.toNat.repr ++
    ",\"op\":\"" ++ event.op.asStr ++ "\",\"table\":\"" ++ event.table.qualified ++
    "\",\"ts\":" ++ event.commitTimestampUs.toInt.repr ++ "\x7d"

namespace WebhookDispatcher

def fromTarget (target : WebhookTarget) : WebhookDispatcher where
  url := target.url
  signingSecret := target.signingSecret

/-- Reads nothing of the dispatcher, and never fails. -/
def buildPayload (events : List ChangeEvent) : String :=
  "[" ++ ",".intercalate (events.map eventJson) ++ "]"

def request (dispatcher : WebhookDispatcher) (events : List ChangeEvent) : WebhookRequest :=
  let payload := buildPayload events
  let headers := [("Content-Type", "application/json"), ("X-Nendi-Events", events.length.repr)]
  let signature :=
    match dispatcher.signingSecret with
    | some secret => [("X-Nendi-Signature", computeHmac secret payload)]
    | none => []
  { url := dispatcher.url, headers := headers ++ signature, body := payload }

def dispatch (send : WebhookRequest → Except String UInt16) (dispatcher : WebhookDispatcher)
    (events : List ChangeEvent) : Except String UInt16 := do
  let status ← send (dispatcher.request events)
  if status ≥ 400 then throw s!"webhook returned HTTP {status}"
  pure status

end WebhookDispatcher

/-! ## Batcher -/

/-- The fields that the batcher reads. -/
structure BatchTarget where
  batchSize : Nat
  lingerMs : UInt64
deriving DecidableEq, Repr

/-- The linger time, in nanoseconds, is kept for the caller. -/
structure WebhookBatcher where
  maxBatchSize : Nat
  maxLinger : Nat
  buffer : List ChangeEvent
deriving DecidableEq, Repr

namespace WebhookBatcher

def new (maxBatchSize maxLinger : Nat) : WebhookBatcher := ⟨maxBatchSize, maxLinger, []⟩

def fromTarget (target : BatchTarget) : WebhookBatcher := new target.batchSize (target.lingerMs.toNat * 1000000)

def push (batcher : WebhookBatcher) (event : ChangeEvent) : WebhookBatcher :=
  { batcher with buffer := batcher.buffer ++ [event] }

/-- A batcher of size zero is full when it is empty. -/
def isFull (batcher : WebhookBatcher) : Bool := decide (batcher.maxBatchSize ≤ batcher.buffer.length)

def drain (batcher : WebhookBatcher) : List ChangeEvent × WebhookBatcher := (batcher.buffer, { batcher with buffer := [] })

end WebhookBatcher

/-! ## Dead letter queue -/

structure DlqEntry where
  event : ChangeEvent
  error : String
  attempts : UInt32
  timestampUs : UInt64
deriving DecidableEq, Repr

/-- The total is a `u64` and wraps, as in the release profile. -/
structure DeadLetterQueue where
  queue : List DlqEntry
  maxSize : Nat
  totalEntries : UInt64
deriving DecidableEq, Repr

inductive DlqCall where
  | push (event : ChangeEvent) (error : String) (attempts : UInt32) (now : UInt64)
  | drainAll
deriving DecidableEq, Repr

namespace DeadLetterQueue

def new (maxSize : Nat) : DeadLetterQueue where
  queue := []
  maxSize
  totalEntries := 0

def push (dlq : DeadLetterQueue) (event : ChangeEvent) (error : String) (attempts : UInt32) (now : UInt64) :
    DeadLetterQueue :=
  -- evicts the oldest entry of a full queue. An empty queue may be full too, if its bound is zero
  let room := if dlq.maxSize ≤ dlq.queue.length then dlq.queue.tail else dlq.queue
  { dlq with
    queue := room ++ [{ event, error, attempts, timestampUs := now }]
    totalEntries := dlq.totalEntries + 1 }

def drainAll (dlq : DeadLetterQueue) : List DlqEntry × DeadLetterQueue := (dlq.queue, { dlq with queue := [] })

def step (dlq : DeadLetterQueue) : DlqCall → List DlqEntry × DeadLetterQueue
  | .push event error attempts now => ([], dlq.push event error attempts now)
  | .drainAll => dlq.drainAll

end DeadLetterQueue

end Nendi.Http
