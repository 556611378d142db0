import Nendi.Lib.Machine
import Nendi.Shared.Event

/-! # Consumer streams

`ConsumerStream` and `GrpcBackpressure` of `http/src/egress/grpc`.  The channel between a
stream and its consumer is not part of the repository: `Mpsc` says what the stream calls and
what is assumed of it. -/

namespace Nendi.Http

open Nendi.Lib Nendi.Shared

/-! ## The channel -/

inductive TrySendError (α : Type) where
  | full (item : α)
  | closed (item : α)

def TrySendError.item {α : Type} : TrySendError α → α
  | .full item => item
  | .closed item => item

/-- A bounded channel: its calls, what can be said about its states, and how they go together.
    A state stands for both ends. -/
structure Mpsc (α : Type) where
  State : Type
  -- `mpsc::channel` panics on a capacity of zero
  channel : (capacity : Nat) → 0 < capacity → State
  trySend : State → α → Except (TrySendError α) Unit × State
  -- `send` waits for room, so that there may be no result
  send : State → α → Option (Except α Unit × State)
  -- `recv` waits for an item as long as one may come
  recv : State → Option (Option α × State)
  close : State → State
  -- the receiver is dropped
  disconnect : State → State
  capacity : State → Nat
  -- what was taken and not received
  buffer : State → List α
  connected : State → Bool
  bounded : ∀ state, (buffer state).length ≤ capacity state
  channel_new : ∀ size positive, capacity (channel size positive) = size ∧ buffer (channel size positive) = [] ∧
    connected (channel size positive) = true
  trySend_ok : ∀ state item next, trySend state item = (.ok (), next) →
    capacity next = capacity state ∧ buffer next = buffer state ++ [item] ∧ connected state = true ∧ connected next = true
  trySend_error : ∀ state item error next, trySend state item = (.error error, next) → error.item = item ∧
    capacity next = capacity state ∧ buffer next = buffer state ∧ connected next = connected state
  send_ok : ∀ state item next, send state item = some (.ok (), next) →
    capacity next = capacity state ∧ buffer next = buffer state ++ [item] ∧ connected state = true ∧ connected next = true
  send_error : ∀ state item back next, send state item = some (.error back, next) → back = item ∧
    capacity next = capacity state ∧ buffer next = buffer state ∧ connected next = connected state
  recv_item : ∀ state item next, recv state = some (some item, next) →
    capacity next = capacity state ∧ buffer state = item :: buffer next ∧ connected state = true ∧ connected next = true
  recv_end : ∀ state next, recv state = some (none, next) →
    capacity next = capacity state ∧ buffer next = buffer state ∧ connected next = connected state
  close_same : ∀ state, capacity (close state) = capacity state ∧ buffer (close state) = buffer state ∧
    connected (close state) = connected state
  disconnect_empties : ∀ state, capacity (disconnect state) = capacity state ∧ buffer (disconnect state) = [] ∧
    connected (disconnect state) = false

/-! ## Streams -/

structure ConsumerStream where
  consumerId : String
  lastSentLsn : Lsn
  eventsSent : UInt64

structure Consumer (mpsc : Mpsc ChangeEvent) where
  stream : ConsumerStream
  channel : mpsc.State

inductive ConsumerAction where
  | send (event : ChangeEvent)
  | trySend (event : ChangeEvent)
  | recv
  | close
  | disconnect

inductive ConsumerOutput where
  | sent (result : Except ChangeEvent Unit)
  | received (event : Option ChangeEvent)
  | quiet

namespace Consumer

variable {mpsc : Mpsc ChangeEvent}

def new (mpsc : Mpsc ChangeEvent) (consumerId : String) (bufferSize : Nat) (positive : 0 < bufferSize) : Consumer mpsc :=
  ⟨⟨consumerId, Lsn.zero, 0⟩, mpsc.channel bufferSize positive⟩

/-- What `send` and `try_send` do when the channel took the event. -/
def recordSent (consumer : Consumer mpsc) (event : ChangeEvent) (channel : mpsc.State) : Consumer mpsc where
  stream := { consumer.stream with lastSentLsn := event.lsn, eventsSent := consumer.stream.eventsSent + 1 }
  channel

def trySend (consumer : Consumer mpsc) (event : ChangeEvent) : Except ChangeEvent Unit × Consumer mpsc :=
  match mpsc.trySend consumer.channel event with
  | (.ok (), channel) => (.ok (), consumer.recordSent event channel)
  | (.error (.full event), channel) => (.error event, { consumer with channel })
  | (.error (.closed event), channel) => (.error event, { consumer with channel })

def send (consumer : Consumer mpsc) (event : ChangeEvent) : Option (Except ChangeEvent Unit × Consumer mpsc) :=
  (mpsc.send consumer.channel event).map fun
    | (.ok (), channel) => (.ok (), consumer.recordSent event channel)
    | (.error event, channel) => (.error event, { consumer with channel })

def step (consumer : Consumer mpsc) : ConsumerAction → Option (Consumer mpsc × ConsumerOutput)
  | .send event => (consumer.send event).map fun (result, next) => (next, .sent result)
  | .trySend event =>
    let (result, next) := consumer.trySend event
    some (next, .sent result)
  | .recv => (mpsc.recv consumer.channel).map fun (event, channel) => ({ consumer with channel }, .received event)
  | .close => some ({ consumer with channel := mpsc.close consumer.channel }, .quiet)
  | .disconnect => some ({ consumer with channel := mpsc.disconnect consumer.channel }, .quiet)

end Consumer

def sentEvents (history : List (ConsumerAction × ConsumerOutput)) : List ChangeEvent :=
  history.filterMap fun
    | (.send event, .sent (.ok ())) => some event
    | (.trySend event, .sent (.ok ())) => some event
    | _ => none

def receivedEvents (history : List (ConsumerAction × ConsumerOutput)) : List ChangeEvent :=
  history.filterMap fun
    | (.recv, .received (some event)) => some event
    | _ => none

/-! ## Backpressure -/

structure GrpcBackpressure where
  maxPending : UInt64
  pending : UInt64
deriving DecidableEq, Repr

inductive PendingAction where
  | send
  | ack (count : UInt64)
deriving DecidableEq, Repr

namespace GrpcBackpressure

def new (maxPending : UInt64) : GrpcBackpressure := ⟨maxPending, 0⟩

def onSend (backpressure : GrpcBackpressure) : GrpcBackpressure :=
  { backpressure with pending := backpressure.pending + 1 }

def onAck (backpressure : GrpcBackpressure) (count : UInt64) : GrpcBackpressure :=
  -- `saturating_sub`
  { backpressure with pending := if count ≤ backpressure.pending then backpressure.pending - count else 0 }

def shouldPause (backpressure : GrpcBackpressure) : Bool := decide (backpressure.maxPending ≤ backpressure.pending)

def step (backpressure : GrpcBackpressure) : PendingAction → GrpcBackpressure
  | .send => backpressure.onSend
  | .ack count => backpressure.onAck count

def after (maxPending : UInt64) (history : List PendingAction) : GrpcBackpressure :=
  history.foldl step (new maxPending)

theorem after_snoc (maxPending : UInt64) (past : List PendingAction) (action : PendingAction) :
    after maxPending (past ++ [action]) = (after maxPending past).step action := by
  rw [after, List.foldl_append]
  rfl

end GrpcBackpressure

end Nendi.Http
