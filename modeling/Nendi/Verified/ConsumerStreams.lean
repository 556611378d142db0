import Mathlib.Order.Bounds.Basic
import Nendi.Http.Grpc
import Nendi.Verified.ProtoRoundTrip

/-! # What a consumer gets, and how much is under way

The stream and its consumer run side by side.  `consumer_stream_delivers` says that what is
received is what was sent, in order and without gaps, that a consumer that goes away loses
at most what fits the channel, and that the stream's own counters count what the channel
took.

`pending` of the backpressure is cut off at zero, so that acknowledging too much gives no
credit.  `pending_isGreatest` says what it counts instead, and `sends_bounded` what pausing on
it guarantees. -/

namespace Nendi.Verified

open Nendi.Lib Nendi.Shared Nendi.Http

/-! ## Streams -/

structure Delivers {mpsc : Mpsc ChangeEvent} (bufferSize : Nat) (history : List (ConsumerAction × ConsumerOutput))
    (consumer : Consumer mpsc) : Prop where
  capacity : mpsc.capacity consumer.channel = bufferSize
  -- what is missing at the end went down with the consumer
  order : ∃ lost, sentEvents history = receivedEvents history ++ lost ++ mpsc.buffer consumer.channel ∧
    lost.length + (mpsc.buffer consumer.channel).length ≤ bufferSize ∧
    (mpsc.connected consumer.channel = true → lost = [])
  counted : consumer.stream.eventsSent = UInt64.ofNat (sentEvents history).length
  last : consumer.stream.lastSentLsn = ((sentEvents history).getLast?.map ChangeEvent.lsn).getD Lsn.zero
  -- an event that is not taken comes back as it was
  refused : ∀ action event back, (action = .send event ∨ action = .trySend event) →
    (action, .sent (.error back)) ∈ history → back = event

section
variable {mpsc : Mpsc ChangeEvent} {bufferSize : Nat} {past : List (ConsumerAction × ConsumerOutput)}
  {consumer : Consumer mpsc} {channel : mpsc.State}

@[simp] theorem sentEvents_append (first second : List (ConsumerAction × ConsumerOutput)) :
    sentEvents (first ++ second) = sentEvents first ++ sentEvents second := List.filterMap_append

@[simp] theorem receivedEvents_append (first second : List (ConsumerAction × ConsumerOutput)) :
    receivedEvents (first ++ second) = receivedEvents first ++ receivedEvents second := List.filterMap_append

theorem Delivers.accept (delivers : Delivers bufferSize past consumer) {action : ConsumerAction} {event : ChangeEvent}
    (isSend : action = .send event ∨ action = .trySend event)
    (capacity : mpsc.capacity channel = mpsc.capacity consumer.channel)
    (buffer : mpsc.buffer channel = mpsc.buffer consumer.channel ++ [event])
    (here : mpsc.connected consumer.channel = true) :
    Delivers bufferSize (past ++ [(action, .sent (.ok ()))]) (consumer.recordSent event channel) := by
  have sent : sentEvents (past ++ [(action, .sent (.ok ()))]) = sentEvents past ++ [event] := by
    obtain rfl | rfl := isSend <;> simp [sentEvents]
  have received : receivedEvents (past ++ [(action, .sent (.ok ()))]) = receivedEvents past := by
    obtain rfl | rfl := isSend <;> simp [receivedEvents]
  obtain ⟨lost, order, _, none⟩ := delivers.order
  constructor
  case capacity => exact capacity.trans delivers.capacity
  case order =>
    have fits := mpsc.bounded channel
    rw [capacity, delivers.capacity] at fits
    refine ⟨[], ?_, by simpa [Consumer.recordSent] using fits, fun _ => rfl⟩
    rw [sent, received, order, none here]
    simp [Consumer.recordSent, buffer]
  case counted =>
    rw [sent, Consumer.recordSent, delivers.counted, List.length_append, List.length_singleton]
    exact UInt64.ofNat_add _ _ |>.symm
  case last => simp [sent, Consumer.recordSent]
  case refused =>
    intro other otherEvent back isOther member
    apply delivers.refused other otherEvent back isOther
    simpa using member

theorem Delivers.quiet (delivers : Delivers bufferSize past consumer) {action : ConsumerAction}
    {output : ConsumerOutput} (nothingSent : sentEvents [(action, output)] = [])
    (nothingReceived : receivedEvents [(action, output)] = [])
    (refused : ∀ event back, (action = .send event ∨ action = .trySend event) →
      output = .sent (.error back) → back = event)
    (same : mpsc.capacity channel = mpsc.capacity consumer.channel ∧
      mpsc.buffer channel = mpsc.buffer consumer.channel ∧
      mpsc.connected channel = mpsc.connected consumer.channel) :
    Delivers bufferSize (past ++ [(action, output)]) { consumer with channel } := by
  obtain ⟨capacity, buffer, connected⟩ := same
  constructor
  case capacity => exact capacity.trans delivers.capacity
  case order => simpa [nothingSent, nothingReceived, buffer, connected] using delivers.order
  case counted => simpa [nothingSent] using delivers.counted
  case last => simpa [nothingSent] using delivers.last
  case refused =>
    intro other event back isSend member
    obtain earlier | isLast := List.mem_append.mp member
    · exact delivers.refused other event back isSend earlier
    · cases List.mem_singleton.mp isLast
      exact refused event back isSend rfl

theorem Delivers.refuse (delivers : Delivers bufferSize past consumer) {action : ConsumerAction} {event : ChangeEvent}
    (isSend : action = .send event ∨ action = .trySend event)
    (same : mpsc.capacity channel = mpsc.capacity consumer.channel ∧
      mpsc.buffer channel = mpsc.buffer consumer.channel ∧
      mpsc.connected channel = mpsc.connected consumer.channel) :
    Delivers bufferSize (past ++ [(action, .sent (.error event))]) { consumer with channel } := by
  have nothingSent : sentEvents [(action, .sent (.error event))] = [] := by
    obtain rfl | rfl := isSend <;> rfl
  have nothingReceived : receivedEvents [(action, .sent (.error event))] = [] := by
    obtain rfl | rfl := isSend <;> rfl
  refine delivers.quiet nothingSent nothingReceived ?_ same
  intro other back isOther isBack
  cases isBack
  obtain rfl | rfl := isSend <;> simpa using isOther

theorem Delivers.disconnect (delivers : Delivers bufferSize past consumer) :
    Delivers bufferSize (past ++ [(.disconnect, .quiet)])
      { consumer with channel := mpsc.disconnect consumer.channel } := by
  obtain ⟨lost, order, few, none⟩ := delivers.order
  obtain ⟨capacity, buffer, connected⟩ := mpsc.disconnect_empties consumer.channel
  constructor
  case capacity => exact capacity.trans delivers.capacity
  case order =>
    -- what is in the channel is lost, and is no more than fits into it
    refine ⟨lost ++ mpsc.buffer consumer.channel, ?_, ?_, by simp [connected]⟩
    · simp [sentEvents, receivedEvents] at order ⊢
      simp [order, buffer]
    · simpa [buffer] using few
  case counted => simpa [sentEvents] using delivers.counted
  case last => simpa [sentEvents] using delivers.last
  case refused =>
    intro other event back isSend member
    apply delivers.refused other event back isSend
    simpa using member

theorem Delivers.receive (delivers : Delivers bufferSize past consumer) {first : ChangeEvent}
    (capacity : mpsc.capacity channel = mpsc.capacity consumer.channel)
    (buffer : mpsc.buffer consumer.channel = first :: mpsc.buffer channel)
    (here : mpsc.connected consumer.channel = true) :
    Delivers bufferSize (past ++ [(.recv, .received (some first))]) { consumer with channel } := by
  obtain ⟨lost, order, few, none⟩ := delivers.order
  constructor
  case capacity => exact capacity.trans delivers.capacity
  case order =>
    -- the consumer is still there, so nothing has been lost
    refine ⟨[], ?_, ?_, fun _ => rfl⟩
    · rw [none here, buffer] at order
      simpa [sentEvents, receivedEvents] using order
    · rw [buffer, List.length_cons] at few
      simp only [List.length_nil]
      omega
  case counted => simpa [sentEvents] using delivers.counted
  case last => simpa [sentEvents] using delivers.last
  case refused =>
    intro other event back isSend member
    apply delivers.refused other event back isSend
    simpa using member

theorem delivers_send {event : ChangeEvent} {result : Except ChangeEvent Unit} {next : Consumer mpsc}
    (delivers : Delivers bufferSize past consumer) (sent : consumer.send event = some (result, next)) :
    Delivers bufferSize (past ++ [(.send event, .sent result)]) next := by
  simp only [Consumer.send, Option.map_eq_some_iff] at sent
  obtain ⟨⟨answer, channel⟩, called, same⟩ := sent
  cases answer with
  | ok =>
    cases same
    obtain ⟨capacity, buffer, here, _⟩ := mpsc.send_ok _ _ _ called
    exact delivers.accept (.inl rfl) capacity buffer here
  | error back =>
    cases same
    obtain ⟨rfl, unchanged⟩ := mpsc.send_error _ _ _ _ called
    exact delivers.refuse (.inl rfl) unchanged

theorem delivers_trySend {event : ChangeEvent} {result : Except ChangeEvent Unit} {next : Consumer mpsc}
    (delivers : Delivers bufferSize past consumer) (sent : consumer.trySend event = (result, next)) :
    Delivers bufferSize (past ++ [(.trySend event, .sent result)]) next := by
  rcases called : mpsc.trySend consumer.channel event with ⟨answer, channel⟩
  simp only [Consumer.trySend, called] at sent
  cases answer with
  | ok =>
    cases sent
    obtain ⟨capacity, buffer, here, _⟩ := mpsc.trySend_ok _ _ _ called
    exact delivers.accept (.inr rfl) capacity buffer here
  | error error =>
    obtain ⟨sameItem, unchanged⟩ := mpsc.trySend_error _ _ _ _ called
    subst sameItem
    cases error <;> cases sent <;> exact delivers.refuse (.inr rfl) unchanged

theorem delivers_step (past : List (ConsumerAction × ConsumerOutput)) (consumer : Consumer mpsc)
    (action : ConsumerAction) (next : Consumer mpsc) (output : ConsumerOutput)
    (delivers : Delivers bufferSize past consumer) (stepped : consumer.step action = some (next, output)) :
    Delivers bufferSize (past ++ [(action, output)]) next := by
  cases action with
  | send event =>
    simp only [Consumer.step, Option.map_eq_some_iff] at stepped
    obtain ⟨⟨result, sentTo⟩, sent, same⟩ := stepped
    cases same
    exact delivers_send delivers sent
  | trySend event =>
    simp only [Consumer.step, Option.some.injEq] at stepped
    cases stepped
    exact delivers_trySend delivers rfl
  | recv =>
    simp only [Consumer.step, Option.map_eq_some_iff] at stepped
    obtain ⟨⟨item, channel⟩, received, same⟩ := stepped
    cases same
    cases item with
    | some first =>
      obtain ⟨capacity, buffer, here, _⟩ := mpsc.recv_item _ _ _ received
      exact delivers.receive capacity buffer here
    | none =>
      exact delivers.quiet (by simp [sentEvents]) (by simp [receivedEvents]) (by simp) (mpsc.recv_end _ _ received)
  | close =>
    cases stepped
    exact delivers.quiet (by simp [sentEvents]) (by simp [receivedEvents]) (by simp) (mpsc.close_same _)
  | disconnect =>
    cases stepped
    exact delivers.disconnect

end

/-- However sends, receives and the consumer's departure interleave. -/
theorem consumer_stream_delivers (mpsc : Mpsc ChangeEvent) (consumerId : String) (bufferSize : Nat)
    (positive : 0 < bufferSize) (actions : List ConsumerAction) (final : Consumer mpsc)
    (history : List (ConsumerAction × ConsumerOutput))
    (ran : run Consumer.step (.new mpsc consumerId bufferSize positive) actions = some (final, history)) :
    Delivers bufferSize history final := by
  refine run_invariant ?_ delivers_step ran
  obtain ⟨capacity, buffer, _⟩ := mpsc.channel_new bufferSize positive
  refine ⟨capacity, ⟨[], ?_, ?_, fun _ => rfl⟩, rfl, rfl, by simp⟩
  · simp [Consumer.new, buffer, sentEvents, receivedEvents]
  · simp [Consumer.new, buffer]

/-! ### A queue for a channel -/

structure BoundedQueue (α : Type) where
  capacity : Nat
  buffer : List α
  bounded : buffer.length ≤ capacity
  closed : Bool
  connected : Bool
  closed_of_gone : connected = false → closed = true ∧ buffer = []

namespace BoundedQueue

variable {α : Type}

def trySend (queue : BoundedQueue α) (item : α) : Except (TrySendError α) Unit × BoundedQueue α :=
  if isClosed : queue.closed = true then (.error (.closed item), queue)
  else if room : queue.buffer.length < queue.capacity then
    (.ok (), { queue with
      buffer := queue.buffer ++ [item]
      bounded := by rw [List.length_append]; exact room
      closed_of_gone := fun gone => absurd (queue.closed_of_gone gone).1 isClosed })
  else (.error (.full item), queue)

def send (queue : BoundedQueue α) (item : α) : Option (Except α Unit × BoundedQueue α) :=
  match queue.trySend item with
  | (.ok (), next) => some (.ok (), next)
  | (.error (.closed item), next) => some (.error item, next)
  | (.error (.full _), _) => none

def recv (queue : BoundedQueue α) : Option (Option α × BoundedQueue α) :=
  match queue with
  | ⟨_, [], _, closed, _, _⟩ => if closed then some (none, queue) else none
  | ⟨capacity, item :: rest, bounded, closed, connected, gone⟩ =>
    some (some item, ⟨capacity, rest, Nat.le_of_succ_le bounded, closed, connected,
      fun away => absurd (gone away).2 (List.cons_ne_nil _ _)⟩)

theorem connected_of_open {queue : BoundedQueue α} (isOpen : ¬ queue.closed = true) : queue.connected = true := by
  by_contra gone
  exact isOpen (queue.closed_of_gone (Bool.eq_false_iff.mpr gone)).1

theorem trySend_ok {queue next : BoundedQueue α} {item : α} (sent : queue.trySend item = (.ok (), next)) :
    next.capacity = queue.capacity ∧ next.buffer = queue.buffer ++ [item] ∧ queue.connected = true ∧
      next.connected = true := by
  rw [trySend] at sent
  split at sent
  · cases sent
  · next isOpen =>
    split at sent
    · cases sent
      exact ⟨rfl, rfl, connected_of_open isOpen, connected_of_open isOpen⟩
    · cases sent

theorem trySend_error {queue next : BoundedQueue α} {item : α} {error : TrySendError α}
    (sent : queue.trySend item = (.error error, next)) : error.item = item ∧ next = queue := by
  rw [trySend] at sent
  split at sent
  · cases sent
    exact ⟨rfl, rfl⟩
  · split at sent
    · cases sent
    · cases sent
      exact ⟨rfl, rfl⟩

theorem send_ok {queue next : BoundedQueue α} {item : α} (sent : queue.send item = some (.ok (), next)) :
    queue.trySend item = (.ok (), next) := by
  rw [send] at sent
  split at sent
  · next tried =>
    cases sent
    exact tried
  · cases sent
  · cases sent

theorem send_error {queue next : BoundedQueue α} {item back : α} (sent : queue.send item = some (.error back, next)) :
    queue.trySend item = (.error (.closed back), next) := by
  rw [send] at sent
  split at sent
  · cases sent
  · next tried =>
    cases sent
    exact tried
  · cases sent

/-- A channel as it is assumed. -/
def mpsc (α : Type) : Mpsc α where
  State := BoundedQueue α
  channel size _ := ⟨size, [], Nat.zero_le _, false, true, fun gone => absurd gone Bool.noConfusion⟩
  trySend := trySend
  send := send
  recv := recv
  close queue := { queue with closed := true, closed_of_gone := fun gone => ⟨rfl, (queue.closed_of_gone gone).2⟩ }
  disconnect queue :=
    { queue with
      buffer := []
      bounded := Nat.zero_le _
      closed := true
      connected := false
      closed_of_gone := fun _ => ⟨rfl, rfl⟩ }
  capacity := capacity
  buffer := buffer
  connected := connected
  bounded := bounded
  channel_new _ _ := ⟨rfl, rfl, rfl⟩
  trySend_ok _ _ _ := trySend_ok
  trySend_error _ _ _ _ sent := by
    obtain ⟨same, rfl⟩ := trySend_error sent
    exact ⟨same, rfl, rfl, rfl⟩
  send_ok _ _ _ sent := trySend_ok (send_ok sent)
  send_error _ _ _ _ sent := by
    obtain ⟨same, rfl⟩ := trySend_error (send_error sent)
    exact ⟨same, rfl, rfl, rfl⟩
  recv_item queue item next received := by
    obtain ⟨capacity, buffer, bounded, closed, connected, gone⟩ := queue
    cases buffer with
    | nil => cases closed <;> cases received
    | cons first rest =>
      cases received
      have here : connected = true := by
        by_contra away
        cases (gone (Bool.eq_false_iff.mpr away)).2
      exact ⟨rfl, rfl, here, here⟩
  recv_end queue next received := by
    obtain ⟨capacity, buffer, bounded, closed, connected, gone⟩ := queue
    cases buffer with
    | nil =>
      cases closed
      · cases received
      · cases received
        exact ⟨rfl, rfl, rfl⟩
    | cons first rest => cases received
  close_same _ := ⟨rfl, rfl, rfl⟩
  disconnect_empties _ := ⟨rfl, rfl, rfl⟩

end BoundedQueue

/-- A channel for one event: the second is refused, and the third is lost with the consumer. -/
theorem consumer_stream_delivers_one_slot :
    ∃ final history, run Consumer.step (.new (BoundedQueue.mpsc ChangeEvent) "audit" 1 Nat.one_pos)
        [.trySend (orderInsert 5 1), .trySend (orderInsert 6 1), .recv, .send (orderInsert 7 1), .disconnect] =
          some (final, history) ∧
      sentEvents history = [orderInsert 5 1, orderInsert 7 1] ∧ receivedEvents history = [orderInsert 5 1] ∧
      Delivers 1 history final := by
  obtain ⟨final, history, ran, sent, received⟩ : ∃ final history,
      run Consumer.step (.new (BoundedQueue.mpsc ChangeEvent) "audit" 1 Nat.one_pos)
        [.trySend (orderInsert 5 1), .trySend (orderInsert 6 1), .recv, .send (orderInsert 7 1), .disconnect] =
          some (final, history) ∧
      sentEvents history = [orderInsert 5 1, orderInsert 7 1] ∧ receivedEvents history = [orderInsert 5 1] :=
    ⟨_, _, rfl, rfl, rfl⟩
  exact ⟨final, history, ran, sent, received,
    consumer_stream_delivers (BoundedQueue.mpsc ChangeEvent) "audit" 1 Nat.one_pos _ final history ran⟩

/-! ## Backpressure -/

def sends (history : List PendingAction) : Nat := history.count .send

def acked (history : List PendingAction) : Nat :=
  (history.map fun
    | .send => 0
    | .ack count => count.toNat).sum

/-- What remains of the sends of the latest actions, however far one looks back. -/
def backlogs (history : List PendingAction) : Set Nat :=
  {open_ | ∃ later, later <:+ history ∧ sends later - acked later = open_}

/-- Sends happen only when `should_pause` allows it. -/
def Gated (maxPending : UInt64) (history : List PendingAction) : Prop :=
  ∀ past, past ++ [.send] <+: history → (GrpcBackpressure.after maxPending past).shouldPause = false

section
variable (past : List PendingAction) (count : UInt64)

@[simp] theorem sends_send : sends (past ++ [.send]) = sends past + 1 := by simp [sends]

@[simp] theorem sends_ack : sends (past ++ [.ack count]) = sends past := by simp [sends]

@[simp] theorem acked_send : acked (past ++ [.send]) = acked past := by simp [acked]

@[simp] theorem acked_ack : acked (past ++ [.ack count]) = acked past + count.toNat := by simp [acked]

end

theorem zero_mem_backlogs (history : List PendingAction) : 0 ∈ backlogs history :=
  ⟨[], List.nil_suffix, rfl⟩

theorem mem_backlogs_snoc {past : List PendingAction} {action : PendingAction} {open_ : Nat} :
    open_ ∈ backlogs (past ++ [action]) ↔
      open_ = 0 ∨ ∃ later, later <:+ past ∧ sends (later ++ [action]) - acked (later ++ [action]) = open_ := by
  constructor
  · rintro ⟨later, isSuffix, rfl⟩
    obtain rfl | ⟨before, rfl, earlier⟩ := List.suffix_concat_iff.mp isSuffix
    · exact .inl rfl
    · exact .inr ⟨before, earlier, rfl⟩
  · rintro (rfl | ⟨later, isSuffix, rfl⟩)
    · exact zero_mem_backlogs _
    · exact ⟨later ++ [action], List.suffix_concat_iff.mpr (.inr ⟨later, rfl, isSuffix⟩), rfl⟩

theorem isGreatest_send {past : List PendingAction} {pending : Nat} (isGreatest : IsGreatest (backlogs past) pending) :
    IsGreatest (backlogs (past ++ [.send])) (pending + 1) := by
  constructor
  · rw [mem_backlogs_snoc]
    obtain ⟨later, isSuffix, remains⟩ := isGreatest.1
    by_cases none : pending = 0
    · exact .inr ⟨[], List.nil_suffix, by simp [none, sends, acked]⟩
    · exact .inr ⟨later, isSuffix, by simp; omega⟩
  · intro open_ member
    obtain rfl | ⟨later, isSuffix, rfl⟩ := mem_backlogs_snoc.mp member
    · exact Nat.zero_le _
    · have bound := isGreatest.2 ⟨later, isSuffix, rfl⟩
      simp
      omega

theorem isGreatest_ack {past : List PendingAction} {pending : Nat} (isGreatest : IsGreatest (backlogs past) pending)
    (count : UInt64) : IsGreatest (backlogs (past ++ [.ack count])) (pending - count.toNat) := by
  constructor
  · rw [mem_backlogs_snoc]
    obtain ⟨later, isSuffix, remains⟩ := isGreatest.1
    exact .inr ⟨later, isSuffix, by simp; omega⟩
  · intro open_ member
    obtain rfl | ⟨later, isSuffix, rfl⟩ := mem_backlogs_snoc.mp member
    · exact Nat.zero_le _
    · have bound := isGreatest.2 ⟨later, isSuffix, rfl⟩
      simp
      omega

theorem onAck_pending (backpressure : GrpcBackpressure) (count : UInt64) :
    (backpressure.onAck count).pending.toNat = backpressure.pending.toNat - count.toNat := by
  simp only [GrpcBackpressure.onAck]
  split
  next covered => rw [UInt64.toNat_sub_of_le _ _ covered]
  next tooMany =>
    rw [UInt64.le_iff_toNat_le] at tooMany
    simp
    omega

theorem step_maxPending (backpressure : GrpcBackpressure) (action : PendingAction) :
    (backpressure.step action).maxPending = backpressure.maxPending := by
  cases action <;> rfl

theorem after_maxPending (maxPending : UInt64) (history : List PendingAction) :
    (GrpcBackpressure.after maxPending history).maxPending = maxPending := by
  induction history using List.reverseRecOn with
  | nil => rfl
  | append_singleton past action inductionHypothesis =>
    rw [GrpcBackpressure.after_snoc, step_maxPending, inductionHypothesis]

theorem pending_isGreatest {maxPending : UInt64} {history : List PendingAction} (gated : Gated maxPending history) :
    (GrpcBackpressure.after maxPending history).pending ≤ maxPending ∧
      IsGreatest (backlogs history) (GrpcBackpressure.after maxPending history).pending.toNat := by
  -- with gated sends the counter stays within the limit and never wraps, so it counts the largest
  -- backlog
  induction history using List.reverseRecOn with
  | nil =>
    refine ⟨by simp [GrpcBackpressure.after, GrpcBackpressure.new], zero_mem_backlogs _, ?_⟩
    rintro open_ ⟨later, isSuffix, rfl⟩
    simp [List.suffix_nil.mp isSuffix, sends]
  | append_singleton past action inductionHypothesis =>
    obtain ⟨within, isGreatest⟩ := inductionHypothesis fun early isPrefix =>
      gated early (isPrefix.trans (List.prefix_append _ _))
    rw [GrpcBackpressure.after_snoc]
    cases action with
    | send =>
      have room := gated past List.prefix_rfl
      simp only [GrpcBackpressure.shouldPause, after_maxPending, decide_eq_false_iff_not, not_le,
        UInt64.lt_iff_toNat_lt] at room
      have limit := maxPending.toNat_lt
      have more : ((GrpcBackpressure.after maxPending past).step .send).pending.toNat =
          (GrpcBackpressure.after maxPending past).pending.toNat + 1 := by
        simp only [GrpcBackpressure.step, GrpcBackpressure.onSend, UInt64.toNat_add, UInt64.toNat_one]
        omega
      rw [UInt64.le_iff_toNat_le, more]
      exact ⟨room, isGreatest_send isGreatest⟩
    | ack count =>
      have less := onAck_pending (GrpcBackpressure.after maxPending past) count
      rw [UInt64.le_iff_toNat_le] at within ⊢
      rw [GrpcBackpressure.step, less]
      exact ⟨by omega, isGreatest_ack isGreatest count⟩

/-- If sends happen only when `should_pause` allows it, then in every stretch of a history there
    are at most `max_pending` more sends than acknowledgements, whatever was acknowledged before. -/
theorem sends_bounded (maxPending : UInt64) (history : List PendingAction) (gated : Gated maxPending history) :
    ∀ stretch, stretch <:+: history → sends stretch ≤ maxPending.toNat + acked stretch := by
  rintro stretch ⟨before, after, rfl⟩
  have gatedBefore : Gated maxPending (before ++ stretch) := fun past isPrefix =>
    gated past (isPrefix.trans (List.prefix_append _ _))
  obtain ⟨within, isGreatest⟩ := pending_isGreatest gatedBefore
  rw [UInt64.le_iff_toNat_le] at within
  have bound := isGreatest.2 ⟨stretch, List.suffix_append _ _, rfl⟩
  omega

/-- Acknowledging ten events that were never sent gives no credit. -/
theorem sends_bounded_over_acknowledged :
    Gated 2 [.ack 10, .send, .send] ∧
      ∀ stretch, stretch <:+: [.ack 10, .send, .send] → sends stretch ≤ 2 + acked stretch := by
  have gated : Gated 2 [.ack 10, .send, .send] := by
    rintro past ⟨rest, same⟩
    match past with
    | [] => simp at same
    | [first] =>
      obtain ⟨rfl, _⟩ := List.cons.inj same
      decide
    | [first, second] =>
      simp at same
      obtain ⟨rfl, rfl, _⟩ := same
      decide
    | first :: second :: third :: past => simp at same
  exact ⟨gated, sends_bounded 2 _ gated⟩

end Nendi.Verified
