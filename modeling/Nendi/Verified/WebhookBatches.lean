import Nendi.Lib.Machine
import Nendi.Verified.WebhookPayload

/-! # From the batcher to the receiver

Events are pushed into the batcher, and at any moment what has gathered is drained and sent
as one payload.  A receiver that reads the payloads as JSON and puts their arrays one behind
the other has the events in the order in which they were pushed, as long as nothing in the
names of the tables has to be escaped. -/

namespace Nendi.Verified

open Nendi.Lib Nendi.Shared Nendi.Http

/-! ## Runs -/

inductive BatchAction where
  | push (event : ChangeEvent)
  | deliver
deriving DecidableEq, Repr

def batchStep (dispatcher : WebhookDispatcher) (batcher : WebhookBatcher) :
    BatchAction → Option WebhookRequest × WebhookBatcher
  | .push event => (none, batcher.push event)
  | .deliver => (some (dispatcher.request batcher.drain.1), batcher.drain.2)

def batching (dispatcher : WebhookDispatcher) (target : BatchTarget) (actions : List BatchAction) :
    WebhookBatcher × List (BatchAction × Option WebhookRequest) :=
  trace (batchStep dispatcher) (.fromTarget target) actions

def batchedEvents (actions : List BatchAction) : List ChangeEvent :=
  actions.filterMap fun
    | .push event => some event
    | .deliver => none

def sentRequests (history : List (BatchAction × Option WebhookRequest)) : List WebhookRequest :=
  history.filterMap Prod.snd

/-- No event is pushed into a batcher that is full. -/
def Prompt (dispatcher : WebhookDispatcher) (target : BatchTarget) (actions : List BatchAction) : Prop :=
  ∀ past event, past ++ [.push event] <+: actions → (batching dispatcher target past).1.isFull = false

structure Batched (dispatcher : WebhookDispatcher) (target : BatchTarget) (actions : List BatchAction)
    (batches : List (List ChangeEvent)) : Prop where
  sent : sentRequests (batching dispatcher target actions).2 = batches.map dispatcher.request
  kept : batches.flatten ++ (batching dispatcher target actions).1.buffer = batchedEvents actions
  size : (batching dispatcher target actions).1.maxBatchSize = target.batchSize
  short : Prompt dispatcher target actions → (∀ batch ∈ batches, batch.length ≤ target.batchSize) ∧
    (batching dispatcher target actions).1.buffer.length ≤ target.batchSize

variable (dispatcher : WebhookDispatcher) (target : BatchTarget)

theorem batching_snoc (actions : List BatchAction) (action : BatchAction) :
    batching dispatcher target (actions ++ [action]) =
      ((batchStep dispatcher (batching dispatcher target actions).1 action).2,
        (batching dispatcher target actions).2 ++
          [(action, (batchStep dispatcher (batching dispatcher target actions).1 action).1)]) :=
  trace_snoc _ _ actions action

variable {dispatcher target} {actions : List BatchAction} {batches : List (List ChangeEvent)}

theorem Prompt.earlier {action : BatchAction} (prompt : Prompt dispatcher target (actions ++ [action])) :
    Prompt dispatcher target actions :=
  fun past event isPast => prompt past event (isPast.trans (List.prefix_append _ _))

theorem Batched.push (batched : Batched dispatcher target actions batches) (event : ChangeEvent) :
    Batched dispatcher target (actions ++ [.push event]) batches := by
  constructor
  case sent =>
    rw [batching_snoc, ← batched.sent]
    simp [sentRequests, batchStep]
  case kept =>
    rw [batching_snoc]
    simp [batchStep, WebhookBatcher.push, batchedEvents, ← List.append_assoc, batched.kept]
  case size =>
    rw [batching_snoc]
    exact batched.size
  case short =>
    intro prompt
    have room := prompt actions event (List.prefix_refl _)
    rw [WebhookBatcher.isFull, decide_eq_false_iff_not, batched.size] at room
    refine ⟨(batched.short prompt.earlier).1, ?_⟩
    rw [batching_snoc]
    simp only [batchStep, WebhookBatcher.push, List.length_append, List.length_singleton]
    omega

theorem Batched.deliver (batched : Batched dispatcher target actions batches) :
    Batched dispatcher target (actions ++ [.deliver]) (batches ++ [(batching dispatcher target actions).1.buffer]) := by
  constructor
  case sent =>
    rw [batching_snoc, List.map_append, ← batched.sent]
    simp [sentRequests, batchStep, WebhookBatcher.drain]
  case kept =>
    rw [batching_snoc]
    simp [batchStep, WebhookBatcher.drain, batchedEvents, batched.kept]
  case size =>
    rw [batching_snoc]
    exact batched.size
  case short =>
    intro prompt
    obtain ⟨earlier, last⟩ := batched.short prompt.earlier
    rw [batching_snoc]
    refine ⟨?_, Nat.zero_le _⟩
    intro batch member
    rcases List.mem_append.mp member with isEarlier | isLast
    · exact earlier batch isEarlier
    · rw [List.mem_singleton.mp isLast]
      exact last

theorem batched_run (dispatcher : WebhookDispatcher) (target : BatchTarget) (actions : List BatchAction) :
    ∃ batches, Batched dispatcher target actions batches := by
  induction actions using List.reverseRecOn with
  | nil => exact ⟨[], rfl, rfl, rfl, fun _ => ⟨by simp, Nat.zero_le _⟩⟩
  | append_singleton actions action inductionHypothesis =>
    obtain ⟨batches, batched⟩ := inductionHypothesis
    cases action with
    | push event => exact ⟨batches, batched.push event⟩
    | deliver => exact ⟨_, batched.deliver⟩

/-! ## The receiver -/

def arrayItems : Json → List Json
  | .arr items => items
  | _ => []

/-- The receiver reads each body, in the order of the requests. -/
def ReadsBodies (requests : List WebhookRequest) (values : List Json) : Prop :=
  List.Forall₂ (fun request value => ReadsJson request.body value) requests values

theorem readsBodies_of_faithful (dispatcher : WebhookDispatcher) {batches : List (List ChangeEvent)}
    (faithful : ∀ batch ∈ batches, FaithfulPayload (WebhookDispatcher.buildPayload batch) batch) :
    (∃ values, ReadsBodies (batches.map dispatcher.request) values) ∧
      ∀ values, ReadsBodies (batches.map dispatcher.request) values →
        List.Forall₂ ObjectOf (values.flatMap arrayItems) batches.flatten := by
  induction batches with
  | nil =>
    refine ⟨⟨[], .nil⟩, ?_⟩
    intro values reads
    cases reads
    exact .nil
  | cons batch batches inductionHypothesis =>
    obtain ⟨⟨⟨value, first⟩, meant⟩, others⟩ := List.forall_mem_cons.mp faithful
    obtain ⟨⟨values, more⟩, rest⟩ := inductionHypothesis others
    refine ⟨⟨value :: values, .cons first more⟩, ?_⟩
    intro values reads
    cases reads with
    | cons readsFirst readsMore =>
      obtain ⟨items, rfl, objects⟩ := meant _ readsFirst
      exact List.rel_append objects (rest _ readsMore)

/-- Whatever the order of pushes and deliveries, the bodies can be read as JSON texts, and a
receiver that reads them has one object for each event, in the order of the pushes, but for
those that are still in the batcher.  A batch is no longer than configured if no event is
pushed into a full batcher, which `push` itself does not see to. -/
theorem receiver_reads_pushes (dispatcher : WebhookDispatcher) (target : BatchTarget) (actions : List BatchAction)
    (unescaped : ∀ event ∈ batchedEvents actions,
      Unescaped event.table.schema.toList ∧ Unescaped event.table.table.toList) :
    ∃ batches : List (List ChangeEvent),
      batches.flatten ++ (batching dispatcher target actions).1.buffer = batchedEvents actions ∧
      sentRequests (batching dispatcher target actions).2 = batches.map dispatcher.request ∧
      (∃ values, ReadsBodies (sentRequests (batching dispatcher target actions).2) values) ∧
      (∀ values, ReadsBodies (sentRequests (batching dispatcher target actions).2) values →
        List.Forall₂ ObjectOf (values.flatMap arrayItems) batches.flatten) ∧
      (Prompt dispatcher target actions → ∀ batch ∈ batches, batch.length ≤ target.batchSize) := by
  obtain ⟨batches, batched⟩ := batched_run dispatcher target actions
  have faithful : ∀ batch ∈ batches, FaithfulPayload (WebhookDispatcher.buildPayload batch) batch := by
    intro batch isBatch
    apply faithful_of_unescaped
    intro event inBatch
    have pushed : event ∈ batchedEvents actions := by
      rw [← batched.kept]
      exact List.mem_append_left _ (List.mem_flatten.mpr ⟨batch, isBatch, inBatch⟩)
    exact (unescaped_qualified event.table).mpr (unescaped event pushed)
  obtain ⟨readable, reads⟩ := readsBodies_of_faithful dispatcher faithful
  rw [← batched.sent] at readable reads
  exact ⟨batches, batched.kept, batched.sent, readable, reads, fun prompt => (batched.short prompt).1⟩

/-- Two events in one body, an empty body, and one event that is still in the batcher. -/
theorem receiver_reads_pushes_twice :
    let actions : List BatchAction :=
      [.push (publicEvent 1 1 .insert "orders"), .push (publicEvent 2 1 .update "orders"), .deliver, .deliver,
        .push (publicEvent 3 2 .delete "accounts")]
    let run := batching ⟨"http://localhost:50051", none⟩ ⟨2, 50⟩ actions
    run.1.buffer = [publicEvent 3 2 .delete "accounts"] ∧
      ∃ batches : List (List ChangeEvent),
        batches.flatten ++ run.1.buffer = batchedEvents actions ∧
        ∀ values, ReadsBodies (sentRequests run.2) values →
          List.Forall₂ ObjectOf (values.flatMap arrayItems) batches.flatten := by
  refine ⟨rfl, ?_⟩
  obtain ⟨batches, kept, _, _, reads, _⟩ := receiver_reads_pushes ⟨"http://localhost:50051", none⟩ ⟨2, 50⟩
    [.push (publicEvent 1 1 .insert "orders"), .push (publicEvent 2 1 .update "orders"), .deliver, .deliver,
      .push (publicEvent 3 2 .delete "accounts")] (by decide)
  exact ⟨batches, kept, reads⟩

end Nendi.Verified
