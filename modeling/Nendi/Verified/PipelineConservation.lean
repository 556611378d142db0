import Nendi.Core.Pipeline
import Nendi.Verified.ProtoRoundTrip

/-! # The pipeline conserves events

At every point of every interleaving, the batches handed out, the batch being
filled and the ring, read in this order, are exactly the accepted pushes.
`step_effect` says once what a step can do; the invariant is read off
it. -/

namespace Nendi.Verified

open Nendi.Lib Nendi.Shared Nendi.Core

/-! ## What a step can do -/

/-- The four effects of a step on the events in the system and on the history. -/
inductive StepEffect (system next : Pipeline) (action : Action) (output : Output) : Prop where
  | accept (event : ChangeEvent)
      (admitted : accepted [(action, output)] = [event])
      (nothingReturned : returnedBatches [(action, output)] = [])
      (ring : next.coordinator.ring.items = system.coordinator.ring.items ++ [event])
      (batch : next.coordinator.currentBatch = system.coordinator.currentBatch)
  | move (event : ChangeEvent)
      (nothingAdmitted : accepted [(action, output)] = [])
      (nothingReturned : returnedBatches [(action, output)] = [])
      (ring : system.coordinator.ring.items = event :: next.coordinator.ring.items)
      (batch : next.coordinator.currentBatch.events = system.coordinator.currentBatch.events ++ [event])
  | hand (nothingAdmitted : accepted [(action, output)] = [])
      (handed : returnedBatches [(action, output)] = [system.coordinator.currentBatch])
      (nonempty : system.coordinator.currentBatch.events ≠ [])
      (ring : next.coordinator.ring.items = system.coordinator.ring.items)
      (batch : next.coordinator.currentBatch.events = [])
  | idle (nothingAdmitted : accepted [(action, output)] = [])
      (nothingReturned : returnedBatches [(action, output)] = [])
      (ring : next.coordinator.ring.items = system.coordinator.ring.items)
      (batch : next.coordinator.currentBatch = system.coordinator.currentBatch)

theorem flush_effect {system : Pipeline} {action : Action} {flushedAt : Instant}
    {result : Option WriteBatch × PipelineCoordinator}
    (notPush : ∀ output, accepted [(action, output)] = [])
    (flushes : system.coordinator.FlushesFrom flushedAt result) :
    StepEffect system { system with coordinator := result.2 } action (.flushed result.1) := by
  obtain ⟨nonempty, rfl⟩ | rfl := flushes
  · exact .hand (notPush _) rfl nonempty rfl rfl
  · exact .idle (notPush _) rfl rfl rfl

theorem step_effect {system next : Pipeline} {action : Action} {output : Output}
    (stepped : system.step action = some (next, output)) : StepEffect system next action output := by
  cases action with
  | push producer event =>
    obtain ⟨ring, result, items⟩ | result := system.coordinator.ring.tryPush_cases event
    · simp only [Pipeline.step, result, Option.some.injEq, Prod.mk.injEq] at stepped
      obtain ⟨rfl, rfl⟩ := stepped
      exact .accept event rfl rfl items rfl
    · simp only [Pipeline.step, result, Option.some.injEq, Prod.mk.injEq] at stepped
      obtain ⟨rfl, rfl⟩ := stepped
      exact .idle rfl rfl rfl rfl
  | beginDrain =>
    cases draining : system.draining with
    | none =>
      simp only [Pipeline.step, draining, Option.some.injEq, Prod.mk.injEq] at stepped
      obtain ⟨rfl, rfl⟩ := stepped
      exact .idle rfl rfl rfl rfl
    | some count => simp [Pipeline.step, draining] at stepped
  | pop =>
    obtain ⟨count, _, moved | emptied⟩ := Pipeline.step_pop_eq_some stepped
    · obtain ⟨event, ring, items, rfl, rfl⟩ := moved
      exact .move event rfl rfl items rfl
    · obtain ⟨_, rfl, rfl⟩ := emptied
      exact .idle rfl rfl rfl rfl
  | maybeFlush now flushedAt =>
    obtain ⟨_, rfl, rfl⟩ := Pipeline.step_maybeFlush_eq_some stepped
    exact flush_effect (fun _ => rfl) (system.coordinator.maybeFlush_flushesFrom now flushedAt)
  | forceFlush flushedAt =>
    obtain ⟨_, rfl, rfl⟩ := Pipeline.step_forceFlush_eq_some stepped
    exact flush_effect (fun _ => rfl) (system.coordinator.forceFlush_flushesFrom flushedAt)

/-! ## The invariant -/

/-- Returned batches, current batch and ring spell the accepted pushes. -/
def Conserves (history : List (Action × Output)) (system : Pipeline) : Prop :=
  (returnedBatches history).flatMap WriteBatch.events ++ system.coordinator.currentBatch.events ++
      system.coordinator.ring.items = accepted history ∧
    ∀ batch ∈ returnedBatches history, batch.events ≠ []

theorem conserves_step (past : List (Action × Output)) (system : Pipeline) (action : Action)
    (next : Pipeline) (output : Output) (holds : Conserves past system)
    (stepped : system.step action = some (next, output)) :
    Conserves (past ++ [(action, output)]) next := by
  obtain ⟨spelled, nonempty⟩ := holds
  rw [Conserves, returnedBatches_append, accepted_append, ← spelled]
  cases step_effect stepped with
  | accept event admitted nothingReturned ring batch =>
    rw [admitted, nothingReturned, ring, batch]
    exact ⟨by simp, by simpa using nonempty⟩
  | move event nothingAdmitted nothingReturned ring batch =>
    rw [nothingAdmitted, nothingReturned, ring, batch]
    exact ⟨by simp, by simpa using nonempty⟩
  | hand nothingAdmitted handed nonemptyBatch ring batch =>
    rw [nothingAdmitted, handed, ring, batch]
    refine ⟨by simp, ?_⟩
    intro returned member
    cases List.mem_append.mp member with
    | inl earlier => exact nonempty returned earlier
    | inr last =>
      rw [List.mem_singleton.mp last]
      exact nonemptyBatch
  | idle nothingAdmitted nothingReturned ring batch =>
    rw [nothingAdmitted, nothingReturned, ring, batch]
    exact ⟨by simp, by simpa using nonempty⟩

theorem conserves_run {ring : RingBuffer ChangeEvent} {policy : FlushPolicy} {actions : List Action}
    {final : Pipeline} {history : List (Action × Output)} (fresh : ring.items = [])
    (ran : run Pipeline.step (.start ring policy) actions = some (final, history)) :
    Conserves history final := by
  have initially : Conserves [] (.start ring policy) := by
    constructor
    · simp [Pipeline.start, PipelineCoordinator.new, accepted, returnedBatches, fresh]
    · simp [returnedBatches]
  exact run_invariant initially conserves_step ran

/-- Nothing is lost, duplicated or reordered between a successful push and the
    batches, whatever the capacity, the policy, the clock and the interleaving,
    and no empty batch is handed out. -/
theorem pipeline_conserves_events (capacity : Nat) (positive : 0 < capacity) (policy : FlushPolicy)
    (actions : List Action) (final : Pipeline) (history : List (Action × Output))
    (ran : run Pipeline.step (.start (.new capacity positive) policy) actions = some (final, history)) :
    (returnedBatches history).flatMap WriteBatch.events ++ final.coordinator.currentBatch.events ++
        final.coordinator.ring.items = accepted history ∧
      ∀ batch ∈ returnedBatches history, batch.events ≠ [] :=
  conserves_run rfl ran

/-- In a ring of one slot the second push is refused and a later one, made while
    the drain is under way, gets in. -/
theorem pipeline_conserves_events_one_slot :
    ∃ final history,
      run Pipeline.step (.start (.new 1 (by decide)) (.new 0 0 0))
        [.push 0 (orderInsert 9 1), .push 1 (orderInsert 7 2), .beginDrain, .pop,
          .push 1 (orderInsert 7 3), .pop, .pop, .maybeFlush 5 6] = some (final, history) ∧
      (returnedBatches history).flatMap WriteBatch.events ++ final.coordinator.currentBatch.events ++
          final.coordinator.ring.items = accepted history ∧
        ∀ batch ∈ returnedBatches history, batch.events ≠ [] := by
  obtain ⟨⟨final, history⟩, ran⟩ := Option.isSome_iff_exists.mp (show (run Pipeline.step
    (.start (.new 1 (by decide)) (.new 0 0 0))
    [.push 0 (orderInsert 9 1), .push 1 (orderInsert 7 2), .beginDrain, .pop,
      .push 1 (orderInsert 7 3), .pop, .pop, .maybeFlush 5 6]).isSome by decide)
  exact ⟨final, history, ran, pipeline_conserves_events 1 (by decide) _ _ final history ran⟩

end Nendi.Verified
