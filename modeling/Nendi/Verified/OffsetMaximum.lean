import Nendi.Core.Offset

/-! # Offsets are running maxima

Called one after the other, `commit` and `remove` keep for each consumer the greatest LSN
it was asked to commit since it was last removed: a commit below the current offset is
refused, and the maximum does not notice it. -/

namespace Nendi.Verified

open Nendi.Core Nendi.Shared

/-! ## What has been asked for -/

inductive OffsetCall where
  | commit (consumer : String) (lsn : Lsn)
  | remove (consumer : String)
deriving DecidableEq, Repr

def applyCall (registry : OffsetRegistry) : OffsetCall → OffsetRegistry
  | .commit consumer lsn => (registry.commit consumer lsn).2
  | .remove consumer => registry.remove consumer

def registryAfter (calls : List OffsetCall) : OffsetRegistry := calls.foldl applyCall .new

/-- The LSNs passed to `commit` for the consumer since its last `remove`. -/
def committedSince (calls : List OffsetCall) (consumer : String) : List Lsn :=
  calls.foldl (fun lsns call =>
    match call with
    | .commit other lsn => if other = consumer then lsns ++ [lsn] else lsns
    | .remove other => if other = consumer then [] else lsns) []

/-- The registry after `calls`, and a further commit to it. -/
structure RunningMaximum (calls : List OffsetCall) : Prop where
  absent : ∀ consumer, (registryAfter calls).get consumer = none ↔ committedSince calls consumer = []
  greatest : ∀ consumer offset, (registryAfter calls).get consumer = some offset →
    IsGreatest {lsn | lsn ∈ committedSince calls consumer} offset
  -- a commit fails exactly below the current offset
  refused : ∀ consumer lsn, ((registryAfter calls).commit consumer lsn).1 ≠ .ok () ↔
    ∃ current, (registryAfter calls).get consumer = some current ∧ lsn < current
  -- a failed commit changes no offset
  failed : ∀ consumer lsn, ((registryAfter calls).commit consumer lsn).1 ≠ .ok () → ∀ other,
    ((registryAfter calls).commit consumer lsn).2.get other = (registryAfter calls).get other
  -- a successful one changes only its consumer's
  others : ∀ consumer lsn other, other ≠ consumer →
    ((registryAfter calls).commit consumer lsn).2.get other = (registryAfter calls).get other
  lowest : ∀ consumer offset, (registryAfter calls).get consumer = some offset →
    (registryAfter calls).minOffset ≤ offset
  attained : (∃ consumer offset, (registryAfter calls).get consumer = some offset ∧ offset < Lsn.max) →
    ∃ consumer, (registryAfter calls).get consumer = some (registryAfter calls).minOffset

/-! ## One commit -/

theorem commit_fails_iff (registry : OffsetRegistry) (consumer : String) (lsn : Lsn) :
    (registry.commit consumer lsn).1 ≠ .ok () ↔
      ∃ current, registry.get consumer = some current ∧ lsn < current := by
  obtain ⟨current, found, behind, result⟩ | ⟨notBehind, result⟩ := registry.commit_cases consumer lsn
  · rw [result]
    exact ⟨fun _ => ⟨current, found, behind⟩, fun _ => nofun⟩
  · rw [result]
    refine ⟨fun failed => absurd rfl failed, ?_⟩
    rintro ⟨current, found, behind⟩
    exact absurd behind (not_lt.mpr (notBehind current found))

theorem commit_get_of_fails {registry : OffsetRegistry} {consumer : String} {lsn : Lsn}
    (failed : (registry.commit consumer lsn).1 ≠ .ok ()) : (registry.commit consumer lsn).2 = registry := by
  obtain ⟨current, _, _, result⟩ | ⟨_, result⟩ := registry.commit_cases consumer lsn
  · rw [result]
  · rw [result] at failed
    exact absurd rfl failed

theorem commit_get_of_ne (registry : OffsetRegistry) {consumer other : String} (lsn : Lsn)
    (different : other ≠ consumer) : (registry.commit consumer lsn).2.get other = registry.get other := by
  obtain ⟨_, _, _, result⟩ | ⟨_, result⟩ := registry.commit_cases consumer lsn
  · rw [result]
  · rw [result]
    exact OffsetRegistry.get_insert_of_ne lsn different

/-! ## Runs -/

/-- `offset` is what a consumer has after being asked to commit these LSNs. -/
def Reached (lsns : List Lsn) : Option Lsn → Prop
  | none => lsns = []
  | some offset => IsGreatest {lsn | lsn ∈ lsns} offset

theorem reached_commit {registry : OffsetRegistry} {consumer : String} {lsns : List Lsn}
    (reached : Reached lsns (registry.get consumer)) (lsn : Lsn) :
    Reached (lsns ++ [lsn]) ((registry.commit consumer lsn).2.get consumer) := by
  have more : {other | other ∈ lsns ++ [lsn]} = insert lsn {other | other ∈ lsns} := by
    ext other
    simp [or_comm]
  obtain ⟨current, found, behind, result⟩ | ⟨notBehind, result⟩ := registry.commit_cases consumer lsn
  · -- below the maximum, the request changes neither side
    rw [found] at reached
    rw [result, found]
    show IsGreatest {other | other ∈ lsns ++ [lsn]} current
    rw [more, ← max_eq_right (le_of_lt behind)]
    exact reached.insert lsn
  · rw [result, OffsetRegistry.get_insert]
    show IsGreatest {other | other ∈ lsns ++ [lsn]} lsn
    refine ⟨by simp, ?_⟩
    intro other member
    obtain earlier | isLast := List.mem_append.mp member
    · cases found : registry.get consumer with
      | none =>
        rw [found] at reached
        rw [show lsns = [] from reached] at earlier
        cases earlier
      | some current =>
        rw [found] at reached
        exact (reached.2 earlier).trans (notBehind current found)
    · rw [List.mem_singleton.mp isLast]

theorem registryAfter_snoc (calls : List OffsetCall) (call : OffsetCall) :
    registryAfter (calls ++ [call]) = applyCall (registryAfter calls) call := by
  rw [registryAfter, List.foldl_append]
  rfl

theorem reached_after (calls : List OffsetCall) (consumer : String) :
    Reached (committedSince calls consumer) ((registryAfter calls).get consumer) := by
  induction calls using List.reverseRecOn with
  | nil => rfl
  | append_singleton calls call inductionHypothesis =>
    rw [registryAfter_snoc, committedSince, List.foldl_append, ← committedSince]
    cases call with
    | commit other lsn =>
      by_cases same : other = consumer
      · subst same
        simpa [applyCall] using reached_commit inductionHypothesis lsn
      · have kept := commit_get_of_ne (registryAfter calls) lsn fun equal => same equal.symm
        simpa [same, applyCall, kept] using inductionHypothesis
    | remove other =>
      by_cases same : other = consumer
      · subst same
        simp [applyCall, OffsetRegistry.get, OffsetRegistry.remove, Reached]
      · have kept : ((registryAfter calls).remove other).get consumer = (registryAfter calls).get consumer :=
          OffsetRegistry.get_remove_of_ne fun equal => same equal.symm
        simpa [same, applyCall, kept] using inductionHypothesis

/-- After every sequence of commits and removals. -/
theorem offsets_are_running_maxima (calls : List OffsetCall) : RunningMaximum calls := by
  constructor
  case absent =>
    intro consumer
    have reached := reached_after calls consumer
    cases found : (registryAfter calls).get consumer with
    | none =>
      rw [found] at reached
      exact ⟨fun _ => reached, fun _ => rfl⟩
    | some offset =>
      rw [found] at reached
      refine ⟨nofun, fun empty => ?_⟩
      have member : offset ∈ committedSince calls consumer := reached.1
      rw [empty] at member
      cases member
  case greatest =>
    intro consumer offset found
    have reached := reached_after calls consumer
    rwa [found] at reached
  case refused => exact commit_fails_iff (registryAfter calls)
  case failed =>
    intro consumer lsn failed other
    rw [commit_get_of_fails failed]
  case others =>
    intro consumer lsn other different
    exact commit_get_of_ne (registryAfter calls) lsn different
  case lowest =>
    intro consumer offset found
    exact OffsetRegistry.minOffset_le found
  case attained =>
    rintro ⟨consumer, offset, found, below⟩
    exact OffsetRegistry.minOffset_attained found below

end Nendi.Verified
