import Mathlib.Data.List.Induction
import Nendi.Core.Gc
import Nendi.Verified.EventLog

/-! # What a collection pass may remove

A consumer that has registered still needs every event from its resume LSN on
that was stored when it registered or was written later.  The watermark is the
minimum of the *committed* offsets, so a consumer that has registered but not
yet committed does not hold it back.  `gc_retains_iff_guarded` states exactly
which runs keep what registered consumers need: those in which no pass removes
anything while such a consumer exists, and no write replaces a needed event by
a different one under the same key. -/

namespace Nendi.Verified

open Nendi.Lib Nendi.Shared Nendi.Core

/-! ## The property and the guard -/

def StoredIn (cf : ColumnFamily) (event : ChangeEvent) : Prop :=
  cf.get? (makeKey event) = some (encodeEvent event)

/-- `consumer` registered at the end of `before`, and `later` does not unregister it. -/
structure RegisteredAt (history : List GcAction) (consumer : String)
    (before later : List GcAction) : Prop where
  split : history = before ++ .register consumer :: later
  stays : .unregister consumer ∉ later

def Registered (history : List GcAction) (consumer : String) : Prop :=
  ∃ before later, RegisteredAt history consumer before later

/-- Every registered consumer finds the events it has not yet passed: those that
    were stored when it registered and those written since. -/
def Retains (history : List GcAction) : Prop :=
  ∀ consumer before later, RegisteredAt history consumer before later → ∀ event,
    StoredIn (GcState.after before).events event ∨ .write event ∈ later →
    (GcState.after history).manager.resumeLsn consumer ≤ event.lsn →
    StoredIn (GcState.after history).events event

/-- The condition on the state before a step: a collection pass while a
    registered consumer has no committed offset removes nothing, and a write does
    not replace an event a registered consumer still has to read. -/
def Guarded (history : List GcAction) : GcAction → Prop
  | .gc => ∀ consumer, Registered history consumer →
      (GcState.after history).manager.registry.get consumer = none →
      ∀ event, StoredIn (GcState.after history).events event →
        (GcState.after history).manager.watermark ≤ event.lsn
  | .write event => ∀ stored, StoredIn (GcState.after history).events stored →
      makeKey stored = makeKey event → encodeEvent stored ≠ encodeEvent event →
      ∀ consumer, Registered history consumer →
        stored.lsn < (GcState.after history).manager.resumeLsn consumer
  | _ => True

/-! ## The store under single steps -/

theorem storedIn_iff (cf : ColumnFamily) (event : ChangeEvent) :
    StoredIn cf event ↔ (makeKey event, encodeEvent event) ∈ cf.entries :=
  cf.get?_eq_some_iff _ _

theorem makeKey_lsn {first second : ChangeEvent} (same : makeKey first = makeKey second) :
    first.lsn = second.lsn := by
  have keys : eventKey first = eventKey second := keyBytes_strictMono.injective same
  exact congrArg (fun key => (ofLex key).1) keys

theorem storedIn_insert_iff (cf : ColumnFamily) (event written : ChangeEvent) :
    StoredIn (cf.insert (makeKey written) (encodeEvent written)) event ↔
      (makeKey event = makeKey written ∧ encodeEvent event = encodeEvent written) ∨
        makeKey event ≠ makeKey written ∧ StoredIn cf event := by
  rw [storedIn_iff, storedIn_iff, OrdMap.mem_insert, Prod.mk.injEq]

theorem storedIn_compact_iff (cf : ColumnFamily) (gc : EventGcFilter) (event : ChangeEvent) :
    StoredIn (gc.compact cf) event ↔ StoredIn cf event ∧ gc.filter (makeKey event) = .keep := by
  rw [storedIn_iff, storedIn_iff, EventGcFilter.compact, OrdMap.mem_filterKeys, decide_eq_true_iff]

theorem entry_origin (later : List GcAction) (state : GcState) (entry : List UInt8 × List UInt8)
    (present : entry ∈ (later.foldl GcState.step state).events.entries) :
    entry ∈ state.events.entries ∨
      ∃ event, .write event ∈ later ∧ entry = (makeKey event, encodeEvent event) := by
  induction later generalizing state with
  | nil => exact .inl present
  | cons action later inductionHypothesis =>
    cases inductionHypothesis (state.step action) present with
    | inr written =>
      obtain ⟨event, inLater, equal⟩ := written
      exact .inr ⟨event, List.mem_cons_of_mem _ inLater, equal⟩
    | inl earlier =>
      cases action with
      | register consumer => exact .inl earlier
      | commit consumer lsn => exact .inl earlier
      | unregister consumer => exact .inl earlier
      | write event =>
        obtain equal | ⟨_, old⟩ := (OrdMap.mem_insert _ _ _ entry).mp earlier
        · exact .inr ⟨event, List.mem_cons_self, equal⟩
        · exact .inl old
      | gc => exact .inl ((OrdMap.mem_filterKeys _ _ entry).mp earlier).1

/-- Every event present in a registered consumer's state is one it may still need:
    some event with the same key and bytes was stored at registration or written since. -/
theorem stored_is_needed {history before later : List GcAction} {consumer : String}
    (registered : RegisteredAt history consumer before later) {event : ChangeEvent}
    (stored : StoredIn (GcState.after history).events event) :
    ∃ needed, makeKey needed = makeKey event ∧ encodeEvent needed = encodeEvent event ∧
      (StoredIn (GcState.after before).events needed ∨ .write needed ∈ later) := by
  rw [storedIn_iff, registered.split, GcState.after_append] at stored
  cases entry_origin _ _ _ stored with
  | inl atRegistration => exact ⟨event, rfl, rfl, .inl ((storedIn_iff _ _).mpr atRegistration)⟩
  | inr written =>
    obtain ⟨needed, inLater, equal⟩ := written
    simp only [Prod.mk.injEq] at equal
    cases inLater with
    | tail _ inLater => exact ⟨needed, equal.1.symm, equal.2.symm, .inr inLater⟩

/-! ## Resume points under single steps -/

theorem resumeLsn_commit_mono (manager : OffsetManager) (other : String) (lsn : Lsn) (consumer : String) :
    manager.resumeLsn consumer ≤ (manager.commit other lsn).2.resumeLsn consumer := by
  change _ ≤ OffsetManager.resumeLsn ⟨(manager.registry.commit other lsn).2⟩ consumer
  cases manager.registry.commit_cases other lsn with
  | inl refused =>
    obtain ⟨_, _, _, result⟩ := refused
    rw [result]
  | inr accepted =>
    obtain ⟨notBehind, result⟩ := accepted
    rw [result]
    by_cases same : consumer = other
    · subst same
      have moved : OffsetManager.resumeLsn ⟨manager.registry.insert consumer lsn⟩ consumer =
          lsn.saturatingAdd 1 := OffsetManager.resumeLsn_of_some (OffsetRegistry.get_insert _ _ _)
      rw [moved]
      cases found : manager.registry.get consumer with
      | none =>
        rw [OffsetManager.resumeLsn_of_none found]
        simp [Lsn.zero]
      | some current =>
        rw [OffsetManager.resumeLsn_of_some found]
        exact Lsn.saturatingAdd_one_mono (notBehind current found)
    · exact le_of_eq (OffsetManager.resumeLsn_congr (OffsetRegistry.get_insert_of_ne lsn same).symm)

theorem resumeLsn_step_mono (state : GcState) (action : GcAction) (consumer : String)
    (stays : action ≠ .unregister consumer) :
    state.manager.resumeLsn consumer ≤ (state.step action).manager.resumeLsn consumer := by
  cases action with
  | register other => exact le_refl _
  | write event => exact le_refl _
  | gc => exact le_refl _
  | commit other lsn => exact resumeLsn_commit_mono state.manager other lsn consumer
  | unregister other =>
    have different : consumer ≠ other := fun same => stays (by rw [same])
    exact le_of_eq (OffsetManager.resumeLsn_congr
      (OffsetRegistry.get_remove_of_ne different).symm)

theorem watermark_le_resumeLsn {manager : OffsetManager} {consumer : String} {offset : Lsn}
    (committed : manager.registry.get consumer = some offset) :
    manager.watermark ≤ manager.resumeLsn consumer := by
  rw [OffsetManager.resumeLsn_of_some committed]
  exact (OffsetRegistry.minOffset_le committed).trans (Lsn.le_saturatingAdd_one offset)

/-! ## One step -/

/-- A registration seen in `history ++ [action]` is the last action itself, or was
    already seen in `history` and `action` does not end it. -/
theorem registeredAt_snoc {history before later : List GcAction} {action : GcAction} {consumer : String}
    (registered : RegisteredAt (history ++ [action]) consumer before later) :
    (before = history ∧ later = [] ∧ action = .register consumer) ∨
      ∃ middle, later = middle ++ [action] ∧ RegisteredAt history consumer before middle ∧
        action ≠ .unregister consumer := by
  obtain ⟨split, stays⟩ := registered
  cases later using List.reverseRecOn with
  | nil =>
    obtain ⟨same, last⟩ := List.append_inj' split rfl
    simp only [List.cons.injEq, and_true] at last
    exact .inl ⟨same.symm, rfl, last⟩
  | append_singleton middle last _ =>
    rw [← List.cons_append, ← List.append_assoc] at split
    obtain ⟨same, lastSame⟩ := List.append_inj' split rfl
    simp only [List.cons.injEq, and_true] at lastSame
    subst lastSame
    simp only [List.mem_append, List.mem_singleton, not_or] at stays
    exact .inr ⟨middle, rfl, ⟨same, stays.1⟩, fun ends => stays.2 ends.symm⟩

theorem retains_snoc {history : List GcAction} {action : GcAction} (holds : Retains history)
    (guarded : Guarded history action) : Retains (history ++ [action]) := by
  intro consumer before later registered event needed notPassed
  rw [GcState.after_snoc] at notPassed ⊢
  obtain ⟨rfl, rfl, rfl⟩ | ⟨middle, rfl, earlier, stays⟩ := registeredAt_snoc registered
  · obtain stored | written := needed
    · exact stored
    · cases written
  -- what the consumer needs it needed before, unless it is the event being written now
  have resumed := (resumeLsn_step_mono (GcState.after history) action consumer stays).trans notPassed
  have kept : StoredIn (GcState.after before).events event ∨ .write event ∈ middle →
      StoredIn (GcState.after history).events event :=
    fun neededBefore => holds consumer before middle earlier event neededBefore resumed
  cases action with
  | register other => exact kept (by simpa using needed)
  | commit other lsn => exact kept (by simpa using needed)
  | unregister other => exact kept (by simpa using needed)
  | write written =>
    rw [GcState.step, storedIn_insert_iff]
    by_cases isWritten : event = written
    · subst isWritten
      exact .inl ⟨rfl, rfl⟩
    · have stored := kept (by simpa [isWritten] using needed)
      by_cases sameKey : makeKey event = makeKey written
      · by_cases sameBytes : encodeEvent event = encodeEvent written
        · exact .inl ⟨sameKey, sameBytes⟩
        · have passed := guarded event stored sameKey sameBytes consumer ⟨before, middle, earlier⟩
          exact absurd resumed (not_le.mpr passed)
      · exact .inr ⟨sameKey, stored⟩
  | gc =>
    have stored := kept (by simpa using needed)
    rw [GcState.step, storedIn_compact_iff, EventGcFilter.filter_makeKey]
    refine ⟨stored, ?_⟩
    cases committed : (GcState.after history).manager.registry.get consumer with
    | none => exact guarded consumer ⟨before, middle, earlier⟩ committed event stored
    | some offset => exact (watermark_le_resumeLsn committed).trans resumed

/-- If a step keeps what consumers need, then whatever is stored before it and not
    yet passed by a registered consumer is stored after it. -/
theorem stored_of_retains {history : List GcAction} {action : GcAction} {consumer : String}
    (holds : Retains (history ++ [action])) (isRegistered : Registered history consumer)
    (stays : action ≠ .unregister consumer) {event : ChangeEvent}
    (isStored : StoredIn (GcState.after history).events event)
    (notPassed : ((GcState.after history).step action).manager.resumeLsn consumer ≤ event.lsn) :
    StoredIn ((GcState.after history).step action).events event := by
  obtain ⟨before, later, registered⟩ := isRegistered
  obtain ⟨needed, sameKey, sameBytes, origin⟩ := stored_is_needed registered isStored
  have registeredNow : RegisteredAt (history ++ [action]) consumer before (later ++ [action]) := by
    constructor
    · rw [registered.split, List.append_assoc, List.cons_append]
    · simpa using And.intro registered.stays stays.symm
  have still := holds consumer before (later ++ [action]) registeredNow needed
    (origin.imp_right fun inLater => List.mem_append_left _ inLater)
  rw [GcState.after_snoc, makeKey_lsn sameKey] at still
  -- being stored is a matter of key and bytes, which the two events share
  have neededStored := still notPassed
  rwa [StoredIn, sameKey, sameBytes] at neededStored

theorem guarded_of_retains {history : List GcAction} {action : GcAction}
    (holds : Retains (history ++ [action])) : Guarded history action := by
  cases action with
  | register consumer => trivial
  | commit consumer lsn => trivial
  | unregister consumer => trivial
  | write written =>
    intro stored isStored sameKey differs consumer isRegistered
    by_contra notPassed
    have still := stored_of_retains holds isRegistered (by simp) isStored (not_lt.mp notPassed)
    rw [GcState.step, storedIn_insert_iff] at still
    obtain ⟨_, sameBytes⟩ | ⟨differentKey, _⟩ := still
    · exact differs sameBytes
    · exact differentKey sameKey
  | gc =>
    intro consumer isRegistered uncommitted event isStored
    -- a consumer without a committed offset resumes at the beginning and has passed nothing
    have notPassed : (GcState.after history).manager.resumeLsn consumer ≤ event.lsn := by
      rw [OffsetManager.resumeLsn_of_none uncommitted]
      simp [Lsn.zero]
    have still := stored_of_retains holds isRegistered (by simp) isStored notPassed
    rw [GcState.step, storedIn_compact_iff, EventGcFilter.filter_makeKey] at still
    exact still.2

/-! ## Whole runs -/

/-- A run keeps what registered consumers need, in every state it passes through,
    exactly when each of its steps is guarded. -/
theorem gc_retains_iff_guarded (history : List GcAction) :
    (∀ past, past <+: history → Retains past) ↔
      ∀ past action, past ++ [action] <+: history → Guarded past action := by
  apply always_iff
  · intro consumer before later registered
    have split := registered.split
    simp at split
  · intro past action retains
    exact ⟨guarded_of_retains, retains_snoc retains⟩

/-- `audit` has registered but not committed when another consumer's offset lets
    the pass remove the event `audit` was to read first. -/
theorem gc_removes_unread_event :
    ¬ Retains [.write (orderInsert 50 1), .register "audit", .commit "search" 100, .gc] := by
  intro retains
  have still := retains "audit" [.write (orderInsert 50 1)] [.commit "search" 100, .gc]
    ⟨rfl, by simp⟩ (orderInsert 50 1) (.inl (by unfold StoredIn; decide)) (by decide)
  revert still
  unfold StoredIn
  decide

end Nendi.Verified
