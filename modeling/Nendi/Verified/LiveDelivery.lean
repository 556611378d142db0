import Nendi.Verified.EndToEnd
import Nendi.Verified.ResumePaging

/-! # A consumer that reads while events are written

Progress is recorded as an LSN, so what is below the resume point counts as delivered.  An
event that is written there later is never read.  `live_delivery_iff` says that this, and a
page that ends between two events of one LSN, are the only ways to miss an event: otherwise
every event below the resume point has been delivered, and only once. -/

namespace Nendi.Verified

open Nendi.Lib Nendi.Shared Nendi.Core Nendi.Http

/-- The events can be stored, under keys of their own, below the sentinel. -/
structure ValidHistory (history : List LiveAction) : Prop where
  fit : ∀ event ∈ writtenEvents history, event.Fits
  distinct : ((writtenEvents history).map eventKey).Nodup
  below : ∀ event ∈ writtenEvents history, event.lsn < Lsn.max

theorem writtenEvents_append (past later : List LiveAction) :
    writtenEvents (past ++ later) = writtenEvents past ++ writtenEvents later := List.flatMap_append

theorem ValidHistory.of_prefixed {past history : List LiveAction} (valid : ValidHistory history)
    (isPrefix : past <+: history) : ValidHistory past := by
  obtain ⟨later, rfl⟩ := isPrefix
  have fewer : (writtenEvents past).Sublist (writtenEvents (past ++ later)) := by
    rw [writtenEvents_append]
    exact List.sublist_append_left _ _
  exact ⟨fun event member => valid.fit event (fewer.subset member), valid.distinct.sublist (fewer.map _),
    fun event member => valid.below event (fewer.subset member)⟩

def passed (consumer : String) (state : LiveState) (events : List ChangeEvent) : List ChangeEvent :=
  events.filter fun event => decide (event.lsn < state.offsets.resumeLsn consumer)

/-- Exactly the events below the resume point have been delivered, each of them once. -/
def CaughtUp (consumer : String) (start : LiveState) (history : List LiveAction) : Prop :=
  (start.after consumer history).delivered.Perm
    (passed consumer (start.after consumer history) (writtenEvents history))

/-! ## The store -/

theorem poll_store (consumer : String) (state : LiveState) (limit : Nat) :
    (state.poll consumer limit).store = state.store := by
  simp only [LiveState.poll]
  split
  · rfl
  · split <;> rfl

theorem holds_write {state : LiveState} {log : EventLog} {events : List ChangeEvent} (consumer : String)
    (holds : Holds state.store log) (content : log.events.Perm events) (batch : WriteBatch)
    (fit : ∀ event ∈ batch.events, event.Fits) (distinct : ((events ++ batch.events).map eventKey).Nodup) :
    ∃ next, Holds (state.step consumer (.write batch)).store next ∧ next.events.Perm (events ++ batch.events) ∧
      (state.step consumer (.write batch)).offsets = state.offsets ∧
      (state.step consumer (.write batch)).delivered = state.delivered := by
  obtain ⟨written, wrote⟩ := TenantStore.writeBatches_succeeds holds [batch]
  have wroteBatch : state.store.writeBatch batch = .ok written := by
    cases first : state.store.writeBatch batch with
    | error message =>
      rw [TenantStore.writeBatches, first] at wrote
      cases wrote
    | ok store =>
      rw [TenantStore.writeBatches, first] at wrote
      exact wrote
  have batchFit : ∀ event ∈ [batch].flatMap WriteBatch.events, event.Fits := by simpa using fit
  have next := writeBatches_log holds batchFit wrote
  obtain ⟨_, batchDistinct, apart⟩ := List.nodup_append.mp (by rwa [List.map_append] at distinct)
  have added : (log.write _ batchFit).events.Perm (log.events ++ [batch].flatMap WriteBatch.events) := by
    apply log.write_perm batchFit
    · simpa using batchDistinct
    · intro event member inBatch
      have old : eventKey event ∈ events.map eventKey := List.mem_map_of_mem (content.subset member)
      exact apart _ old _ (by simpa using inBatch) rfl
  refine ⟨_, ?_, added.trans ?_, ?_, ?_⟩
  · simpa [LiveState.step, wroteBatch] using next
  · simpa using content.append_right batch.events
  · simp [LiveState.step, wroteBatch]
  · simp [LiveState.step, wroteBatch]

section
variable {consumer : String} {start : LiveState}

theorem holds_after (opened : start.store.columnFamily = some .empty) {history : List LiveAction}
    (valid : ValidHistory history) :
    ∃ log, Holds (start.after consumer history).store log ∧ log.events.Perm (writtenEvents history) := by
  induction history using List.reverseRecOn with
  | nil => exact ⟨EventLog.empty, opened, .refl _⟩
  | append_singleton past action inductionHypothesis =>
    obtain ⟨log, holds, content⟩ := inductionHypothesis (valid.of_prefixed (List.prefix_append _ _))
    rw [LiveState.after_snoc, writtenEvents_append]
    cases action with
    | write batch =>
      obtain ⟨fit, distinct, _⟩ := valid
      rw [writtenEvents_append] at fit distinct
      have last : writtenEvents [.write batch] = batch.events := by simp [writtenEvents]
      rw [last] at fit distinct ⊢
      obtain ⟨next, nextHolds, nextContent, _⟩ := holds_write consumer holds content batch
        (fun event member => fit event (List.mem_append_right _ member)) distinct
      exact ⟨next, nextHolds, nextContent⟩
    | poll limit =>
      refine ⟨log, ?_, by simpa [writtenEvents] using content⟩
      rw [LiveState.step, Holds, poll_store]
      exact holds

end

/-! ## One poll -/

theorem poll_cases {state : LiveState} {log : EventLog} (holds : Holds state.store log) (consumer : String)
    (limit : Nat) :
    ((∀ page, state.store.readFrom (state.offsets.resumeLsn consumer) limit = .ok page → page = []) ∧
        state.poll consumer limit = state) ∨
      ∃ page last, state.store.readFrom (state.offsets.resumeLsn consumer) limit = .ok page ∧
        page = (log.from_ (state.offsets.resumeLsn consumer)).take (max limit 1) ∧ page.getLast? = some last ∧
        state.poll consumer limit =
          { state with
            offsets := (state.offsets.commit consumer last.lsn).2
            delivered := state.delivered ++ page } := by
  by_cases small : limit < 2 ^ 56
  · have read := readFrom_log holds (state.offsets.resumeLsn consumer) small
    simp only [LiveState.poll, read]
    cases isLast : ((log.from_ (state.offsets.resumeLsn consumer)).take (max limit 1)).getLast? with
    | none => exact .inl ⟨by simpa using List.getLast?_eq_none_iff.mp isLast, rfl⟩
    | some last => exact .inr ⟨_, last, rfl, rfl, isLast, rfl⟩
  · have panics := TenantStore.readFrom_panics holds (state.offsets.resumeLsn consumer) (not_lt.mp small)
    refine .inl ⟨?_, by simp only [LiveState.poll, panics]⟩
    intro page read
    rw [panics] at read
    cases read

theorem passed_commit (log : EventLog) {state : LiveState} {consumer : String} {last : ChangeEvent}
    (below : last.lsn < Lsn.max) (reached : state.offsets.resumeLsn consumer ≤ last.lsn) (page : List ChangeEvent) :
    (passed consumer
        { state with offsets := (state.offsets.commit consumer last.lsn).2, delivered := page } log.events).Perm
      (passed consumer state log.events ++
        upTo ChangeEvent.lsn last (log.from_ (state.offsets.resumeLsn consumer))) := by
  have split := List.filter_append_perm (fun event => decide (event.lsn < state.offsets.resumeLsn consumer))
    (passed consumer { state with offsets := (state.offsets.commit consumer last.lsn).2, delivered := page } log.events)
  refine split.symm.trans ?_
  simp only [passed, upTo, EventLog.from_, List.filter_filter, resumeLsn_commit reached]
  have old : ∀ event : ChangeEvent,
      (decide (event.lsn < state.offsets.resumeLsn consumer) && decide (event.lsn < Lsn.saturatingAdd last.lsn 1)) =
        decide (event.lsn < state.offsets.resumeLsn consumer) := by
    intro event
    rw [← Bool.decide_and, decide_eq_decide, and_iff_left_iff_imp]
    intro less
    exact (less.trans_le reached).trans_le (Lsn.le_saturatingAdd_one _)
  have new : ∀ event : ChangeEvent,
      (!decide (event.lsn < state.offsets.resumeLsn consumer) && decide (event.lsn < Lsn.saturatingAdd last.lsn 1)) =
        (decide (event.lsn ≤ last.lsn) && decide (state.offsets.resumeLsn consumer ≤ event.lsn)) := by
    intro event
    have upToLast : event.lsn < Lsn.saturatingAdd last.lsn 1 ↔ event.lsn ≤ last.lsn := by
      rw [← not_le, Lsn.saturatingAdd_one_le_iff below, not_lt]
    rw [← decide_not, decide_eq_decide.mpr not_lt, ← Bool.decide_and, ← Bool.decide_and, decide_eq_decide, upToLast,
      and_comm]
  simp only [old, new]
  exact .refl _

theorem from_nodup (log : EventLog) (first : Lsn) : (log.from_ first).Nodup :=
  (log.from_sorted first).imp fun less => ne_of_apply_ne eventKey less.ne

/-- The page that a poll would get has every event with the LSN of its last one. -/
def WholePage (consumer : String) (state : LiveState) (events : List ChangeEvent) (limit : Nat) : Prop :=
  ∀ page last, state.store.readFrom (state.offsets.resumeLsn consumer) limit = .ok page →
    page.getLast? = some last → ∀ event ∈ events, event.lsn = last.lsn → event ∈ page

theorem poll_caughtUp_iff {state : LiveState} {log : EventLog} (holds : Holds state.store log) {consumer : String}
    (below : ∀ event ∈ log.events, event.lsn < Lsn.max)
    (caughtUp : state.delivered.Perm (passed consumer state log.events)) (limit : Nat) :
    (state.poll consumer limit).delivered.Perm (passed consumer (state.poll consumer limit) log.events) ↔
      WholePage consumer state log.events limit := by
  obtain ⟨nothing, same⟩ | ⟨page, last, read, isPage, isLast, polled⟩ := poll_cases holds consumer limit
  · rw [same]
    refine ⟨fun _ page last isPage isLast => ?_, fun _ => caughtUp⟩
    rw [nothing page isPage] at isLast
    cases isLast
  · have fromLog : ∀ event ∈ page, event ∈ log.from_ (state.offsets.resumeLsn consumer) := by
      rw [isPage]
      exact fun event => List.mem_of_mem_take
    obtain ⟨inLog, atStart⟩ := List.mem_filter.mp (fromLog last (List.mem_of_getLast? isLast))
    have reached : state.offsets.resumeLsn consumer ≤ last.lsn := by simpa using atStart
    have whole : WholePage consumer state log.events limit ↔
        ∀ event ∈ log.from_ (state.offsets.resumeLsn consumer), event.lsn = last.lsn → event ∈ page := by
      constructor
      · intro whole event member
        exact whole _ last read isLast event (List.mem_of_mem_filter member)
      · intro whole other lastOther isOther isLastOther event member same
        -- there is one page that a poll gets
        cases read.symm.trans isOther
        cases isLast.symm.trans isLastOther
        exact whole event (List.mem_filter.mpr ⟨member, by simpa [same] using reached⟩) same
    -- behind the commit, the page and all with its last LSN count as passed
    have moved := passed_commit log (below last inLog) reached (state.delivered ++ page)
    have before := caughtUp.append_right page
    rw [polled, whole]
    subst isPage
    rw [← page_perm_upTo_iff (from_lsn_sorted log _) (from_nodup log _) isLast]
    constructor
    · intro all
      exact (List.perm_append_left_iff _).mp ((before.symm.trans all).trans moved)
    · intro page
      exact (before.trans (page.append_left _)).trans moved.symm

/-! ## Whole histories -/

/-- A write stays at or above the resume point, and a page has every event with its last LSN. -/
def KeepsUp (consumer : String) (start : LiveState) (past : List LiveAction) : LiveAction → Prop
  | .write batch => ∀ event ∈ batch.events, (start.after consumer past).offsets.resumeLsn consumer ≤ event.lsn
  | .poll limit => WholePage consumer (start.after consumer past) (writtenEvents past) limit

theorem write_caughtUp_iff {consumer : String} {state : LiveState} {delivered events batch : List ChangeEvent}
    (caughtUp : delivered.Perm (passed consumer state events)) :
    delivered.Perm (passed consumer state (events ++ batch)) ↔
      ∀ event ∈ batch, state.offsets.resumeLsn consumer ≤ event.lsn := by
  have late : passed consumer state batch = [] ↔ ∀ event ∈ batch, state.offsets.resumeLsn consumer ≤ event.lsn := by
    simp [passed]
  rw [passed, List.filter_append, ← passed, ← passed, ← late]
  constructor
  · intro all
    have lengths := (caughtUp.symm.trans all).length_eq
    rw [List.length_append] at lengths
    exact List.length_eq_zero_iff.mp (by omega)
  · intro none
    rwa [none, List.append_nil]

theorem caughtUp_snoc_iff {consumer : String} {start : LiveState} (opened : start.store.columnFamily = some .empty)
    {past : List LiveAction} {action : LiveAction} (valid : ValidHistory (past ++ [action]))
    (caughtUp : CaughtUp consumer start past) :
    CaughtUp consumer start (past ++ [action]) ↔ KeepsUp consumer start past action := by
  have pastValid := valid.of_prefixed (List.prefix_append past [action])
  obtain ⟨log, holds, content⟩ : ∃ log, Holds (start.after consumer past).store log ∧ _ :=
    holds_after opened pastValid
  rw [CaughtUp, LiveState.after_snoc, writtenEvents_append]
  cases action with
  | write batch =>
    have last : writtenEvents [.write batch] = batch.events := by simp [writtenEvents]
    obtain ⟨fit, distinct, _⟩ := valid
    rw [writtenEvents_append, last] at fit distinct
    obtain ⟨_, _, _, sameOffsets, sameDelivered⟩ := holds_write consumer holds content batch
      (fun event member => fit event (List.mem_append_right _ member)) distinct
    rw [last, sameDelivered, passed, sameOffsets]
    exact write_caughtUp_iff caughtUp
  | poll limit =>
    have below : ∀ event ∈ log.events, event.lsn < Lsn.max := fun event member =>
      pastValid.below event (content.subset member)
    have same : ∀ state, (passed consumer state log.events).Perm (passed consumer state (writtenEvents past)) :=
      fun state => content.filter _
    have step := poll_caughtUp_iff holds below (caughtUp.trans (same _).symm) limit
    have nothing : writtenEvents past ++ writtenEvents [.poll limit] = writtenEvents past := by simp [writtenEvents]
    rw [nothing, LiveState.step, ← (same _).congr_right, step, KeepsUp]
    simp only [WholePage, content.mem_iff]

/-- From an empty store, whatever is written and however the consumer polls: it has been
    delivered exactly the events below its resume point, each once, at every moment, if and only
    if no event is written below the resume point of that time and every page has all events
    with the LSN it ends at. -/
theorem live_delivery_iff (consumer : String) (start : LiveState) (opened : start.store.columnFamily = some .empty)
    (fresh : start.delivered = []) (history : List LiveAction) (valid : ValidHistory history) :
    (∀ past, past <+: history → CaughtUp consumer start past) ↔
      ∀ past action, past ++ [action] <+: history → KeepsUp consumer start past action := by
  -- the conditions on the events are about the history as a whole, so they go along
  have always : (∀ past, past <+: history → (ValidHistory past → CaughtUp consumer start past)) ↔
      ∀ past action, past ++ [action] <+: history →
        (ValidHistory (past ++ [action]) → KeepsUp consumer start past action) := by
    apply always_iff
    · intro _
      simp [CaughtUp, LiveState.after, fresh, passed, writtenEvents]
    · intro past action caughtUp
      apply imp_congr_right
      intro nextValid
      exact caughtUp_snoc_iff opened nextValid (caughtUp (nextValid.of_prefixed (List.prefix_append _ _)))
  constructor
  · intro caughtUp past action isPrefix
    exact always.mp (fun past isPrefix _ => caughtUp past isPrefix) past action isPrefix (valid.of_prefixed isPrefix)
  · intro keepsUp past isPrefix
    exact always.mpr (fun past action isPrefix _ => keepsUp past action isPrefix) past isPrefix
      (valid.of_prefixed isPrefix)

/-- The change at 6 belongs to a transaction that committed later, and is written when the
    consumer has passed it. -/
def lateWrite : List LiveAction :=
  [.write (WriteBatch.new.push (orderInsert 7 1)), .poll 10, .write (WriteBatch.new.push (orderInsert 6 2))]

theorem live_delivery_misses_late_write :
    ¬ ∀ past, past <+: lateWrite → CaughtUp "audit" ⟨emptyStore, .new, []⟩ past := by
  rw [live_delivery_iff "audit" ⟨emptyStore, .new, []⟩ rfl rfl lateWrite ⟨by decide, by decide, by decide⟩]
  intro keepsUp
  have above := keepsUp [.write (WriteBatch.new.push (orderInsert 7 1)), .poll 10]
    (.write (WriteBatch.new.push (orderInsert 6 2))) List.prefix_rfl
  revert above
  rw [KeepsUp]
  decide

end Nendi.Verified
