import Mathlib.Data.List.Find
import Mathlib.Data.List.Induction
import Nendi.Lib.BigEndian
import Nendi.Lib.Machine
import Nendi.Pgsql.Ddl

/-! # Every schema change is handed over once

A run of the handler takes messages with any LSNs, changes of the monitored tables and
drains with any bounds.  A change that is buffered is handed over by the first later
drain that reaches its LSN (`firstDrain`), and a drain hands its changes over in the
order in which they came.
-/

namespace Nendi.Verified

open Nendi.Lib Nendi.Pgsql

/-! ## Runs -/

inductive DdlCall where
  | handle (lsn : UInt64) (content : String)
  | setMonitored (tables : List String)
  | drain (bound : UInt64)
deriving DecidableEq, Repr

inductive DdlReply where
  | handled (result : Exec String Unit)
  | updated
  | drained (changes : List DdlChange)

section Run

variable (upper : Char → List Char)

def ddlStep (handler : DdlHandler) : DdlCall → DdlReply × DdlHandler
  | .handle lsn content =>
    let (result, handler) := handler.handleDdlMessage upper lsn content
    (.handled result, handler)
  | .setMonitored tables => (.updated, handler.setMonitoredTables tables)
  | .drain bound =>
    let (changes, handler) := handler.drainUpTo bound
    (.drained changes, handler)

def ddlRun (tables : List String) (calls : List DdlCall) : DdlHandler × List (DdlCall × DdlReply) :=
  trace (ddlStep upper) (.new tables) calls

/-! ## What is to be delivered -/

def monitoredAfter (tables : List String) (calls : List DdlCall) : List String :=
  calls.foldl (fun tables call =>
    match call with
    | .setMonitored tables => tables
    | _ => tables) tables

def changeOf (monitored : List String) : DdlCall → Option DdlChange
  | .handle lsn content =>
    match parseDdlMessage upper content with
    | .ok parsed =>
      if parsed.table ∈ monitored then some ⟨lsn, parsed.table, parsed.kind, parsed.statement⟩ else none
    | .error _ => none
  | _ => none

/-- The changes in the order in which they arrive, with the positions of their messages. -/
def arrivals (tables : List String) (calls : List DdlCall) : List (Nat × DdlChange) :=
  (List.range calls.length).filterMap fun position =>
    (calls[position]?.bind (changeOf upper (monitoredAfter tables (calls.take position)))).map (position, ·)

end Run

def DdlCall.reaches (lsn : UInt64) : DdlCall → Bool
  | .drain bound => lsn ≤ bound
  | _ => false

/-- The first drain after the given position whose bound is at or above the LSN. -/
def firstDrain (calls : List DdlCall) (arrived : Nat) (lsn : UInt64) : Option Nat :=
  (List.range calls.length).find? fun position =>
    decide (arrived < position) && calls[position]?.any (·.reaches lsn)

/-- The changes that the drain at this position is the first to reach, or that none has reached. -/
def deliveredAt (upper : Char → List Char) (tables : List String) (calls : List DdlCall)
    (drain : Option Nat) : List DdlChange :=
  ((arrivals upper tables calls).filter fun arrival =>
    decide (firstDrain calls arrival.1 arrival.2.lsn = drain)).map Prod.snd

structure DeliversOnce (upper : Char → List Char) (tables : List String) (calls : List DdlCall) : Prop where
  drained : ∀ (position : Nat) (bound : UInt64), calls[position]? = some (.drain bound) →
    (ddlRun upper tables calls).2[position]? =
      some (.drain bound, .drained (deliveredAt upper tables calls (some position)))
  buffered : (ddlRun upper tables calls).1.buffer.pending = deliveredAt upper tables calls none
  -- other messages do nothing
  ignored : ∀ past lsn content, past ++ [.handle lsn content] <+: calls →
    changeOf upper (monitoredAfter tables past) (.handle lsn content) = none →
    (ddlRun upper tables (past ++ [.handle lsn content])).1 = (ddlRun upper tables past).1

/-! ## One call more -/

section Snoc

variable (upper : Char → List Char) (tables : List String) (calls : List DdlCall) (call : DdlCall)

theorem ddlRun_snoc : ddlRun upper tables (calls ++ [call]) =
    ((ddlStep upper (ddlRun upper tables calls).1 call).2,
      (ddlRun upper tables calls).2 ++ [(call, (ddlStep upper (ddlRun upper tables calls).1 call).1)]) :=
  trace_snoc _ _ calls call

theorem arrivals_snoc : arrivals upper tables (calls ++ [call]) = arrivals upper tables calls ++
    ((changeOf upper (monitoredAfter tables calls) call).map (calls.length, ·)).toList := by
  have earlier : ∀ position ∈ List.range calls.length,
      ((calls ++ [call])[position]?.bind
        (changeOf upper (monitoredAfter tables ((calls ++ [call]).take position)))).map (position, ·) =
      (calls[position]?.bind (changeOf upper (monitoredAfter tables (calls.take position)))).map (position, ·) := by
    intro position member
    rw [List.mem_range] at member
    rw [List.getElem?_append_left member, List.take_append_of_le_length member.le]
  rw [arrivals, List.length_append, List.length_singleton, List.range_succ, List.filterMap_append,
    List.filterMap_congr earlier]
  simp only [List.filterMap_cons, List.filterMap_nil, List.getElem?_concat_length, List.take_left,
    Option.bind_some]
  cases changeOf upper (monitoredAfter tables calls) call with
  | none => rfl
  | some change => rfl

theorem monitoredAfter_snoc : monitoredAfter tables (calls ++ [call]) =
    match call with
    | .setMonitored tables => tables
    | _ => monitoredAfter tables calls := by
  rw [monitoredAfter, List.foldl_append]
  rfl

theorem firstDrain_snoc (arrived : Nat) (lsn : UInt64) : firstDrain (calls ++ [call]) arrived lsn =
    (firstDrain calls arrived lsn).or
      (if arrived < calls.length ∧ call.reaches lsn = true then some calls.length else none) := by
  have earlier : ∀ position ∈ List.range calls.length,
      (decide (arrived < position) && (calls ++ [call])[position]?.any (·.reaches lsn)) =
        (decide (arrived < position) && calls[position]?.any (·.reaches lsn)) := by
    intro position member
    rw [List.getElem?_append_left (List.mem_range.mp member)]
  rw [firstDrain, List.length_append, List.length_singleton, List.range_succ, List.find?_append,
    List.find?_congr earlier, ← firstDrain]
  simp only [List.find?_singleton, List.getElem?_concat_length, Option.any_some, Bool.and_eq_true,
    decide_eq_true_eq]

end Snoc

/-! ## First drains -/

theorem firstDrain_bounds {calls : List DdlCall} {arrived position : Nat} {lsn : UInt64}
    (found : firstDrain calls arrived lsn = some position) : arrived < position ∧ position < calls.length := by
  have inRange := List.mem_of_find?_eq_some found
  have matched := List.find?_some found
  simp only [Bool.and_eq_true, decide_eq_true_eq] at matched
  exact ⟨matched.1, List.mem_range.mp inRange⟩

theorem firstDrain_of_le {calls : List DdlCall} {arrived : Nat} (late : calls.length ≤ arrived + 1) (lsn : UInt64) :
    firstDrain calls arrived lsn = none := by
  cases found : firstDrain calls arrived lsn with
  | none => rfl
  | some position =>
    have bounds := firstDrain_bounds found
    omega

section Delivered

variable (upper : Char → List Char) (tables : List String) (calls : List DdlCall)

theorem arrival_lt {arrival : Nat × DdlChange} (member : arrival ∈ arrivals upper tables calls) :
    arrival.1 < calls.length := by
  obtain ⟨position, inRange, found⟩ := List.mem_filterMap.mp member
  obtain ⟨change, -, rfl⟩ := Option.map_eq_some_iff.mp found
  exact List.mem_range.mp inRange

theorem deliveredAt_snoc (call : DdlCall) (drain : Option Nat) :
    deliveredAt upper tables (calls ++ [call]) drain =
      ((arrivals upper tables calls).filter fun arrival =>
        decide (firstDrain (calls ++ [call]) arrival.1 arrival.2.lsn = drain)).map Prod.snd ++
      (if drain = none then (changeOf upper (monitoredAfter tables calls) call).toList else []) := by
  have undrained : ∀ lsn, firstDrain (calls ++ [call]) calls.length lsn = none := firstDrain_of_le (by simp)
  rw [deliveredAt, arrivals_snoc, List.filter_append, List.map_append, List.append_cancel_left_eq]
  cases changeOf upper (monitoredAfter tables calls) call with
  | none => simp
  | some change =>
    cases drain with
    | none => simp [undrained]
    | some position => simp [undrained]

theorem deliveredAt_snoc_earlier (call : DdlCall) {position : Nat} (earlier : position < calls.length) :
    deliveredAt upper tables (calls ++ [call]) (some position) = deliveredAt upper tables calls (some position) := by
  have same : ∀ arrival ∈ arrivals upper tables calls,
      decide (firstDrain (calls ++ [call]) arrival.1 arrival.2.lsn = some position) =
        decide (firstDrain calls arrival.1 arrival.2.lsn = some position) := by
    intro arrival _
    rw [firstDrain_snoc, decide_eq_decide]
    cases firstDrain calls arrival.1 arrival.2.lsn with
    | none =>
      have other : calls.length ≠ position := earlier.ne'
      simp [other]
    | some found => simp
  rw [deliveredAt_snoc, List.filter_congr same]
  simp [deliveredAt]

theorem deliveredAt_chosen {bound : UInt64} {drain : Option Nat} {chosen : DdlChange → Bool}
    (decides : ∀ arrival ∈ arrivals upper tables calls,
      firstDrain (calls ++ [.drain bound]) arrival.1 arrival.2.lsn = drain ↔
        chosen arrival.2 = true ∧ firstDrain calls arrival.1 arrival.2.lsn = none) :
    deliveredAt upper tables (calls ++ [.drain bound]) drain =
      (deliveredAt upper tables calls none).filter chosen := by
  have same : ∀ arrival ∈ arrivals upper tables calls,
      decide (firstDrain (calls ++ [.drain bound]) arrival.1 arrival.2.lsn = drain) =
        (chosen arrival.2 && decide (firstDrain calls arrival.1 arrival.2.lsn = none)) := by
    intro arrival member
    rw [Bool.eq_iff_iff, decide_eq_true_iff, decides arrival member, Bool.and_eq_true, decide_eq_true_iff]
  rw [deliveredAt_snoc, List.filter_congr same, deliveredAt, List.filter_map, List.filter_filter]
  simp [changeOf]

theorem deliveredAt_drain (bound : UInt64) :
    deliveredAt upper tables (calls ++ [.drain bound]) (some calls.length) =
      (deliveredAt upper tables calls none).filter (·.lsn ≤ bound) := by
  apply deliveredAt_chosen upper tables calls
  intro arrival member
  have before := arrival_lt upper tables calls member
  rw [firstDrain_snoc]
  cases found : firstDrain calls arrival.1 arrival.2.lsn with
  | none => simp [before, DdlCall.reaches]
  | some position =>
    have bounds := firstDrain_bounds found
    simp [bounds.2.ne]

theorem undelivered_drain (bound : UInt64) :
    deliveredAt upper tables (calls ++ [.drain bound]) none =
      (deliveredAt upper tables calls none).filter (fun change => !decide (change.lsn ≤ bound)) := by
  apply deliveredAt_chosen upper tables calls
  intro arrival member
  have before := arrival_lt upper tables calls member
  rw [firstDrain_snoc]
  cases firstDrain calls arrival.1 arrival.2.lsn with
  | none => simp [before, DdlCall.reaches]
  | some position => simp

theorem undelivered_snoc {call : DdlCall} (quiet : ∀ lsn, call.reaches lsn = false) :
    deliveredAt upper tables (calls ++ [call]) none =
      deliveredAt upper tables calls none ++ (changeOf upper (monitoredAfter tables calls) call).toList := by
  rw [deliveredAt_snoc]
  simp [firstDrain_snoc, quiet, deliveredAt]

end Delivered

/-! ## The run -/

section Handler

variable (upper : Char → List Char) (tables : List String)

theorem ddlStep_handle (handler : DdlHandler) (lsn : UInt64) (content : String) :
    (ddlStep upper handler (.handle lsn content)).2 =
      { handler with buffer := ⟨handler.buffer.pending ++
        (changeOf upper handler.monitoredTables (.handle lsn content)).toList⟩ } := by
  simp only [ddlStep, DdlHandler.handleDdlMessage, changeOf]
  cases parseDdlMessage upper content with
  | error fault => simp
  | ok parsed =>
    by_cases listed : parsed.table ∈ handler.monitoredTables
    · simp [DdlHandler.isMonitored, listed, DdlBuffer.push]
    · simp [DdlHandler.isMonitored, listed]

theorem run_monitored (calls : List DdlCall) :
    (ddlRun upper tables calls).1.monitoredTables = monitoredAfter tables calls := by
  induction calls using List.reverseRecOn with
  | nil => rfl
  | append_singleton calls call inductionHypothesis =>
    rw [ddlRun_snoc, monitoredAfter_snoc]
    cases call with
    | handle lsn content => rw [ddlStep_handle, inductionHypothesis]
    | setMonitored tables => rfl
    | drain bound => exact inductionHypothesis

theorem run_pending (calls : List DdlCall) :
    (ddlRun upper tables calls).1.buffer.pending = deliveredAt upper tables calls none := by
  induction calls using List.reverseRecOn with
  | nil => rfl
  | append_singleton calls call inductionHypothesis =>
    rw [ddlRun_snoc]
    cases call with
    -- a new change is at the end of the buffer and of the arrivals
    | handle lsn content =>
      rw [ddlStep_handle, undelivered_snoc _ _ _ fun _ => rfl, run_monitored, inductionHypothesis]
    | setMonitored tables =>
      rw [undelivered_snoc _ _ _ fun _ => rfl]
      simp only [changeOf, Option.toList_none, List.append_nil]
      exact inductionHypothesis
    -- the buffer is split by the same comparison that says which arrivals are reached
    | drain bound =>
      rw [undelivered_drain, ← inductionHypothesis]
      simp [ddlStep, DdlHandler.drainUpTo, DdlBuffer.drainUpTo, List.partition_eq_filter_filter, Function.comp_def]

theorem run_length (calls : List DdlCall) : (ddlRun upper tables calls).2.length = calls.length := by
  have actions := congrArg List.length (trace_actions (ddlStep upper) (.new tables) calls)
  rw [List.length_map] at actions
  exact actions

theorem run_drained (calls : List DdlCall) (position : Nat) (bound : UInt64)
    (drains : calls[position]? = some (.drain bound)) :
    (ddlRun upper tables calls).2[position]? =
      some (.drain bound, .drained (deliveredAt upper tables calls (some position))) := by
  induction calls using List.reverseRecOn with
  | nil => simp at drains
  | append_singleton calls call inductionHypothesis =>
    rw [ddlRun_snoc]
    rcases Nat.lt_trichotomy position calls.length with earlier | last | beyond
    · -- an earlier drain has its answer already, and no later call changes what is due to it
      rw [List.getElem?_append_left earlier] at drains
      rw [List.getElem?_append_left (by rwa [run_length]), inductionHypothesis drains,
        deliveredAt_snoc_earlier _ _ _ _ earlier]
    · -- the last call takes what it reaches out of the buffer
      subst last
      rw [List.getElem?_concat_length, Option.some.injEq] at drains
      subst drains
      have lastReply := run_length upper tables calls
      rw [deliveredAt_drain, ← run_pending, ← lastReply, List.getElem?_concat_length]
      simp [ddlStep, DdlHandler.drainUpTo, DdlBuffer.drainUpTo, List.partition_eq_filter_filter]
    · rw [List.getElem?_eq_none (by simp; omega)] at drains
      cases drains

/-- Every change that arrives is handed over by the first drain that reaches it, once and in
    order, and nothing else is. -/
theorem ddl_changes_delivered_once (calls : List DdlCall) : DeliversOnce upper tables calls where
  drained := run_drained upper tables calls
  buffered := run_pending upper tables calls
  ignored := by
    intro past lsn content _ unheard
    rw [← run_monitored upper] at unheard
    rw [ddlRun_snoc, ddlStep_handle, unheard]
    simp

end Handler

end Nendi.Verified
