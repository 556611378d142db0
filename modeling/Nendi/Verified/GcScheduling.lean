import Mathlib.Logic.Function.Basic
import Nendi.Core.GcScheduler
import Nendi.Lib.Machine

/-! # Collections are asked for in order

Consumers may report any LSN and leave at any time, so the least reported LSN rises and
falls.  The watermarks handed out by `maybe_gc` only rise, and each is the least of what
is tracked when it is handed out. -/

namespace Nendi.Verified

open Nendi.Core Nendi.Lib Nendi.Shared

/-! ## What is tracked, and what is handed out -/

/-- The last LSN each consumer reported since it was last removed. -/
def trackedAfter (calls : List SchedulerCall) : String → Option Lsn :=
  calls.foldl (fun tracked call =>
    match call with
    | .update consumer lsn => Function.update tracked consumer (some lsn)
    | .remove consumer => Function.update tracked consumer none
    | .maybeGc => tracked) fun _ => none

def scheduled (interval : Nat) (calls : List SchedulerCall) :
    GcScheduler × List (SchedulerCall × Option Lsn) := trace GcScheduler.step (.new interval) calls

def handedOut (history : List (SchedulerCall × Option Lsn)) : List Lsn := history.filterMap Prod.snd

structure SchedulesSafely (interval : Nat) (calls : List SchedulerCall) : Prop where
  increasing : (handedOut (scheduled interval calls).2).Pairwise (· < ·)
  counted : (scheduled interval calls).1.gcRuns.toNat = (handedOut (scheduled interval calls).2).length
  -- every watermark is the least of what is tracked when it is handed out
  least : ∀ past, past ++ [.maybeGc] <+: calls →
    ∀ watermark, (scheduled interval past).1.maybeGc.1 = some watermark →
      (∀ consumer lsn, trackedAfter past consumer = some lsn → watermark ≤ lsn) ∧
        ∃ consumer, trackedAfter past consumer = some watermark
  -- nothing is handed out while nobody is tracked
  idle : ∀ past, past ++ [.maybeGc] <+: calls → (∀ consumer, trackedAfter past consumer = none) →
    (scheduled interval past).1.maybeGc.1 = none

/-! ## Runs -/

theorem handedOut_snoc (history : List (SchedulerCall × Option Lsn)) (call : SchedulerCall)
    (output : Option Lsn) : handedOut (history ++ [(call, output)]) = handedOut history ++ output.toList := by
  cases output with
  | none => simp [handedOut]
  | some watermark => simp [handedOut]

theorem lookup_scheduled (interval : Nat) (calls : List SchedulerCall) (consumer : String) :
    (scheduled interval calls).1.watermark.consumers.lookup consumer = trackedAfter calls consumer := by
  induction calls using List.reverseRecOn with
  | nil => rfl
  | append_singleton past call inductionHypothesis =>
    rw [scheduled, trace_snoc, ← scheduled, trackedAfter, List.foldl_append, ← trackedAfter]
    cases call with
    | update reporter lsn =>
      by_cases same : consumer = reporter
      · subst same
        simp [GcScheduler.step, WatermarkTracker.update]
      · simp [GcScheduler.step, WatermarkTracker.update, same, inductionHypothesis]
    | remove leaving =>
      by_cases same : consumer = leaving
      · subst same
        simp [GcScheduler.step, WatermarkTracker.remove]
      · simp [GcScheduler.step, WatermarkTracker.remove, same, AList.lookup_erase_ne same,
          inductionHypothesis]
    | maybeGc =>
      obtain idle | ⟨_, collects⟩ := (scheduled interval past).1.maybeGc_cases
      · simpa [GcScheduler.step, idle] using inductionHypothesis
      · simpa [GcScheduler.step, collects] using inductionHypothesis

/-- What is behind the scheduler when it stands at `lastGcWatermark`. -/
structure HandsOut (history : List (SchedulerCall × Option Lsn)) (scheduler : GcScheduler) : Prop where
  increasing : (handedOut history).Pairwise (· < ·)
  reached : ∀ watermark ∈ handedOut history, watermark ≤ scheduler.lastGcWatermark
  counted : scheduler.gcRuns.toNat = (handedOut history).length
  -- every collection raised the watermark, so the counter cannot wrap
  bounded : scheduler.gcRuns.toNat ≤ scheduler.lastGcWatermark.toNat

theorem HandsOut.quiet {history : List (SchedulerCall × Option Lsn)} {scheduler next : GcScheduler}
    (holds : HandsOut history scheduler) (call : SchedulerCall)
    (sameWatermark : next.lastGcWatermark = scheduler.lastGcWatermark)
    (sameRuns : next.gcRuns = scheduler.gcRuns) : HandsOut (history ++ [(call, none)]) next := by
  have same : handedOut (history ++ [(call, none)]) = handedOut history := by simp [handedOut_snoc]
  refine ⟨?_, ?_, ?_, ?_⟩
  · rw [same]
    exact holds.increasing
  · rw [same, sameWatermark]
    exact holds.reached
  · rw [same, sameRuns]
    exact holds.counted
  · rw [sameRuns, sameWatermark]
    exact holds.bounded

theorem HandsOut.collect {history : List (SchedulerCall × Option Lsn)} {scheduler : GcScheduler}
    (holds : HandsOut history scheduler) {watermark : Lsn}
    (ahead : scheduler.lastGcWatermark < watermark) :
    HandsOut (history ++ [(.maybeGc, some watermark)])
      { scheduler with lastGcWatermark := watermark, gcRuns := scheduler.gcRuns + 1 } := by
  have bounded := holds.bounded
  have limit := watermark.toNat_lt
  rw [UInt64.lt_iff_toNat_lt] at ahead
  have runs : (scheduler.gcRuns + 1).toNat = scheduler.gcRuns.toNat + 1 := by
    rw [UInt64.toNat_add, UInt64.toNat_one, Nat.mod_eq_of_lt]
    omega
  refine ⟨?_, ?_, ?_, ?_⟩
  · rw [handedOut_snoc, Option.toList_some, List.pairwise_append]
    refine ⟨holds.increasing, List.pairwise_singleton _ _, ?_⟩
    intro earlier member later last
    rw [List.mem_singleton.mp last]
    exact lt_of_le_of_lt (holds.reached earlier member) (UInt64.lt_iff_toNat_lt.mpr ahead)
  · intro earlier member
    rw [handedOut_snoc, Option.toList_some, List.mem_append, List.mem_singleton] at member
    obtain before | rfl := member
    · exact (holds.reached earlier before).trans (le_of_lt (UInt64.lt_iff_toNat_lt.mpr ahead))
    · exact le_refl _
  · rw [runs, handedOut_snoc, holds.counted]
    simp
  · show (scheduler.gcRuns + 1).toNat ≤ watermark.toNat
    omega

theorem handsOut_scheduled (interval : Nat) (calls : List SchedulerCall) :
    HandsOut (scheduled interval calls).2 (scheduled interval calls).1 := by
  apply trace_invariant HandsOut
  · exact ⟨List.Pairwise.nil, by simp [handedOut], rfl, Nat.zero_le _⟩
  · intro past scheduler call holds
    cases call with
    | update consumer lsn => exact holds.quiet _ rfl rfl
    | remove consumer => exact holds.quiet _ rfl rfl
    | maybeGc =>
      obtain idle | ⟨ahead, collects⟩ := scheduler.maybeGc_cases
      · simp only [GcScheduler.step, idle]
        exact holds.quiet _ rfl rfl
      · simp only [GcScheduler.step, collects]
        exact holds.collect ahead

theorem watermark_of_handed {scheduler : GcScheduler} {watermark : Lsn}
    (handed : scheduler.maybeGc.1 = some watermark) :
    watermark = scheduler.watermark.watermark ∧ Lsn.zero < watermark := by
  obtain idle | ⟨ahead, collects⟩ := scheduler.maybeGc_cases
  · simp [idle] at handed
  · simp only [collects, Option.some.injEq] at handed
    subst handed
    exact ⟨rfl, lt_of_le_of_lt (by simp [Lsn.zero]) ahead⟩

theorem handed_least (interval : Nat) (past : List SchedulerCall) {watermark : Lsn}
    (handed : (scheduled interval past).1.maybeGc.1 = some watermark) :
    (∀ consumer lsn, trackedAfter past consumer = some lsn → watermark ≤ lsn) ∧
      ∃ consumer, trackedAfter past consumer = some watermark := by
  obtain ⟨rfl, positive⟩ := watermark_of_handed handed
  simpa only [lookup_scheduled] using WatermarkTracker.watermark_least positive

/-- Whatever consumers report and however often `maybe_gc` is asked. -/
theorem gc_schedules_safely (interval : Nat) (calls : List SchedulerCall) :
    SchedulesSafely interval calls := by
  have holds := handsOut_scheduled interval calls
  refine ⟨holds.increasing, holds.counted, ?_, ?_⟩
  · intro past _ watermark handed
    exact handed_least interval past handed
  · intro past _ nobody
    cases handed : (scheduled interval past).1.maybeGc.1 with
    | none => rfl
    | some watermark =>
      obtain ⟨consumer, tracked⟩ := (handed_least interval past handed).2
      rw [nobody consumer] at tracked
      cases tracked

/-- Two consumers, one of which falls back and leaves: the second watermark is handed out
    only when the other passes the first one. -/
example : handedOut (scheduled 0 [.update "a" 5, .update "b" 9, .maybeGc, .update "a" 3, .maybeGc,
    .remove "a", .maybeGc, .remove "b", .maybeGc]).2 = [5, 9] := by decide

end Nendi.Verified
