import Nendi.Core.WalGc
import Nendi.Verified.WalRecovery

/-! # What the removal of segments keeps

`gc_segments` goes by the numbers of the segments alone.  `gc_respects_watermark_iff`
says after which runs of the writer that agrees with the watermark it is given. -/

namespace Nendi.Verified

open Nendi.Lib Nendi.Shared Nendi.Core

theorem mem_append {wal : Wal} {name : String} (present : name ∈ wal.dir) (call : Call) :
    name ∈ (wal.append call).2.dir := by
  obtain ⟨_, outcome⟩ | ⟨_, fault, next, outcome, untouched | ⟨bytes, rfl⟩⟩ := Wal.append_cases wal call
  · rw [outcome]
    exact (mem_advanced wal call.record name).mpr (.inr present)
  · rw [outcome, untouched]
    exact present
  · rw [outcome]
    exact (mem_extended wal bytes name).mpr (.inr present)

theorem mem_after_run {wal : Wal} {name : String} (present : name ∈ wal.dir) (calls : List Call) :
    name ∈ (wal.after calls).dir := by
  induction calls generalizing wal with
  | nil => exact present
  | cons call calls inductionHypothesis => exact inductionHypothesis (mem_append present call)

theorem mem_of_stored {wal : Wal} {calls : List Call} {entry : Nat × Record}
    (stored : entry ∈ wal.stored calls) : segmentName entry.1 ∈ (wal.after calls).dir := by
  induction calls generalizing wal with
  | nil => cases stored
  | cons call calls inductionHypothesis =>
    by_cases ok : (wal.append call).1 = .ok ()
    · rw [Wal.stored_of_ok ok] at stored
      rw [Wal.after_of_ok ok]
      cases stored with
      -- the append has made the file, and no later one removes it
      | head => exact mem_after_run ((mem_advanced wal call.record _).mpr (.inl rfl)) calls
      | tail _ later => exact inductionHypothesis later
    · rw [Wal.stored_of_failed ok] at stored
      exact inductionHypothesis stored

/-- The segments a pass removes: those numbered three or more below the current one,
    as far as numbers are `u64`. -/
theorem collects_segmentName (writer : WalWriter) (segment : Nat) :
    writer.collects (segmentName segment) = true ↔
      segment < 2 ^ 64 ∧ (segment + 2) % 2 ^ 64 < writer.segment := by
  rw [WalWriter.collects, segmentNumber_segmentName]
  by_cases fits : segment < 2 ^ 64
  · have sum : (UInt64.ofNat segment + 2).toNat = (segment + 2) % 2 ^ 64 := by
      rw [UInt64.toNat_add, UInt64.toNat_ofNat_of_lt' fits]
      rfl
    rw [if_pos fits]
    simp only [WalWriter.isOld, sum, decide_eq_true_eq, fits, true_and]
  · rw [if_neg fits]
    simp only [Bool.false_eq_true, fits, false_and]

/-- The segment has the record, from this run or from before. -/
def HasRecord (dir : Directory) (max : Nat) (calls : List Call) (segment : Nat) (record : Record) : Prop :=
  (segment, record) ∈ (Wal.new dir max).stored calls ∨ record ∈ (parseSegment (dir.contents (segmentName segment))).1

theorem HasRecord.mem {dir : Directory} {max segment : Nat} {calls : List Call} {record : Record}
    (has : HasRecord dir max calls segment record) : segmentName segment ∈ ((Wal.new dir max).after calls).dir := by
  cases has with
  | inl stored =>
    have there := mem_of_stored stored
    exact there
  | inr old =>
    -- nothing can be read from a file that is not there
    have there : segmentName segment ∈ dir := by
      by_contra missing
      rw [Directory.contents, AList.lookup_eq_none.mpr missing, Option.getD_none, parseSegment, parseFrames_nil] at old
      cases old
    exact @mem_after_run (Wal.new dir max) _ there calls

/-- After any run of a writer on any directory: every pass for `watermark` keeps
    every segment with a record at or above it, if and only if all records in
    segments numbered three or more below the current one are below the watermark. -/
theorem gc_respects_watermark_iff (dir : Directory) (max : Nat) (calls : List Call) (watermark : Lsn) :
    (∀ pass : GcPass ((Wal.new dir max).after calls).dir,
      ∀ segment record, HasRecord dir max calls segment record → watermark ≤ record.lsn →
        segmentName segment ∈ (WalWriter.gcSegments ((Wal.new dir max).after calls).writer
          ((Wal.new dir max).after calls).dir watermark pass).2) ↔
      ∀ segment record, HasRecord dir max calls segment record →
        segment < 2 ^ 64 → (segment + 2) % 2 ^ 64 < ((Wal.new dir max).after calls).writer.segment →
          record.lsn < watermark := by
  constructor
  · intro kept segment record has fits old
    by_contra notBelow
    -- the watermark is not consulted: some pass removes the old segment
    have stays := (gc_keeps_iff ((Wal.new dir max).after calls).writer watermark has.mem).mp
      fun pass => kept pass segment record has (not_lt.mp notBelow)
    rw [(collects_segmentName _ segment).mpr ⟨fits, old⟩] at stays
    cases stays
  · intro below pass segment record has reached
    refine (gc_keeps_iff ((Wal.new dir max).after calls).writer watermark has.mem).mpr ?_ pass
    rw [← Bool.not_eq_true, collects_segmentName]
    rintro ⟨fits, old⟩
    exact absurd (below segment record has fits old) (not_lt.mpr reached)

/-- Four records in four segments, none of them below the watermark zero. -/
def fourSegments : List Call := [⟨1, []⟩, ⟨2, []⟩, ⟨3, []⟩, ⟨4, []⟩].map Call.plain

theorem gc_removes_undurable_segment :
    (1, ⟨1, []⟩) ∈ (Wal.new ∅ 1).stored fourSegments ∧
      ∃ pass : GcPass ((Wal.new ∅ 1).after fourSegments).dir,
        segmentName 1 ∉ (WalWriter.gcSegments ((Wal.new ∅ 1).after fourSegments).writer
          ((Wal.new ∅ 1).after fourSegments).dir 0 pass).2 := by
  have stored : (1, ⟨1, []⟩) ∈ (Wal.new ∅ 1).stored fourSegments := by decide
  refine ⟨stored, ?_⟩
  by_contra kept
  have stays := (gc_keeps_iff ((Wal.new ∅ 1).after fourSegments).writer 0 (mem_of_stored stored)).mp
    fun pass => by_contra fun removed => kept ⟨pass, removed⟩
  rw [(collects_segmentName _ 1).mpr (by decide)] at stays
  cases stays

end Nendi.Verified
