import Nendi.Verified.WalRecovery

/-! # The log after failed appends

An append writes its record with three writes and takes nothing back when one of
them fails, so the file may end in part of a record.  A later append that
succeeds writes behind it, and the reader takes its first bytes for the rest of
the torn record.  What was readable stays readable; a record is lost only by
being written behind torn bytes. -/

namespace Nendi.Verified

open Nendi.Lib Nendi.Shared Nendi.Core

instance (io : Io) (writer : WalWriter) : Decidable (io.Succeeds writer) :=
  inferInstanceAs (Decidable ((_ → _) ∧ _ ∧ _ ∧ _))

instance (record : Record) : Decidable (RecordFits record) := inferInstanceAs (Decidable (_ < _))

/-- An append that succeeds finds whole records in the segment it writes to, and
    its own length fits the four bytes in front of it. -/
def CleanStep (wal : Wal) (call : Call) : Prop :=
  call.io.Succeeds wal.writer →
    (parseSegment (wal.dir.contents (segmentName wal.writer.target))).2 = [] ∧ RecordFits call.record

def CleanRun : Wal → List Call → Prop
  | _, [] => True
  | wal, call :: calls => CleanStep wal call ∧ CleanRun (wal.append call).2 calls

instance (wal : Wal) (call : Call) : Decidable (CleanStep wal call) := inferInstanceAs (Decidable (_ → _ ∧ _))

instance decidableCleanRun : (wal : Wal) → (calls : List Call) → Decidable (CleanRun wal calls)
  | _, [] => .isTrue trivial
  | wal, call :: calls =>
    have := decidableCleanRun (wal.append call).2 calls
    inferInstanceAs (Decidable (_ ∧ _))

/-! ## One append -/

theorem append_extends (wal : Wal) (call : Call) (segment : Nat) :
    wal.dir.contents (segmentName segment) <+:
      (wal.append call).2.dir.contents (segmentName segment) := by
  obtain ⟨_, outcome⟩ | ⟨_, fault, next, outcome, untouched | ⟨bytes, rfl⟩⟩ := Wal.append_cases wal call
  · rw [outcome]
    exact ⟨_, (contents_extended wal call.record.encode segment).symm⟩
  · exact ⟨[], by rw [outcome, untouched, List.append_nil]⟩
  · rw [outcome]
    exact ⟨_, (contents_extended wal bytes segment).symm⟩

theorem readable_after {wal : Wal} (call : Call) (segment : Nat) :
    (parseSegment (wal.dir.contents (segmentName segment))).1 <+:
      (parseSegment ((wal.append call).2.dir.contents (segmentName segment))).1 := by
  obtain ⟨more, extended⟩ := append_extends wal call segment
  rw [← extended]
  exact parseFrames_prefix _ _

theorem readable_written {wal : Wal} {call : Call} (ok : (wal.append call).1 = .ok ())
    (clean : CleanStep wal call) :
    (parseSegment ((wal.append call).2.dir.contents (segmentName wal.writer.target))).1 =
      (parseSegment (wal.dir.contents (segmentName wal.writer.target))).1 ++ [call.record] := by
  obtain ⟨whole, fits⟩ := clean (Wal.append_ok_iff.mp ok)
  rw [Wal.append_ok ok]
  change (parseSegment ((wal.extended call.record.encode).dir.contents _)).1 = _
  rw [contents_extended, if_pos rfl, parseSegment_snoc whole fits]

/-! ## Whole runs -/

theorem readable_run {wal : Wal} {calls : List Call} (clean : CleanRun wal calls) (segment : Nat)
    {kept : List Record}
    (readable : kept.Sublist (parseSegment (wal.dir.contents (segmentName segment))).1) :
    (kept ++ group (wal.stored calls) segment).Sublist
      (parseSegment ((wal.after calls).dir.contents (segmentName segment))).1 := by
  -- `kept` collects what earlier calls of the run have stored in this segment
  induction calls generalizing wal kept with
  | nil => simpa [Wal.stored, Wal.after] using readable
  | cons call calls inductionHypothesis =>
    obtain ⟨cleanStep, cleanRest⟩ := clean
    change (_ : List Record).Sublist
      (parseSegment (((wal.append call).2.after calls).dir.contents (segmentName segment))).1
    have still := readable.trans (readable_after call segment).sublist
    by_cases ok : (wal.append call).1 = .ok ()
    · have rest : wal.stored (call :: calls) =
          (wal.writer.target, call.record) :: (wal.append call).2.stored calls := by
        rw [Wal.stored_of_ok ok, Wal.append_ok ok]
      rw [rest]
      by_cases here : segment = wal.writer.target
      · subst here
        rw [group_cons_self (wal.writer.target, call.record), List.append_cons]
        apply inductionHypothesis cleanRest
        rw [readable_written ok cleanStep]
        exact readable.append_right [call.record]
      · rw [group_cons_of_ne fun equal => here equal.symm]
        exact inductionHypothesis cleanRest still
    · rw [Wal.stored_of_failed ok]
      exact inductionHypothesis cleanRest still

/-- Whatever appends fail and wherever, from whatever log: if successful appends
    never write behind torn bytes, every record whose append returned `Ok` can be
    read from its segment, in order. -/
theorem failed_appends_keep_records (wal : Wal) (calls : List Call) (clean : CleanRun wal calls)
    (segment : Nat) :
    (group (wal.stored calls) segment).Sublist
      (parseSegment ((wal.after calls).dir.contents (segmentName segment))).1 :=
  readable_run clean segment (List.nil_sublist _)

/-- A call that fails before anything is written. -/
def refusedCall : Call where
  io := { opens := true, lengthWrite := some 0, lsnWrite := none, payloadWrite := none }
  record := ⟨2, []⟩

/-- A call that fails when only the length is written. -/
def tornCall : Call where
  io := { opens := true, lengthWrite := none, lsnWrite := some 0, payloadWrite := none }
  record := ⟨2, []⟩

theorem failed_append_without_bytes :
    (group ((Wal.new ∅ 100).stored [.plain ⟨1, []⟩, refusedCall, .plain ⟨3, []⟩]) 1).Sublist
      (parseSegment (((Wal.new ∅ 100).after
        [.plain ⟨1, []⟩, refusedCall, .plain ⟨3, []⟩]).dir.contents (segmentName 1))).1 :=
  failed_appends_keep_records (Wal.new ∅ 100) [.plain ⟨1, []⟩, refusedCall, .plain ⟨3, []⟩]
    (by decide +kernel) 1

/-- Behind a torn record the next one is not found. -/
theorem torn_append_hides_record :
    ¬ (group ((Wal.new ∅ 100).stored [tornCall, .plain ⟨3, []⟩]) 1).Sublist
      (parseSegment (((Wal.new ∅ 100).after [tornCall, .plain ⟨3, []⟩]).dir.contents
        (segmentName 1))).1 := by
  decide +kernel

end Nendi.Verified
