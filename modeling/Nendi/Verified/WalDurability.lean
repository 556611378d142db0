import Nendi.Core.WalSync
import Nendi.Verified.WalRecovery

/-! # What survives a crash

`sync` makes the open segment durable and no other.  A segment that is left by a rotation
is never synced again, so what was appended to it since its last sync may be lost, however
often the log is synced later.  `synced_records_survive_iff` says when a sync makes all the
records before it durable: when each rotation found the segment it left synced.
-/

namespace Nendi.Verified

open Nendi.Lib Nendi.Shared Nendi.Core

/-! ## Segments cut short -/

theorem bytesOf_mono {first second : List Record} (isPrefix : first <+: second) : bytesOf first ≤ bytesOf second := by
  obtain ⟨rest, rfl⟩ := isPrefix
  simp [bytesOf]

theorem encodes_of_prefixed {first second : List Record} (isPrefix : first <+: second) :
    first.flatMap Record.encode <+: second.flatMap Record.encode := by
  obtain ⟨rest, rfl⟩ := isPrefix
  rw [List.flatMap_append]
  exact List.prefix_append _ _

theorem parseSegment_mono {left whole : List UInt8} (cut : left <+: whole) :
    (parseSegment left).1 <+: (parseSegment whole).1 := by
  obtain ⟨lost, rfl⟩ := cut
  exact parseFrames_prefix left lost

variable {records : List Record}

theorem parse_cut_prefixed (fit : ∀ record ∈ records, RecordFits record) {left : List UInt8}
    (cut : left <+: records.flatMap Record.encode) : (parseSegment left).1 <+: records := by
  have longer := parseSegment_mono cut
  rwa [parseSegment_records fit] at longer

theorem prefixed_parse_cut (fit : ∀ record ∈ records, RecordFits record) {left : List UInt8}
    (cut : left <+: records.flatMap Record.encode) {kept : List Record} (isPrefix : kept <+: records)
    (enough : bytesOf kept ≤ left.length) : kept <+: (parseSegment left).1 := by
  have longer := parseSegment_mono (List.prefix_of_prefix_length_le (encodes_of_prefixed isPrefix) cut enough)
  rwa [parseSegment_records fun record member => fit record (isPrefix.subset member)] at longer

/-! ## The log and its syncs -/

/-- The segments hold the records in `placed`, and each sync came behind a whole record. -/
structure Logged (max : Nat) (placed : List (Nat × Record)) (log : SyncedWal) : Prop where
  packed : Packed max placed log.wal.writer
  contents : ∀ segment, log.contents segment = (group placed segment).flatMap Record.encode
  marked : ∀ segment, ∃ kept, kept <+: group placed segment ∧ log.synced segment = bytesOf kept

theorem logged_new (max : Nat) : Logged max [] (SyncedWal.new max) where
  packed := packed_new ∅ max
  contents _ := rfl
  marked _ := ⟨[], List.prefix_rfl, rfl⟩

section
variable {max : Nat} {placed : List (Nat × Record)} {log : SyncedWal}

theorem Logged.length_contents (logged : Logged max placed log) (segment : Nat) :
    (log.contents segment).length = bytesOf (group placed segment) := by rw [logged.contents, bytesOf]

theorem Logged.synced_le (logged : Logged max placed log) (segment : Nat) :
    log.synced segment ≤ (log.contents segment).length := by
  obtain ⟨kept, isPrefix, synced⟩ := logged.marked segment
  rw [synced, logged.length_contents]
  exact bytesOf_mono isPrefix

theorem Logged.synced_zero (logged : Logged max placed log) : log.synced 0 = (log.contents 0).length := by
  -- the segments are numbered from one, so nothing is in segment zero
  have empty : group placed 0 = [] := by
    apply group_eq_nil
    intro entry member
    exact Nat.ne_of_gt (logged.packed.numbered entry member).1
  have synced := logged.synced_le 0
  rw [logged.contents, empty] at synced ⊢
  exact Nat.le_zero.mp synced

theorem contents_advanced (log : SyncedWal) (record : Record) (segment : Nat) :
    SyncedWal.contents { log with wal := log.wal.advanced record } segment =
      log.contents segment ++ if segment = log.wal.writer.target then record.encode else [] :=
  contents_extended log.wal record.encode segment

theorem logged_append (logged : Logged max placed log) (record : Record) :
    Logged max (placed ++ [(log.wal.writer.target, record)]) { log with wal := log.wal.advanced record } where
  packed := packed_step logged.packed record
  contents segment := by
    rw [contents_advanced, logged.contents, group_snoc, List.flatMap_append]
    split <;> simp
  marked segment := by
    obtain ⟨kept, isPrefix, synced⟩ := logged.marked segment
    refine ⟨kept, ?_, synced⟩
    rw [group_snoc]
    exact isPrefix.trans (List.prefix_append _ _)

theorem logged_sync (logged : Logged max placed log) (granted : Bool) :
    Logged max placed (log.step (.sync granted)).2 := by
  obtain ⟨file, _, marks⟩ | ⟨nothing, _⟩ := log.step_sync_cases granted
  · rw [marks]
    refine ⟨logged.packed, logged.contents, ?_⟩
    intro segment
    by_cases same : segment = file
    · subst same
      refine ⟨group placed segment, List.prefix_rfl, ?_⟩
      rw [← logged.length_contents]
      exact Function.update_self _ _ _
    · obtain ⟨kept, isPrefix, synced⟩ := logged.marked segment
      exact ⟨kept, isPrefix, (Function.update_of_ne same _ _).trans synced⟩
  · rwa [nothing]

theorem Logged.target_cases (logged : Logged max placed log) :
    (log.wal.writer.needsRotation = true ∧ log.wal.writer.target = log.wal.writer.segment + 1) ∨
      (log.wal.writer.needsRotation = false ∧ log.wal.writer.target = log.wal.writer.segment) := by
  cases due : log.wal.writer.needsRotation with
  | true => exact .inl ⟨rfl, by simp [WalWriter.target, due]⟩
  | false =>
    have started := (room_of_open logged.packed due).1
    refine .inr ⟨rfl, ?_⟩
    rw [WalWriter.target, due, logged.packed.file, if_neg (Nat.ne_of_gt started)]
    rfl

/-- More records only come behind, in the open segment or later ones, and nothing is unsynced. -/
structure Continues (max : Nat) (placed : List (Nat × Record)) (log : SyncedWal) (records : List Record)
    (more : List (Nat × Record)) (next : SyncedWal) : Prop where
  logged : Logged max (placed ++ more) next
  added : more.map Prod.snd = records
  later : ∀ entry ∈ more, log.wal.writer.segment ≤ entry.1
  segment : log.wal.writer.segment ≤ next.wal.writer.segment
  synced : ∀ segment, log.synced segment ≤ next.synced segment

theorem Logged.segment_le_target (logged : Logged max placed log) :
    log.wal.writer.segment ≤ log.wal.writer.target := by
  obtain ⟨_, target⟩ | ⟨_, target⟩ := logged.target_cases <;> omega

theorem advanced_segment (logged : Logged max placed log) (record : Record) :
    (log.wal.advanced record).writer.segment = log.wal.writer.target := by
  obtain ⟨due, target⟩ | ⟨open_, target⟩ := logged.target_cases
  · rw [advanced_rotated due, target]
  · rw [advanced_stayed open_, target]

theorem synced_le_step (logged : Logged max placed log) (granted : Bool) (segment : Nat) :
    log.synced segment ≤ (log.step (.sync granted)).2.synced segment := by
  obtain ⟨file, _, marks⟩ | ⟨nothing, _⟩ := log.step_sync_cases granted
  · rw [marks]
    by_cases same : segment = file
    · subst same
      simpa using logged.synced_le segment
    · simp [Function.update_of_ne same]
  · rw [nothing]

theorem continues_run (logged : Logged max placed log) {actions : List WalAction} (ok : log.AppendsOk actions) :
    ∃ more, Continues max placed log (appendedRecords actions) more (log.after actions) := by
  induction actions generalizing placed log with
  | nil => exact ⟨[], by rwa [List.append_nil], rfl, by simp, le_refl _, fun _ => le_refl _⟩
  | cons action actions inductionHypothesis =>
    cases action with
    | append call =>
      obtain ⟨appended, restOk⟩ := ok
      rw [SyncedWal.step_append_ok appended] at restOk
      obtain ⟨more, rest⟩ := inductionHypothesis (logged_append logged call.record) restOk
      have opened := advanced_segment logged call.record
      have bound := logged.segment_le_target
      have laterSegments := rest.later
      have lastSegment := rest.segment
      simp only [opened] at laterSegments lastSegment
      have ran : log.after (.append call :: actions) =
          SyncedWal.after { log with wal := log.wal.advanced call.record } actions := by
        rw [SyncedWal.after, List.foldl_cons, SyncedWal.step_append_ok appended, SyncedWal.after]
      rw [ran]
      refine ⟨(log.wal.writer.target, call.record) :: more, ?_, ?_, ?_, bound.trans lastSegment, rest.synced⟩
      · rw [List.append_cons]
        exact rest.logged
      · rw [List.map_cons, rest.added]
        rfl
      · intro entry member
        obtain rfl | inMore := List.mem_cons.mp member
        · exact bound
        · exact bound.trans (laterSegments entry inMore)
    | sync granted =>
      obtain ⟨more, rest⟩ := inductionHypothesis (logged_sync logged granted) ok
      have sameWriter : (log.step (.sync granted)).2.wal.writer.segment = log.wal.writer.segment := by
        rw [log.step_sync_wal]
      refine ⟨more, rest.logged, rest.added, ?_, ?_, ?_⟩
      · rw [← sameWriter]
        exact rest.later
      · rw [← sameWriter]
        exact rest.segment
      · intro segment
        exact (synced_le_step logged granted segment).trans (rest.synced segment)

/-! ## Segments that were left -/

/-- All segments before the open one are synced to their ends. -/
def SettledBehind (log : SyncedWal) : Prop :=
  ∀ segment < log.wal.writer.segment, log.synced segment = (log.contents segment).length

theorem settled_iff (logged : Logged max placed log) :
    log.Settled ↔ log.synced log.wal.writer.segment = (log.contents log.wal.writer.segment).length := by
  rw [SyncedWal.Settled, logged.packed.file]
  by_cases unstarted : log.wal.writer.segment = 0
  · simp [unstarted, logged.synced_zero]
  · simp [unstarted]

/-- An append that rotates leaves a segment as it is synced then; any other action leaves
    none. -/
theorem settledBehind_append_iff (logged : Logged max placed log) (record : Record) :
    SettledBehind { log with wal := log.wal.advanced record } ↔
      SettledBehind log ∧ (log.wal.writer.needsRotation = true → log.Settled) := by
  have contents : ∀ segment, segment ≠ log.wal.writer.target →
      SyncedWal.contents { log with wal := log.wal.advanced record } segment = log.contents segment := by
    intro segment different
    rw [contents_advanced, if_neg different, List.append_nil]
  rw [settled_iff logged]
  simp only [SettledBehind, advanced_segment logged]
  obtain ⟨due, target⟩ | ⟨open_, target⟩ := logged.target_cases
  · simp only [due, true_implies]
    rw [target] at contents ⊢
    constructor
    · intro behind
      refine ⟨fun segment earlier => ?_, ?_⟩
      · rw [← contents segment (by omega)]
        exact behind segment (by omega)
      · rw [← contents _ (by omega)]
        exact behind _ (by omega)
    · rintro ⟨behind, last⟩ segment earlier
      rw [contents segment (by omega)]
      obtain less | rfl := Nat.lt_succ_iff_lt_or_eq.mp earlier
      · exact behind segment less
      · exact last
  · rw [target] at contents ⊢
    simp only [open_, Bool.false_eq_true, false_implies, and_true]
    apply forall₂_congr
    intro segment earlier
    rw [contents segment (by omega)]

theorem settledBehind_sync_iff (logged : Logged max placed log) (granted : Bool) :
    SettledBehind (log.step (.sync granted)).2 ↔ SettledBehind log := by
  obtain ⟨file, isOpen, marks⟩ | ⟨nothing, _⟩ := log.step_sync_cases granted
  · rw [marks]
    have open_ : file = log.wal.writer.segment := by
      rw [logged.packed.file] at isOpen
      split at isOpen
      · cases isOpen
      · exact (Option.some.inj isOpen).symm
    apply forall₂_congr
    intro segment earlier
    change segment < log.wal.writer.segment at earlier
    have other : segment ≠ file := by omega
    simp only [Function.update_of_ne other]
    rfl
  · rw [nothing]

end

/-- Every append that starts a new segment finds the old one synced. -/
def RotatesSettled (log : SyncedWal) (actions : List WalAction) : Prop :=
  ∀ past call, past ++ [.append call] <+: actions →
    (log.after past).wal.writer.needsRotation = true → (log.after past).Settled

theorem rotatesSettled_snoc (log : SyncedWal) (past : List WalAction) (action : WalAction) :
    RotatesSettled log (past ++ [action]) ↔ RotatesSettled log past ∧
      ∀ call, action = .append call → (log.after past).wal.writer.needsRotation = true → (log.after past).Settled := by
  constructor
  · intro settled
    refine ⟨fun early call isPrefix => settled early call (isPrefix.trans (List.prefix_append _ _)), ?_⟩
    rintro call rfl
    exact settled past call List.prefix_rfl
  · rintro ⟨settled, last⟩ early call isPrefix
    obtain same | shorter := List.prefix_concat_iff.mp isPrefix
    · obtain ⟨rfl, equal⟩ := List.append_inj' same rfl
      exact last call (List.cons.inj equal).1.symm
    · exact settled early call shorter

theorem settledBehind_iff {max : Nat} {actions : List WalAction} (ok : (SyncedWal.new max).AppendsOk actions) :
    SettledBehind ((SyncedWal.new max).after actions) ↔ RotatesSettled (SyncedWal.new max) actions := by
  induction actions using List.reverseRecOn with
  | nil =>
    constructor
    · intro _ past call isPrefix
      simp at isPrefix
    · intro _ segment earlier
      exact absurd earlier (Nat.not_lt_zero _)
  | append_singleton actions action inductionHypothesis =>
    obtain ⟨pastOk, lastOk⟩ := SyncedWal.appendsOk_append.mp ok
    obtain ⟨placed, continued⟩ := continues_run (logged_new max) pastOk
    have logged := continued.logged
    rw [rotatesSettled_snoc, ← inductionHypothesis pastOk, SyncedWal.after_snoc]
    cases action with
    | append call =>
      rw [SyncedWal.step_append_ok lastOk.1, settledBehind_append_iff logged]
      simp
    | sync granted =>
      rw [settledBehind_sync_iff logged]
      simp

/-! ## Reading the log after a crash -/

/-- The records that can be read from what is left of the first `count` segments. -/
def recovered (left : Nat → List UInt8) (count : Nat) : List Record :=
  (List.range' 1 count).flatMap fun segment => (parseSegment (left segment)).1

/-- A crash that takes all that was not synced. -/
def onlySynced (log : SyncedWal) (segment : Nat) : List UInt8 := (log.contents segment).take (log.synced segment)

section
variable {max : Nat} {placed : List (Nat × Record)} {log : SyncedWal}

theorem leftBy_onlySynced (logged : Logged max placed log) : log.LeftBy (onlySynced log) := by
  intro segment
  refine ⟨List.take_prefix _ _, ?_⟩
  rw [onlySynced, List.length_take, Nat.min_eq_left (logged.synced_le segment)]

theorem fits_of_group (fit : ∀ entry ∈ placed, RecordFits entry.2) {segment : Nat} :
    ∀ record ∈ group placed segment, RecordFits record :=
  fun _ member => fit _ (mem_group.mp member)

theorem synced_of_recovered (logged : Logged max placed log) (fit : ∀ entry ∈ placed, RecordFits entry.2)
    (survive : placed.map Prod.snd <+: recovered (onlySynced log) log.wal.writer.segment) :
    ∀ segment, 1 ≤ segment → segment ≤ log.wal.writer.segment →
      log.synced segment = (log.contents segment).length := by
  choose kept isPrefix synced using logged.marked
  have read : ∀ segment, (parseSegment (onlySynced log segment)).1 = kept segment := by
    intro segment
    have encoded := List.prefix_iff_eq_take.mp (encodes_of_prefixed (isPrefix segment))
    rw [onlySynced, synced, logged.contents, bytesOf, ← encoded,
      parseSegment_records fun record member => fits_of_group fit record ((isPrefix segment).subset member)]
  rw [← groups_numbered logged.packed.ordered logged.packed.numbered, recovered] at survive
  simp only [read] at survive
  intro segment positive bound
  rw [synced, logged.length_contents,
    flatMap_prefixed_eq (fun segment _ => isPrefix segment) survive.length_le segment (by simp; omega)]

end

theorem recovers_of_settled {max : Nat} {placed more : List (Nat × Record)} {log final : SyncedWal}
    {records : List Record} (logged : Logged max placed log)
    (continued : Continues max placed log records more final)
    (fit : ∀ entry ∈ placed ++ more, RecordFits entry.2) (behind : SettledBehind log) (settled : log.Settled)
    {left : Nat → List UInt8} (leftBy : final.LeftBy left) :
    placed.map Prod.snd <+: recovered left final.wal.writer.segment := by
  have synced := (settled_iff logged).mp settled
  have later := continued.segment
  have cut : ∀ segment, left segment <+: (group (placed ++ more) segment).flatMap Record.encode := by
    intro segment
    rw [← continued.logged.contents]
    exact (leftBy segment).1
  have enough : ∀ segment ≤ log.wal.writer.segment, bytesOf (group placed segment) ≤ (left segment).length := by
    intro segment bound
    have marked : log.synced segment = bytesOf (group placed segment) := by
      rw [← logged.length_contents]
      obtain less | rfl := Nat.lt_or_eq_of_le bound
      · exact behind segment less
      · exact synced
    rw [← marked]
    exact (continued.synced segment).trans (leftBy segment).2
  have front : ∀ segment ≤ log.wal.writer.segment, group placed segment <+: (parseSegment (left segment)).1 := by
    intro segment bound
    apply prefixed_parse_cut (fits_of_group fit) (cut segment) _ (enough segment bound)
    rw [group_append]
    exact List.prefix_append _ _
  -- the segments before the open one got no more records, so they are read as they were
  have exactly : ∀ segment < log.wal.writer.segment, (parseSegment (left segment)).1 = group placed segment := by
    intro segment earlier
    have read := parse_cut_prefixed (fits_of_group fit) (cut segment)
    have noMore : group more segment = [] := by
      apply group_eq_nil
      intro entry member
      exact (earlier.trans_le (continued.later entry member)).ne'
    rw [group_append, noMore, List.append_nil] at read
    exact read.eq_of_length_le (front segment earlier.le).length_le
  rw [← groups_numbered logged.packed.ordered logged.packed.numbered, recovered]
  exact flatMap_range'_prefixed later exactly (front _ le_rfl)

theorem fit_of_added {placed : List (Nat × Record)} {records : List Record} (added : placed.map Prod.snd = records)
    (fit : ∀ record ∈ records, RecordFits record) : ∀ entry ∈ placed, RecordFits entry.2 := by
  intro entry member
  apply fit
  rw [← added]
  exact List.mem_map_of_mem member

theorem settled_of_granted (log : SyncedWal) : (log.step (.sync true)).2.Settled := by
  intro file isOpen
  rw [log.step_sync_wal] at isOpen
  simp [SyncedWal.step, SyncedWal.sync, isOpen, SyncedWal.contents]

/-- After a sync that the system grants, the records before it can be read whatever is lost in
    a crash, then or at any later time, exactly if each rotation before it found the segment
    that it left synced. -/
theorem synced_records_survive_iff (max : Nat) (past : List WalAction) (ok : (SyncedWal.new max).AppendsOk past)
    (fit : ∀ record ∈ appendedRecords past, RecordFits record) :
    (∀ late, (SyncedWal.new max).AppendsOk (past ++ .sync true :: late) →
        (∀ record ∈ appendedRecords late, RecordFits record) →
        ∀ left, ((SyncedWal.new max).after (past ++ .sync true :: late)).LeftBy left →
          appendedRecords past <+:
            recovered left ((SyncedWal.new max).after (past ++ .sync true :: late)).wal.writer.segment) ↔
      RotatesSettled (SyncedWal.new max) past := by
  obtain ⟨placed, continued⟩ := continues_run (logged_new max) ok
  have pastLogged := continued.logged
  have added := continued.added
  rw [List.nil_append] at pastLogged
  have logged := logged_sync pastLogged true
  have placedFit := fit_of_added added fit
  rw [← settledBehind_iff ok, ← settledBehind_sync_iff pastLogged true, ← added]
  set log := ((SyncedWal.new max).after past).step (.sync true) |>.2 with synced
  constructor
  · intro survive
    have none := survive [] (SyncedWal.appendsOk_append.mpr ⟨ok, trivial⟩) (by simp [appendedRecords])
    rw [SyncedWal.after_snoc, ← synced] at none
    have all := synced_of_recovered logged placedFit (none _ (leftBy_onlySynced logged))
    intro segment earlier
    by_cases first : segment = 0
    · rw [first, logged.synced_zero]
    · exact all segment (Nat.pos_of_ne_zero first) earlier.le
  · intro behind late lateOk lateFit left leftBy
    rw [List.append_cons, SyncedWal.appendsOk_append] at lateOk
    rw [List.append_cons, SyncedWal.after_append] at leftBy ⊢
    rw [SyncedWal.after_snoc, ← synced] at lateOk leftBy ⊢
    obtain ⟨more, rest⟩ := continues_run logged lateOk.2
    have moreFit := fit_of_added rest.added lateFit
    apply recovers_of_settled logged rest _ behind (settled_of_granted _) leftBy
    intro entry member
    obtain inPlaced | inMore := List.mem_append.mp member
    · exact placedFit entry inPlaced
    · exact moreFit entry inMore

/-- With segments of one byte each append leaves a segment; a sync before it and one behind it
    keep both records. -/
theorem synced_records_survive_each_segment :
    RotatesSettled (SyncedWal.new 1) [.append (.plain ⟨7, [1, 2]⟩), .sync true, .append (.plain ⟨8, []⟩)] ∧
      ∀ left, ((SyncedWal.new 1).after
          [.append (.plain ⟨7, [1, 2]⟩), .sync true, .append (.plain ⟨8, []⟩), .sync true]).LeftBy left →
        [⟨7, [1, 2]⟩, ⟨8, []⟩] <+: recovered left 2 := by
  have ok : (SyncedWal.new 1).AppendsOk [.append (.plain ⟨7, [1, 2]⟩), .sync true, .append (.plain ⟨8, []⟩)] :=
    ⟨rfl, rfl, trivial⟩
  have behind : SettledBehind ((SyncedWal.new 1).after
      [.append (.plain ⟨7, [1, 2]⟩), .sync true, .append (.plain ⟨8, []⟩)]) := by
    change ∀ segment < 2, _
    decide
  have settled := (settledBehind_iff ok).mp behind
  have fit : ∀ record ∈ appendedRecords [.append (.plain ⟨7, [1, 2]⟩), .sync true, .append (.plain ⟨8, []⟩)],
      RecordFits record := by
    simp [appendedRecords, Call.plain, RecordFits]
  exact ⟨settled, (synced_records_survive_iff 1 _ ok fit).mpr settled [] ⟨rfl, rfl, trivial⟩
    (by simp [appendedRecords])⟩

end Nendi.Verified
