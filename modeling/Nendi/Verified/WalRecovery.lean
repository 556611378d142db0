import Mathlib.Data.List.Induction
import Nendi.Core.Wal
import Nendi.Lib.Framing
import Nendi.Lib.Groups

/-! # The log can be read back

The repository has no reader for the log; `parseSegment` is one for the
documented record format.  From an empty directory, and as long as appends
succeed, the segments read in the order of their numbers give back the appended
records: `Packed` says how the writer distributes records over segments, and
`contents_after` that the files hold exactly what was distributed to them. -/

namespace Nendi.Verified

open Nendi.Lib Nendi.Shared Nendi.Core

/-! ## The documented record format -/

/-- What the length in front of a record counts: `[8 bytes LSN][payload...]`. -/
def recordOfBody (body : List UInt8) : Option Record :=
  if body.length < 8 then none
  else some { lsn := UInt64.ofBeBytes (body.take 8), payload := body.drop 8 }

/-- The records at the start of a segment, and the bytes that are not a record. -/
def parseSegment : List UInt8 → List Record × List UInt8 := parseFrames recordOfBody

/-- The length fits the four bytes in front of the record. -/
def RecordFits (record : Record) : Prop := 8 + record.payload.length < 2 ^ 32

theorem recordOfBody_body (record : Record) :
    recordOfBody (record.lsn.toBeBytes ++ record.payload) = some record := by
  have length := UInt64.toBeBytes_length record.lsn
  have lsn : (record.lsn.toBeBytes ++ record.payload).take 8 = record.lsn.toBeBytes := by
    rw [← length, List.take_left]
  have payload : (record.lsn.toBeBytes ++ record.payload).drop 8 = record.payload := by
    rw [← length, List.drop_left]
  rw [recordOfBody, if_neg (by simp), lsn, payload, UInt64.ofBeBytes_toBeBytes]

theorem encode_eq_frame {record : Record} (fits : RecordFits record) :
    record.encode = frame (record.lsn.toBeBytes ++ record.payload) := by
  have length : (UInt32.ofNat (8 + record.payload.length)).toNat = 8 + record.payload.length :=
    UInt32.toNat_ofNat_of_lt' fits
  rw [Record.encode, frame, UInt32.toBeBytes, length, List.length_append, UInt64.toBeBytes_length]

theorem parseSegment_snoc {data : List UInt8} {record : Record} (clean : (parseSegment data).2 = [])
    (fits : RecordFits record) :
    parseSegment (data ++ record.encode) = ((parseSegment data).1 ++ [record], []) := by
  rw [encode_eq_frame fits]
  exact parseFrames_snoc clean (by simpa [RecordFits] using fits) (recordOfBody_body record)

theorem parseSegment_records {records : List Record} (fit : ∀ record ∈ records, RecordFits record) :
    parseSegment (records.flatMap Record.encode) = (records, []) := by
  induction records using List.reverseRecOn with
  | nil => exact parseFrames_nil
  | append_singleton records record inductionHypothesis =>
    have earlier := inductionHypothesis fun other member => fit other (List.mem_append_left _ member)
    have last := fit record (List.mem_append_right _ (List.mem_singleton.mpr rfl))
    rw [List.flatMap_append, List.flatMap_singleton, parseSegment_snoc (by rw [earlier]) last, earlier]

/-! ## What the files hold -/

theorem contents_extended (wal : Wal) (bytes : List UInt8) (segment : Nat) :
    (wal.extended bytes).dir.contents (segmentName segment) =
      wal.dir.contents (segmentName segment) ++ if segment = wal.writer.target then bytes else [] := by
  have prepared : ∀ name, wal.prepared.dir.contents name = wal.dir.contents name := by
    intro name
    unfold Wal.prepared
    split
    · exact Directory.contents_create _ _ _
    · rfl
  by_cases same : segment = wal.writer.target
  · rw [if_pos same, same, Wal.extended, Directory.contents_extend, prepared]
  · have different : segmentName segment ≠ segmentName wal.writer.target := fun equal =>
      same (segmentName_injective equal)
    rw [if_neg same, Wal.extended, Directory.contents_extend_of_ne _ different, prepared,
      List.append_nil]

theorem mem_extended (wal : Wal) (bytes : List UInt8) (name : String) :
    name ∈ (wal.extended bytes).dir ↔ name = segmentName wal.writer.target ∨ name ∈ wal.dir := by
  rw [Wal.extended, Directory.mem_extend]
  unfold Wal.prepared WalWriter.target
  cases wal.writer.needsRotation with
  | false => exact Iff.rfl
  | true =>
    simp only [if_true, Directory.mem_create, or_self_left]

theorem mem_advanced (wal : Wal) (record : Record) (name : String) :
    name ∈ (wal.advanced record).dir ↔ name = segmentName wal.writer.target ∨ name ∈ wal.dir :=
  mem_extended wal record.encode name

theorem contents_after {wal : Wal} {calls : List Call} (allOk : wal.AllOk calls) (segment : Nat) :
    (wal.after calls).dir.contents (segmentName segment) =
      wal.dir.contents (segmentName segment) ++ (group (wal.stored calls) segment).flatMap Record.encode := by
  induction calls generalizing wal with
  | nil => simp [Wal.after, Wal.stored]
  | cons call calls inductionHypothesis =>
    obtain ⟨ok, restOk⟩ := allOk.of_cons
    rw [Wal.after_of_ok ok, Wal.stored_of_ok ok, inductionHypothesis restOk]
    change (wal.extended call.record.encode).dir.contents _ ++ _ = _
    rw [contents_extended, List.append_assoc]
    by_cases same : segment = wal.writer.target
    · subst same
      rw [if_pos rfl, group_cons_self (wal.writer.target, call.record), List.flatMap_cons]
    · rw [if_neg same, group_cons_of_ne (fun equal => same equal.symm), List.nil_append]

theorem mem_after {wal : Wal} {calls : List Call} (allOk : wal.AllOk calls) (name : String) :
    name ∈ (wal.after calls).dir ↔
      name ∈ wal.dir ∨ ∃ entry ∈ wal.stored calls, name = segmentName entry.1 := by
  induction calls generalizing wal with
  | nil => simp [Wal.after, Wal.stored]
  | cons call calls inductionHypothesis =>
    obtain ⟨ok, restOk⟩ := allOk.of_cons
    rw [Wal.after_of_ok ok, Wal.stored_of_ok ok, inductionHypothesis restOk, mem_advanced]
    simp only [List.mem_cons, exists_eq_or_imp]
    rw [or_assoc, or_left_comm]

/-! ## How records are distributed -/

def bytesOf (records : List Record) : Nat := (records.flatMap Record.encode).length

theorem bytesOf_snoc (records : List Record) (record : Record) :
    bytesOf (records ++ [record]) = bytesOf records + record.size := by
  simp [bytesOf]

/-- A writer that has stored `placed` since it was created.  Segments are numbered
    from one without gaps, are left only when full, and were not yet full when
    their last record came. -/
structure Packed (max : Nat) (placed : List (Nat × Record)) (writer : WalWriter) : Prop where
  file : writer.currentFile = if writer.segment = 0 then none else some writer.segment
  limit : writer.maxSegmentBytes = max
  bytes : writer.segmentBytes = bytesOf (group placed writer.segment)
  ordered : placed.Pairwise fun earlier later => earlier.1 ≤ later.1
  numbered : ∀ entry ∈ placed, 1 ≤ entry.1 ∧ entry.1 ≤ writer.segment
  used : ∀ segment, 1 ≤ segment → segment ≤ writer.segment → group placed segment ≠ []
  full : ∀ segment, 1 ≤ segment → segment < writer.segment → max ≤ bytesOf (group placed segment)
  tight : ∀ segment, 1 < (group placed segment).length →
    bytesOf (group placed segment).dropLast < max

theorem packed_new (dir : Directory) (max : Nat) : Packed max [] (Wal.new dir max).writer where
  file := rfl
  limit := rfl
  bytes := rfl
  ordered := .nil
  numbered := by simp
  used segment positive bound := by
    change segment ≤ 0 at bound
    omega
  full segment positive bound := absurd bound (Nat.not_lt_zero _)
  tight := by simp

theorem group_snoc (placed : List (Nat × Record)) (target : Nat) (record : Record) (segment : Nat) :
    group (placed ++ [(target, record)]) segment =
      group placed segment ++ if segment = target then [record] else [] := by
  rw [group_append]
  congr 1
  by_cases same : segment = target
  · subst same
    rw [if_pos rfl]
    exact group_cons_self (segment, record) []
  · rw [if_neg same]
    exact group_cons_of_ne (fun equal => same equal.symm) []

theorem ordered_snoc {placed : List (Nat × Record)} {target : Nat}
    (ordered : placed.Pairwise fun earlier later => earlier.1 ≤ later.1)
    (bounded : ∀ entry ∈ placed, entry.1 ≤ target) (record : Record) :
    (placed ++ [(target, record)]).Pairwise fun earlier later => earlier.1 ≤ later.1 := by
  rw [List.pairwise_append]
  refine ⟨ordered, List.pairwise_singleton _ _, ?_⟩
  intro entry member last isLast
  rw [List.mem_singleton.mp isLast]
  exact bounded entry member

theorem numbered_snoc {placed : List (Nat × Record)} {bound target : Nat}
    (numbered : ∀ entry ∈ placed, 1 ≤ entry.1 ∧ entry.1 ≤ bound) (le : bound ≤ target)
    (positive : 1 ≤ target) (record : Record) :
    ∀ entry ∈ placed ++ [(target, record)], 1 ≤ entry.1 ∧ entry.1 ≤ target := by
  intro entry member
  cases List.mem_append.mp member with
  | inl earlier => exact ⟨(numbered entry earlier).1, (numbered entry earlier).2.trans le⟩
  | inr last =>
    rw [List.mem_singleton.mp last]
    exact ⟨positive, le_refl _⟩

section Step

variable {max : Nat} {placed : List (Nat × Record)} {wal : Wal}

theorem full_of_due (packed : Packed max placed wal.writer) (due : wal.writer.needsRotation = true)
    (started : 1 ≤ wal.writer.segment) : max ≤ bytesOf (group placed wal.writer.segment) := by
  have file : wal.writer.currentFile = some wal.writer.segment := by
    rw [packed.file, if_neg (by omega)]
  simp only [WalWriter.needsRotation, file, Option.isNone_some, Bool.false_or, decide_eq_true_eq] at due
  rw [← packed.bytes, ← packed.limit]
  exact due

theorem room_of_open (packed : Packed max placed wal.writer) (open_ : wal.writer.needsRotation = false) :
    1 ≤ wal.writer.segment ∧ wal.writer.segmentBytes < max := by
  simp only [WalWriter.needsRotation, packed.file, packed.limit, Bool.or_eq_false_iff,
    decide_eq_false_iff_not] at open_
  obtain ⟨isSome, room⟩ := open_
  refine ⟨Nat.pos_of_ne_zero fun unstarted => ?_, Nat.not_le.mp room⟩
  rw [if_pos unstarted] at isSome
  cases isSome

theorem advanced_rotated (due : wal.writer.needsRotation = true) (record : Record) :
    (wal.advanced record).writer =
      { wal.writer with
        segment := wal.writer.segment + 1
        currentFile := some (wal.writer.segment + 1)
        segmentBytes := record.size
        lastLsn := record.lsn } := by
  simp [Wal.advanced, Wal.extended, Wal.prepared, due]

theorem advanced_stayed (open_ : wal.writer.needsRotation = false) (record : Record) :
    (wal.advanced record).writer =
      { wal.writer with
        segmentBytes := wal.writer.segmentBytes + record.size
        lastLsn := record.lsn } := by
  simp [Wal.advanced, Wal.extended, Wal.prepared, open_]

theorem group_opened (packed : Packed max placed wal.writer) (record : Record) (segment : Nat) :
    group (placed ++ [(wal.writer.segment + 1, record)]) segment =
      if segment = wal.writer.segment + 1 then [record] else group placed segment := by
  have fresh : group placed (wal.writer.segment + 1) = [] := by
    apply group_eq_nil
    intro entry member
    have bound := (packed.numbered entry member).2
    omega
  rw [group_snoc]
  split
  next same => rw [same, fresh, List.nil_append]
  next different => rw [List.append_nil]

theorem packed_rotate (packed : Packed max placed wal.writer) (due : wal.writer.needsRotation = true)
    (record : Record) :
    Packed max (placed ++ [(wal.writer.target, record)]) (wal.advanced record).writer := by
  have target : wal.writer.target = wal.writer.segment + 1 := by simp [WalWriter.target, due]
  have grown := group_opened packed record
  rw [target, advanced_rotated due]
  constructor
  case file => rfl
  case limit => exact packed.limit
  case bytes =>
    rw [grown, if_pos rfl]
    simp [bytesOf]
  case ordered =>
    exact ordered_snoc packed.ordered (fun entry member =>
      (packed.numbered entry member).2.trans (Nat.le_succ _)) record
  case numbered => exact numbered_snoc packed.numbered (Nat.le_succ _) (Nat.succ_pos _) record
  case used =>
    intro segment positive bound
    rw [grown]
    split
    next => exact List.cons_ne_nil _ _
    next different =>
      change segment ≤ wal.writer.segment + 1 at bound
      exact packed.used segment positive (by omega)
  case full =>
    intro segment positive bound
    change segment < wal.writer.segment + 1 at bound
    rw [grown, if_neg (by omega)]
    obtain earlier | rfl := Nat.lt_succ_iff_lt_or_eq.mp bound
    · exact packed.full segment positive earlier
    · exact full_of_due packed due positive
  case tight =>
    intro segment several
    rw [grown] at several ⊢
    split at several
    next => simp at several
    next different =>
      rw [if_neg different]
      exact packed.tight segment several

theorem packed_stay (packed : Packed max placed wal.writer) (open_ : wal.writer.needsRotation = false)
    (record : Record) :
    Packed max (placed ++ [(wal.writer.target, record)]) (wal.advanced record).writer := by
  obtain ⟨started, room⟩ := room_of_open packed open_
  have target : wal.writer.target = wal.writer.segment := by
    rw [WalWriter.target, open_, packed.file, if_neg (Nat.ne_of_gt started)]
    rfl
  rw [target, advanced_stayed open_]
  constructor
  case file => exact packed.file
  case limit => exact packed.limit
  case bytes =>
    rw [group_snoc, if_pos rfl, bytesOf_snoc, ← packed.bytes]
  case ordered =>
    exact ordered_snoc packed.ordered (fun entry member => (packed.numbered entry member).2) record
  case numbered => exact numbered_snoc packed.numbered (le_refl _) started record
  case used =>
    intro segment positive bound
    rw [group_snoc]
    exact List.append_ne_nil_of_left_ne_nil (packed.used segment positive bound) _
  case full =>
    intro segment positive bound
    change segment < wal.writer.segment at bound
    rw [group_snoc, if_neg (Nat.ne_of_lt bound), List.append_nil]
    exact packed.full segment positive bound
  case tight =>
    intro segment several
    rw [group_snoc] at several ⊢
    split at several
    next same =>
      -- what stands before the new record is all the segment held so far
      rw [if_pos same, List.dropLast_concat, same, ← packed.bytes]
      exact room
    next different =>
      rw [List.append_nil] at several
      rw [if_neg different, List.append_nil]
      exact packed.tight segment several

theorem packed_step (packed : Packed max placed wal.writer) (record : Record) :
    Packed max (placed ++ [(wal.writer.target, record)]) (wal.advanced record).writer := by
  cases due : wal.writer.needsRotation with
  | true => exact packed_rotate packed due record
  | false => exact packed_stay packed due record

end Step

/-- The invariant over a run: what was placed before, then what the run stores. -/
theorem packed_run {max : Nat} {placed : List (Nat × Record)} {wal : Wal} {calls : List Call}
    (packed : Packed max placed wal.writer) (allOk : wal.AllOk calls) :
    Packed max (placed ++ wal.stored calls) (wal.after calls).writer := by
  induction calls generalizing wal placed with
  | nil => simpa [Wal.stored, Wal.after] using packed
  | cons call calls inductionHypothesis =>
    obtain ⟨ok, restOk⟩ := allOk.of_cons
    rw [Wal.stored_of_ok ok, Wal.after_of_ok ok]
    have rest := inductionHypothesis (packed_step packed call.record) restOk
    rwa [List.append_assoc, List.singleton_append] at rest

/-! ## Recovery -/

/-- Reading segments `1` to `count` of `dir` in turn gives back `records`. -/
structure Recovers (dir : Directory) (max : Nat) (records : List Record) (count : Nat) : Prop where
  files : ∀ name, name ∈ dir ↔ ∃ segment, 1 ≤ segment ∧ segment ≤ count ∧ name = segmentName segment
  replay : (List.range' 1 count).flatMap
    (fun segment => (parseSegment (dir.contents (segmentName segment))).1) = records
  -- every segment is made of whole records
  whole : ∀ segment, (parseSegment (dir.contents (segmentName segment))).2 = []
  full : ∀ segment, 1 ≤ segment → segment < count → max ≤ (dir.contents (segmentName segment)).length
  -- before the last of several records there are fewer than `max` bytes
  tight : ∀ segment, 1 < (parseSegment (dir.contents (segmentName segment))).1.length →
    bytesOf (parseSegment (dir.contents (segmentName segment))).1.dropLast < max

theorem recovers_of_packed {max : Nat} {placed : List (Nat × Record)} {dir : Directory}
    {writer : WalWriter} (packed : Packed max placed writer)
    (fit : ∀ entry ∈ placed, RecordFits entry.2)
    (files : ∀ name, name ∈ dir ↔ ∃ entry ∈ placed, name = segmentName entry.1)
    (contents : ∀ segment, dir.contents (segmentName segment) =
      (group placed segment).flatMap Record.encode) :
    Recovers dir max (placed.map Prod.snd) writer.segment := by
  have parsed : ∀ segment, parseSegment (dir.contents (segmentName segment)) =
      (group placed segment, []) := by
    intro segment
    rw [contents segment]
    apply parseSegment_records
    intro record member
    exact fit (segment, record) (mem_group.mp member)
  constructor
  case files =>
    intro name
    rw [files name]
    constructor
    · rintro ⟨entry, member, rfl⟩
      obtain ⟨positive, bound⟩ := packed.numbered entry member
      exact ⟨entry.1, positive, bound, rfl⟩
    · rintro ⟨segment, positive, bound, rfl⟩
      obtain ⟨record, inGroup⟩ := List.exists_mem_of_ne_nil _ (packed.used segment positive bound)
      exact ⟨(segment, record), mem_group.mp inGroup, rfl⟩
  case replay =>
    simp only [parsed]
    exact groups_numbered packed.ordered packed.numbered
  case whole =>
    intro segment
    rw [parsed]
  case full =>
    intro segment positive bound
    rw [contents segment]
    exact packed.full segment positive bound
  case tight =>
    intro segment several
    rw [parsed] at several ⊢
    exact packed.tight segment several

/-- One writer on an empty directory: whatever the segment size, once all appends
    have succeeded the log gives back what was appended. -/
theorem wal_recoverable (max : Nat) (calls : List Call) (allOk : (Wal.new ∅ max).AllOk calls)
    (fit : ∀ call ∈ calls, RecordFits call.record) :
    ∃ count, Recovers ((Wal.new ∅ max).after calls).dir max (calls.map Call.record) count := by
  have packed := packed_run (packed_new ∅ max) allOk
  rw [List.nil_append] at packed
  refine ⟨((Wal.new ∅ max).after calls).writer.segment, ?_⟩
  rw [← Wal.stored_records allOk]
  apply recovers_of_packed packed
  · intro entry member
    have inCalls : entry.2 ∈ calls.map Call.record := by
      rw [← Wal.stored_records allOk]
      exact List.mem_map_of_mem member
    obtain ⟨call, inList, same⟩ := List.mem_map.mp inCalls
    rw [← same]
    exact fit call inList
  · intro name
    rw [mem_after allOk]
    simp [Wal.new]
  · intro segment
    rw [contents_after allOk]
    simp [Wal.new]

/-- Segments of one byte: each record gets its own file. -/
theorem wal_recoverable_tiny_segments :
    ∃ count, Recovers ((Wal.new ∅ 1).after [.plain ⟨7, [1, 2]⟩, .plain ⟨8, []⟩]).dir 1
      [⟨7, [1, 2]⟩, ⟨8, []⟩] count :=
  wal_recoverable 1 [.plain ⟨7, [1, 2]⟩, .plain ⟨8, []⟩]
    ((Wal.new ∅ 1).plain_allOk [⟨7, [1, 2]⟩, ⟨8, []⟩])
    (by simp [RecordFits, Call.plain])

end Nendi.Verified
