import Mathlib.Data.List.AList
import Nendi.Lib.Cursor
import Nendi.Shared.Event

/-! # The write-ahead log

`WalWriter` of `core/src/storage/wal/batch.rs`.  The directory is a map from file
names to bytes and outlives the writer; what the operating system does to each
call is an input (`Io`), so that failures can strike at every point.  The state
survives an error, as it does behind `&mut self`.

The counters are natural numbers: `segment_bytes` never exceeds the length of the
open file, which fits an `i64`, and `segment` grows by one with each file. -/

namespace Nendi.Core

open Nendi.Lib Nendi.Shared

/-! ## Files -/

abbrev Directory := AList fun _ : String => List UInt8

namespace Directory

def contents (dir : Directory) (name : String) : List UInt8 := (dir.lookup name).getD []

/-- `OpenOptions::new().create(true).write(true).append(true).open(path)`. -/
def create (dir : Directory) (name : String) : Directory :=
  if name ∈ dir then dir else dir.insert name []

def extend (dir : Directory) (name : String) (bytes : List UInt8) : Directory :=
  dir.insert name (dir.contents name ++ bytes)

@[simp] theorem contents_empty (name : String) : contents ∅ name = [] := rfl

theorem mem_create (dir : Directory) (name other : String) :
    other ∈ dir.create name ↔ other = name ∨ other ∈ dir := by
  unfold create
  split
  next exists_ =>
    constructor
    · exact .inr
    · intro known
      obtain rfl | known := known
      · exact exists_
      · exact known
  next => exact AList.mem_insert dir

@[simp] theorem contents_create (dir : Directory) (name other : String) :
    (dir.create name).contents other = dir.contents other := by
  unfold create
  split
  next => rfl
  next absent =>
    by_cases same : other = name
    · subst same
      rw [contents, contents, AList.lookup_insert, AList.lookup_eq_none.mpr absent]
      rfl
    · rw [contents, contents, AList.lookup_insert_ne same]

theorem mem_extend (dir : Directory) (name other : String) (bytes : List UInt8) :
    other ∈ dir.extend name bytes ↔ other = name ∨ other ∈ dir :=
  AList.mem_insert dir

@[simp] theorem contents_extend (dir : Directory) (name : String) (bytes : List UInt8) :
    (dir.extend name bytes).contents name = dir.contents name ++ bytes := by
  rw [contents, extend, AList.lookup_insert]
  rfl

theorem contents_extend_of_ne (dir : Directory) {name other : String} (different : other ≠ name)
    (bytes : List UInt8) : (dir.extend name bytes).contents other = dir.contents other := by
  rw [contents, extend, AList.lookup_insert_ne different, contents]

theorem extend_extend (dir : Directory) (name : String) (first second : List UInt8) :
    (dir.extend name first).extend name second = dir.extend name (first ++ second) := by
  rw [extend, contents_extend, extend, AList.insert_insert, extend, List.append_assoc]

end Directory

/-- `format!("wal_{:08}.log", segment)`. -/
def segmentName (segment : Nat) : String :=
  String.ofList ("wal_".toList ++ (Nat.toDigits 10 segment).leftpad 8 '0' ++ ".log".toList)

theorem segmentName_injective : Function.Injective segmentName := by
  intro first second equal
  have lists := String.ofList_injective equal
  have digits := List.append_cancel_left (List.append_cancel_right lists)
  -- the padding is zeros, so the number can be read back from the padded digits
  rw [← ofDigitChars_leftpad 8 first, digits, ofDigitChars_leftpad 8 second]

/-! ## The writer -/

structure Record where
  lsn : Lsn
  payload : List UInt8
deriving DecidableEq, Repr

/-- What the operating system does during one `append`: whether a rotation gets
    its file opened, and after how many bytes each of the three writes fails, if
    it fails. -/
structure Io where
  opens : Bool
  lengthWrite : Option Nat
  lsnWrite : Option Nat
  payloadWrite : Option Nat

inductive IoError where
  | openFailed
  | writeFailed
deriving DecidableEq, Repr

structure WalWriter where
  -- the number of the segment whose file is open
  currentFile : Option Nat
  segment : Nat
  segmentBytes : Nat
  maxSegmentBytes : Nat
  lastLsn : Lsn

structure Wal where
  dir : Directory
  writer : WalWriter

/-- `WalWriter::new`: the directory keeps its files, the counters start afresh. -/
def Wal.new (dir : Directory) (maxSegmentBytes : Nat) : Wal where
  dir
  writer :=
    { currentFile := none, segment := 0, segmentBytes := 0, maxSegmentBytes, lastLsn := Lsn.zero }

abbrev WalM := EStateM (Fault IoError) Wal

/-- `file.write_all(buffer)?`, failing after the given number of bytes. -/
def writeAll (file : Nat) (buffer : List UInt8) : Option Nat → WalM Unit
  | none => modify fun wal => { wal with dir := wal.dir.extend (segmentName file) buffer }
  | some count => do
    modify fun wal => { wal with dir := wal.dir.extend (segmentName file) (buffer.take count) }
    throw (.err .writeFailed)

namespace WalWriter

def rotate (opens : Bool) : WalM Unit := do
  -- the number is taken even if the file cannot be opened
  modify fun wal => { wal with writer.segment := wal.writer.segment + 1 }
  let segment := (← get).writer.segment
  if opens then
    modify fun wal =>
      { wal with
        dir := wal.dir.create (segmentName segment)
        writer.currentFile := some segment
        writer.segmentBytes := 0 }
  else
    throw (.err .openFailed)

def needsRotation (writer : WalWriter) : Bool :=
  writer.currentFile.isNone || decide (writer.segmentBytes ≥ writer.maxSegmentBytes)

/-- `append` once a file is open. -/
def writeRecord (io : Io) (record : Record) : WalM Unit := do
  match (← get).writer.currentFile with
  | none => throw .panic
  | some file =>
    let recordLen := UInt32.ofNat (8 + record.payload.length)
    writeAll file recordLen.toBeBytes io.lengthWrite
    writeAll file record.lsn.toBeBytes io.lsnWrite
    writeAll file record.payload io.payloadWrite
    modify fun wal =>
      { wal with
        writer.segmentBytes := wal.writer.segmentBytes + (4 + 8 + record.payload.length)
        writer.lastLsn := record.lsn }

def append (io : Io) (record : Record) : WalM Unit := do
  if (← get).writer.needsRotation then
    rotate io.opens
  writeRecord io record

end WalWriter

/-! ## What an append can do -/

/-- The bytes of a record: the length of what follows, the LSN, the payload. -/
def Record.encode (record : Record) : List UInt8 :=
  (UInt32.ofNat (8 + record.payload.length)).toBeBytes ++ (record.lsn.toBeBytes ++ record.payload)

def Record.size (record : Record) : Nat := 4 + 8 + record.payload.length

@[simp] theorem Record.encode_length (record : Record) : record.encode.length = record.size := by
  simp [encode, size]
  omega

def WalWriter.target (writer : WalWriter) : Nat :=
  if writer.needsRotation then writer.segment + 1 else writer.currentFile.getD 0

def Wal.prepared (wal : Wal) : Wal :=
  if wal.writer.needsRotation then
    { dir := wal.dir.create (segmentName (wal.writer.segment + 1))
      writer :=
        { wal.writer with
          segment := wal.writer.segment + 1
          currentFile := some (wal.writer.segment + 1)
          segmentBytes := 0 } }
  else wal

def Wal.extended (wal : Wal) (bytes : List UInt8) : Wal :=
  { wal.prepared with dir := wal.prepared.dir.extend (segmentName wal.writer.target) bytes }

def Wal.advanced (wal : Wal) (record : Record) : Wal :=
  { wal.extended record.encode with
    writer.segmentBytes := wal.prepared.writer.segmentBytes + record.size
    writer.lastLsn := record.lsn }

def Io.WritesAll (io : Io) : Prop :=
  io.lengthWrite = none ∧ io.lsnWrite = none ∧ io.payloadWrite = none

def Io.Succeeds (io : Io) (writer : WalWriter) : Prop :=
  (writer.needsRotation = true → io.opens = true) ∧ io.WritesAll

/-- The three outcomes of an append. -/
inductive AppendEffect (io : Io) (wal : Wal) (record : Record) :
    EStateM.Result (Fault IoError) Wal Unit → Prop where
  | unopened (refused : ¬ io.Succeeds wal.writer) :
      AppendEffect io wal record (.error (.err .openFailed)
        { wal with writer.segment := wal.writer.segment + 1 })
  | torn (failed : ¬ io.Succeeds wal.writer) (bytes : List UInt8) (isPrefix : bytes <+: record.encode) :
      AppendEffect io wal record (.error (.err .writeFailed) (wal.extended bytes))
  | whole (succeeds : io.Succeeds wal.writer) :
      AppendEffect io wal record (.ok () (wal.advanced record))

theorem Wal.prepared_currentFile (wal : Wal) :
    wal.prepared.writer.currentFile = some wal.writer.target := by
  unfold prepared WalWriter.target
  cases due : wal.writer.needsRotation with
  | true => rfl
  | false =>
    cases file : wal.writer.currentFile with
    | none => simp [WalWriter.needsRotation, file] at due
    | some number => simp [file]

theorem writeRecord_effect (io : Io) (record : Record) {wal : Wal} {file : Nat}
    (isOpen : wal.writer.currentFile = some file) :
    (¬ io.WritesAll ∧ ∃ bytes, bytes <+: record.encode ∧ WalWriter.writeRecord io record wal =
      .error (.err .writeFailed) { wal with dir := wal.dir.extend (segmentName file) bytes }) ∨
    io.WritesAll ∧ WalWriter.writeRecord io record wal = .ok ()
      { dir := wal.dir.extend (segmentName file) record.encode
        writer :=
          { wal.writer with
            segmentBytes := wal.writer.segmentBytes + record.size
            lastLsn := record.lsn } } := by
  obtain ⟨opens, lengthWrite, lsnWrite, payloadWrite⟩ := io
  obtain ⟨dir, currentFile, segment, segmentBytes, maxSegmentBytes, lastLsn⟩ := wal
  cases isOpen
  -- the first write that fails decides how much of the record is in the file
  cases lengthWrite with
  | some count =>
    refine .inl ⟨by simp [Io.WritesAll], _, ?_, rfl⟩
    exact (List.take_prefix count _).trans (List.prefix_append _ _)
  | none =>
    cases lsnWrite with
    | some count =>
      refine .inl ⟨by simp [Io.WritesAll], (UInt32.ofNat (8 + record.payload.length)).toBeBytes ++
        record.lsn.toBeBytes.take count, ?_, ?_⟩
      · exact List.prefix_append_right_inj _ |>.mpr
          ((List.take_prefix count _).trans (List.prefix_append _ _))
      · rw [← Directory.extend_extend]
        rfl
    | none =>
      cases payloadWrite with
      | some count =>
        refine .inl ⟨by simp [Io.WritesAll], (UInt32.ofNat (8 + record.payload.length)).toBeBytes ++
          (record.lsn.toBeBytes ++ record.payload.take count), ?_, ?_⟩
        · exact List.prefix_append_right_inj _ |>.mpr
            (List.prefix_append_right_inj _ |>.mpr (List.take_prefix count _))
        · rw [← Directory.extend_extend, ← Directory.extend_extend]
          rfl
      | none =>
        refine .inr ⟨⟨rfl, rfl, rfl⟩, ?_⟩
        rw [Record.encode, ← Directory.extend_extend, ← Directory.extend_extend]
        rfl

theorem append_run (io : Io) (record : Record) (wal : Wal) :
    WalWriter.append io record wal =
      if wal.writer.needsRotation = true ∧ io.opens = false then
        .error (.err .openFailed) { wal with writer.segment := wal.writer.segment + 1 }
      else WalWriter.writeRecord io record wal.prepared := by
  have started : WalWriter.append io record wal =
      (if wal.writer.needsRotation = true then
        WalWriter.rotate io.opens >>= fun _ => WalWriter.writeRecord io record
      else WalWriter.writeRecord io record) wal := rfl
  rw [started, Wal.prepared]
  cases wal.writer.needsRotation with
  | true =>
    cases io.opens with
    | true => rfl
    | false => rfl
  | false => simp

theorem append_effect (io : Io) (record : Record) (wal : Wal) :
    AppendEffect io wal record (WalWriter.append io record wal) := by
  rw [append_run]
  split
  next unopened =>
    exact .unopened fun succeeds => by
      rw [succeeds.1 unopened.1] at unopened
      exact absurd unopened.2 (by decide)
  next isOpen =>
    have opens : wal.writer.needsRotation = true → io.opens = true := by
      simpa using isOpen
    obtain ⟨failed, bytes, isPrefix, torn⟩ | ⟨writesAll, whole⟩ :=
      writeRecord_effect io record wal.prepared_currentFile
    · rw [torn]
      exact .torn (fun succeeds => failed succeeds.2) bytes isPrefix
    · rw [whole]
      exact .whole ⟨opens, writesAll⟩

/-! ## Runs -/

structure Call where
  io : Io
  record : Record

/-- A call during which every operation of the system succeeds. -/
def Call.plain (record : Record) : Call where
  io := { opens := true, lengthWrite := none, lsnWrite := none, payloadWrite := none }
  record

namespace Wal

def append (wal : Wal) (call : Call) : Except (Fault IoError) Unit × Wal :=
  match WalWriter.append call.io call.record wal with
  | .ok _ next => (.ok (), next)
  | .error fault next => (.error fault, next)

def after (wal : Wal) (calls : List Call) : Wal :=
  calls.foldl (fun wal call => (wal.append call).2) wal

/-- The records whose append returned `Ok`, each with the number of the segment
    that was then open. -/
def stored : Wal → List Call → List (Nat × Record)
  | _, [] => []
  | wal, call :: calls =>
    match wal.append call with
    | (.ok _, next) => (next.writer.currentFile.getD 0, call.record) :: next.stored calls
    | (.error _, next) => next.stored calls

def AllOk : Wal → List Call → Prop
  | _, [] => True
  | wal, call :: calls => (wal.append call).1 = .ok () ∧ (wal.append call).2.AllOk calls

variable {wal : Wal} {call : Call}

/-- A call returns `Ok` and leaves the whole record, or fails and leaves every file
    as it was but for some bytes at the end of the one it writes to. -/
theorem append_cases (wal : Wal) (call : Call) :
    (call.io.Succeeds wal.writer ∧ wal.append call = (.ok (), wal.advanced call.record)) ∨
      ¬ call.io.Succeeds wal.writer ∧ ∃ fault next, wal.append call = (.error fault, next) ∧
        (next.dir = wal.dir ∨ ∃ bytes, next = wal.extended bytes) := by
  have effect := append_effect call.io call.record wal
  unfold append
  generalize WalWriter.append call.io call.record wal = result at effect
  cases effect with
  | unopened refused => exact .inr ⟨refused, _, _, rfl, .inl rfl⟩
  | torn failed bytes isPrefix => exact .inr ⟨failed, _, _, rfl, .inr ⟨bytes, rfl⟩⟩
  | whole succeeds => exact .inl ⟨succeeds, rfl⟩

theorem append_ok_iff : (wal.append call).1 = .ok () ↔ call.io.Succeeds wal.writer := by
  obtain ⟨succeeds, outcome⟩ | ⟨failed, fault, next, outcome, _⟩ := append_cases wal call
  · simp [outcome, succeeds]
  · simp [outcome, failed]

theorem append_ok (ok : (wal.append call).1 = .ok ()) :
    wal.append call = (.ok (), wal.advanced call.record) := by
  obtain ⟨_, outcome⟩ | ⟨failed, _⟩ := append_cases wal call
  · exact outcome
  · exact absurd (append_ok_iff.mp ok) failed

theorem advanced_currentFile (record : Record) :
    (wal.advanced record).writer.currentFile = some wal.writer.target :=
  wal.prepared_currentFile

theorem stored_of_ok (ok : (wal.append call).1 = .ok ()) (calls : List Call) :
    wal.stored (call :: calls) =
      (wal.writer.target, call.record) :: (wal.advanced call.record).stored calls := by
  rw [stored, append_ok ok]
  dsimp only
  rw [advanced_currentFile]
  rfl

theorem stored_of_failed (failed : (wal.append call).1 ≠ .ok ()) (calls : List Call) :
    wal.stored (call :: calls) = (wal.append call).2.stored calls := by
  obtain ⟨_, outcome⟩ | ⟨_, fault, next, outcome, _⟩ := append_cases wal call
  · rw [outcome] at failed
    exact absurd rfl failed
  · rw [stored, outcome]

theorem after_of_ok (ok : (wal.append call).1 = .ok ()) (calls : List Call) :
    wal.after (call :: calls) = (wal.advanced call.record).after calls := by
  rw [after, List.foldl_cons, append_ok ok, after]

theorem AllOk.of_cons {calls : List Call} (allOk : wal.AllOk (call :: calls)) :
    (wal.append call).1 = .ok () ∧ (wal.advanced call.record).AllOk calls := by
  obtain ⟨ok, restOk⟩ := allOk
  rw [append_ok ok] at restOk
  exact ⟨ok, restOk⟩

theorem stored_records {calls : List Call} (allOk : wal.AllOk calls) :
    (wal.stored calls).map Prod.snd = calls.map Call.record := by
  induction calls generalizing wal with
  | nil => rfl
  | cons call calls inductionHypothesis =>
    obtain ⟨ok, restOk⟩ := allOk.of_cons
    rw [stored_of_ok ok, List.map_cons, List.map_cons, inductionHypothesis restOk]

theorem plain_allOk (wal : Wal) (records : List Record) : wal.AllOk (records.map .plain) := by
  induction records generalizing wal with
  | nil => trivial
  | cons record records inductionHypothesis =>
    exact ⟨append_ok_iff.mpr ⟨fun _ => rfl, rfl, rfl, rfl⟩, inductionHypothesis _⟩

end Wal

end Nendi.Core
