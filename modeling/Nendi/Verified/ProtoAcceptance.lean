import Nendi.Lib.Recognise
import Nendi.Verified.ProtoRoundTrip

/-! # Which buffers the storage codec accepts

The grammar `decode_event` recognises, written as relations between byte strings and the
values they spell.  It is wider than what `encode_event` writes: every byte but zero counts
as a set flag, a buffer may end before either row image, and bytes behind the second image
are not looked at. -/

namespace Nendi.Verified

open Nendi.Lib Nendi.Shared
open Nendi.Lib.CursorM

/-! ## The grammar -/

inductive SpellsValue : List UInt8 → Option String → Prop
  | null : SpellsValue [0] none
  | text {flag : UInt8} {text : String} (set : flag ≠ 0) (short : (utf8Bytes text).length < 2 ^ 32) :
      SpellsValue (flag :: encodeText text) (some text)

def SpellsColumn (bytes : List UInt8) (column : ColumnValue) : Prop :=
  NameFits column.name ∧ ∃ value, SpellsValue value column.value ∧
    bytes = encodeName column.name ++ (column.typeOid.toBeBytes ++ value)

inductive SpellsRow : List UInt8 → Option RowData → Prop
  | absent : SpellsRow [0] none
  | present {flag : UInt8} {columns : List ColumnValue} {pieces : List (List UInt8)} (set : flag ≠ 0)
      (few : columns.length ≤ 65535) (spelled : List.Forall₂ SpellsColumn pieces columns) :
      SpellsRow (flag :: ((UInt16.ofNat columns.length).toBeBytes ++ pieces.flatten)) (some ⟨columns⟩)

/-- The two row images behind the header, of which either may be missing with all that
    would follow it. -/
inductive SpellsImages : List UInt8 → Option RowData → Option RowData → Prop
  | neither : SpellsImages [] none none
  | onlyAfter {bytes : List UInt8} {after : Option RowData} (first : SpellsRow bytes after) :
      SpellsImages bytes after none
  | both {bytes more trailing : List UInt8} {after before : Option RowData} (first : SpellsRow bytes after)
      (second : SpellsRow more before) : SpellsImages (bytes ++ (more ++ trailing)) after before

/-! ## The readers of the parts -/

theorem opToByte_byteToOp {byte : UInt8} {op : OpType} (known : byteToOp byte = some op) : opToByte op = byte := by
  unfold byteToOp at known
  split_ifs at known with insert update delete truncate
  all_goals
    cases known
    simp only [opToByte, *]

theorem takeUtf8_recognises (count : Nat) (message : String) :
    Recognises (takeUtf8 count message) fun bytes text => bytes = utf8Bytes text ∧ (utf8Bytes text).length = count where
  consumes := (Consumes.take count).bind fun bytes read spelled => by
    obtain ⟨rfl, length⟩ := spelled
    cases decoded : fromUtf8 bytes with
    | none => exact Consumes.fail
    | some text =>
      have same := fromUtf8_eq_some decoded
      exact Consumes.pure ⟨by rw [List.append_nil, same], by rw [same, length]⟩
  reads bytes text spelled := by
    obtain ⟨rfl, rfl⟩ := spelled
    exact takeUtf8_reads text message

theorem decodeName_recognises (message : String) :
    Recognises (decodeName message) fun bytes name => NameFits name ∧ bytes = encodeName name where
  consumes := by
    apply (Recognises.code uint16_fixedCode fun length => takeUtf8_recognises _ message).consumes.weaken
    rintro bytes name ⟨length, rest, rfl, rfl, measured⟩
    rw [UInt16.ofBeBytes_toBeBytes] at measured
    have bound := length.toNat_lt
    refine ⟨by rw [NameFits]; omega, ?_⟩
    rw [encodeName, measured, UInt16.ofNat_toNat]
  reads bytes name spelled := by
    rw [spelled.2]
    exact decodeName_reads spelled.1 message

theorem decodeText_recognises (message : String) :
    Recognises (decodeText message) fun bytes text => (utf8Bytes text).length < 2 ^ 32 ∧ bytes = encodeText text where
  consumes := by
    apply (Recognises.code uint32_fixedCode fun length => takeUtf8_recognises _ message).consumes.weaken
    rintro bytes text ⟨length, rest, rfl, rfl, measured⟩
    rw [UInt32.ofBeBytes_toBeBytes] at measured
    refine ⟨by rw [measured]; exact length.toNat_lt, ?_⟩
    rw [encodeText, measured, UInt32.ofNat_toNat]
  reads bytes text spelled := by
    rw [spelled.2]
    exact decodeText_reads spelled.1 message

theorem decodeValue_recognises : Recognises decodeValue SpellsValue where
  consumes := Consumes.takeByte.bind fun front flag spelled => by
    rw [spelled]
    split
    next clear =>
      rw [clear]
      exact Consumes.pure .null
    next set =>
      refine (decodeText_recognises _).consumes.bind fun bytes text fits => Consumes.pure ?_
      rw [fits.2, List.append_nil]
      exact .text set fits.1
  reads bytes value spelled := by
    cases spelled with
    | null => exact (Reads.takeByte 0).bind (Reads.pure none)
    | @text flag text set short =>
      apply (Reads.takeByte flag).bind
      rw [if_neg set]
      exact (decodeText_reads short _).map some

theorem decodeColumn_recognises : Recognises decodeColumn SpellsColumn := by
  apply ((decodeName_recognises _).bind fun name => Recognises.code uint32_fixedCode fun typeOid =>
    decodeValue_recognises.bind fun value => .pure _).congr
  intro bytes column
  constructor
  · rintro ⟨name, _, _, rfl, ⟨fits, rfl⟩, typeOid, _, rfl, value, spelling, _, rfl, spelled, rfl, rfl⟩
    refine ⟨fits, spelling, spelled, ?_⟩
    rw [List.append_nil, UInt32.ofBeBytes_toBeBytes]
  · rintro ⟨fits, spelling, spelled, rfl⟩
    refine ⟨column.name, encodeName column.name, _, rfl, ⟨fits, rfl⟩, column.typeOid, spelling, rfl, column.value,
      spelling, [], by rw [List.append_nil], spelled, rfl, ?_⟩
    rw [UInt32.ofBeBytes_toBeBytes]

theorem decodeFlaggedRow_recognises : Recognises decodeFlaggedRow SpellsRow where
  consumes := Consumes.takeByte.bind fun front flag spelled => by
    rw [spelled]
    split
    next clear =>
      rw [clear]
      exact Consumes.pure .absent
    next set =>
      apply (Recognises.code uint16_fixedCode fun count =>
        (Recognises.collect (fun _ => decodeColumn_recognises) _ 0).bind fun columns => .pure _).consumes.weaken
      rintro _ _ ⟨count, _, rfl, columns, _, _, rfl, ⟨pieces, rfl, length, columnsSpelled⟩, rfl, rfl⟩
      rw [UInt16.ofBeBytes_toBeBytes] at length
      have bound := count.toNat_lt
      have row := SpellsRow.present set (by omega) columnsSpelled
      rw [length, UInt16.ofNat_toNat] at row
      rwa [List.append_nil]
  reads bytes row spelled := by
    cases spelled with
    | absent => exact (Reads.takeByte 0).bind (Reads.pure none)
    | @present flag columns pieces set few columnsSpelled =>
      have count : (UInt16.ofNat columns.length).toNat = columns.length :=
        UInt16.toNat_ofNat_of_lt' (Nat.lt_succ_of_le few)
      apply (Reads.takeByte flag).bind
      rw [if_neg set]
      apply (Reads.take (UInt16.toBeBytes_length _)).bind
      rw [UInt16.ofBeBytes_toBeBytes, count]
      have loop := (Recognises.collect (fun _ => decodeColumn_recognises) columns.length 0).reads pieces.flatten columns
        ⟨pieces, rfl, rfl, columnsSpelled⟩
      exact loop.map fun columns => some ({ columns } : RowData)

theorem decodeOp_recognises : Recognises decodeOp fun bytes op => bytes = [opToByte op] where
  consumes := Consumes.takeByte.bind fun front byte spelled => by
    rw [spelled]
    cases known : byteToOp byte with
    | none => exact Consumes.fail
    | some op => exact Consumes.pure (by rw [List.append_nil, opToByte_byteToOp known])
  reads bytes op spelled := by
    rw [spelled]
    exact decodeOp_reads op

theorem decodeHeader_recognises :
    Recognises decodeHeader fun bytes make => ∃ event : ChangeEvent,
      NameFits event.table.schema ∧ NameFits event.table.table ∧ bytes = encodeHeader event ∧
        make = fun after before => { event with after, before } where
  consumes := by
    apply (Recognises.code uint64_fixedCode fun lsn => Recognises.code uint32_fixedCode fun xid =>
      decodeOp_recognises.bind fun op => (decodeName_recognises _).bind fun schema =>
      (decodeName_recognises _).bind fun table => Recognises.code uint64_fixedCode fun schemaFingerprint =>
      (Recognises.take 8).bind fun commitTimestampUs => .pure _).consumes.weaken
    rintro _ _ ⟨lsn, _, rfl, xid, _, rfl, op, _, _, rfl, rfl, schema, _, _, rfl, ⟨schemaFits, rfl⟩, table, _, _, rfl,
      ⟨tableFits, rfl⟩, schemaFingerprint, _, rfl, _, _, _, rfl, ⟨rfl, stampLength⟩, rfl, rfl⟩
    obtain ⟨commitTimestampUs, rfl⟩ := int64_fixedCode.onto _ stampLength
    refine ⟨⟨lsn, xid, op, ⟨schema, table⟩, schemaFingerprint, none, none, commitTimestampUs⟩, schemaFits, tableFits,
      ?_, ?_⟩
    · simp [encodeHeader]
    · simp only [UInt64.ofBeBytes_toBeBytes, UInt32.ofBeBytes_toBeBytes, Int64.ofBeBytes_toBeBytes]
  reads bytes make spelled := by
    obtain ⟨event, schemaFits, tableFits, rfl, rfl⟩ := spelled
    have fits : ChangeEvent.Fits { event with after := none, before := none } :=
      ⟨schemaFits, tableFits, by simp, by simp⟩
    exact (decodeHeader_reads fits :)

/-! ## The row images and the end of the buffer -/

theorem decodeRowData_reads_spelled {bytes : List UInt8} {row : Option RowData} (spelled : SpellsRow bytes row) :
    Reads decodeRowData bytes row := by
  intro before after bound
  have nonempty : 0 < bytes.length := by cases spelled <;> simp
  rw [decodeRowData_run, if_neg (by simp only [List.length_append]; omega)]
  exact decodeFlaggedRow_recognises.reads bytes row spelled before after bound

/-- An image that was read either stands at the cursor or is missing, with the cursor at the end. -/
theorem decodeRowData_eq_ok {data : List UInt8} {pos end_ : Nat} {row : Option RowData} (inside : pos ≤ data.length)
    (ran : decodeRowData data pos = (.ok row, end_)) :
    (data.drop pos = [] ∧ row = none ∧ end_ = pos) ∨
      ∃ bytes, data.drop pos = bytes ++ data.drop end_ ∧ end_ ≤ data.length ∧ SpellsRow bytes row := by
  rw [decodeRowData_run] at ran
  split at ran
  next done =>
    cases ran
    exact .inl ⟨List.drop_eq_nil_of_le done, rfl, rfl⟩
  next more => exact .inr (decodeFlaggedRow_recognises.consumes data pos row end_ inside ran)

theorem images_of_decoded {data : List UInt8} {pos middle end_ : Nat} {after before : Option RowData}
    (inside : pos ≤ data.length) (afterRan : decodeRowData data pos = (.ok after, middle))
    (beforeRan : decodeRowData data middle = (.ok before, end_)) : SpellsImages (data.drop pos) after before := by
  rcases decodeRowData_eq_ok inside afterRan with ⟨ended, rfl, rfl⟩ | ⟨bytes, split, between, first⟩
  · rw [decodeRowData_run, if_pos (List.drop_eq_nil_iff.mp ended)] at beforeRan
    cases beforeRan
    rw [ended]
    exact .neither
  · rw [split]
    rcases decodeRowData_eq_ok between beforeRan with ⟨ended, rfl, rfl⟩ | ⟨more, rest, _, second⟩
    · rw [ended, List.append_nil]
      exact .onlyAfter first
    · rw [rest]
      exact .both first second

theorem decoded_of_images {header images : List UInt8} {after before : Option RowData}
    (bound : (header ++ images).length ≤ isizeMax) (spelled : SpellsImages images after before) :
    ∃ middle end_, decodeRowData (header ++ images) header.length = (.ok after, middle) ∧
      decodeRowData (header ++ images) middle = (.ok before, end_) := by
  cases spelled with
  | neither =>
    have ended := decodeRowData_end header
    rw [List.append_nil]
    exact ⟨_, _, ended, ended⟩
  | onlyAfter first =>
    have afterRan := decodeRowData_reads_spelled first header [] (by simpa using bound)
    have ended := decodeRowData_end (header ++ images)
    rw [List.append_nil] at afterRan
    exact ⟨_, _, afterRan, ended⟩
  | @both bytes more trailing _ _ first second =>
    have afterRan := decodeRowData_reads_spelled first header (more ++ trailing) (by simpa using bound)
    have beforeRan := decodeRowData_reads_spelled second (header ++ bytes) trailing (by simpa using bound)
    simp only [List.append_assoc, List.length_append] at afterRan beforeRan
    exact ⟨_, _, afterRan, beforeRan⟩

/-! ## Whole buffers -/

/-- `decode_event` returns an event exactly on the buffers that begin with the bytes
    `encode_event` writes for its fields and go on with a spelling of its row images. -/
theorem decodes_iff_spelled {data : List UInt8} (bound : data.length ≤ isizeMax) (event : ChangeEvent) :
    decodeEvent data = .ok event ↔
      NameFits event.table.schema ∧ NameFits event.table.table ∧ ∃ images, data = encodeHeader event ++ images ∧
        SpellsImages images event.after event.before := by
  constructor
  · intro decoded
    have ran : decodeEventAt data 0 = (.ok event, (decodeEventAt data 0).2) := by rw [← decoded, decodeEvent]
    rw [decodeEventAt, bind_ok (size_run _ _)] at ran
    split at ran
    next short => cases ran
    next long =>
      rw [decodeFields_eq] at ran
      obtain ⟨make, pos, headerRan, rest⟩ := bind_eq_ok ran
      obtain ⟨after, middle, afterRan, rest⟩ := bind_eq_ok rest
      obtain ⟨before, end_, beforeRan, made⟩ := bind_eq_ok rest
      cases made
      obtain ⟨header, split, inside, fields, schemaFits, tableFits, rfl, rfl⟩ :=
        decodeHeader_recognises.consumes data 0 make pos (Nat.zero_le _) headerRan
      rw [List.drop_zero] at split
      exact ⟨schemaFits, tableFits, data.drop pos, split, images_of_decoded inside afterRan beforeRan⟩
  · rintro ⟨schemaFits, tableFits, images, rfl, spelled⟩
    obtain ⟨middle, end_, afterRan, beforeRan⟩ := decoded_of_images bound spelled
    have fits : ChangeEvent.Fits { event with after := none, before := none } :=
      ⟨schemaFits, tableFits, by simp, by simp⟩
    exact decodeEvent_of_rows fits images bound afterRan beforeRan

/-- Another spelling of `orderInsert 7 1`: the flag of the row is 9, and two bytes follow
    the images. -/
def oddSpelling : List UInt8 := encodeHeader (orderInsert 7 1) ++ ([9, 0, 0] ++ ([0] ++ [255, 255]))

theorem decodes_iff_spelled_odd :
    decodeEvent oddSpelling = .ok (orderInsert 7 1) ∧ oddSpelling ≠ encodeEvent (orderInsert 7 1) := by
  refine ⟨(decodes_iff_spelled (by decide) (orderInsert 7 1)).mpr ⟨by decide, by decide, _, rfl, ?_⟩, by decide⟩
  exact .both (.present (by decide) (by decide) .nil) .absent

end Nendi.Verified
