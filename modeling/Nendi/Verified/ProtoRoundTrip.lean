import Nendi.Shared.Proto
import Mathlib.Algebra.Order.BigOperators.Group.List

/-! # The storage codec round-trips exactly the events that fit it

`decodeEvent (encodeEvent event)` returns the event if and only if every length
fits the field it is narrowed to.  One direction composes `Reads` along the
format; the other needs no analysis of the truncating casts, because whatever
the decoder returns was measured by two- and four-byte lengths and so fits. -/

namespace Nendi.Verified

open Nendi.Lib Nendi.Shared
open Nendi.Lib.CursorM

/-! ## Reading back what fits -/

theorem takeUtf8_reads (text : String) (message : String) :
    Reads (takeUtf8 (utf8Bytes text).length message) (utf8Bytes text) text := by
  have whole : Reads (takeUtf8 (utf8Bytes text).length message) (utf8Bytes text ++ []) text := by
    apply (Reads.take rfl).bind
    rw [fromUtf8_utf8Bytes]
    exact Reads.pure text
  rwa [List.append_nil] at whole

theorem decodeName_reads {name : String} (fits : NameFits name) (message : String) :
    Reads (decodeName message) (encodeName name) name := by
  have length : (UInt16.ofNat (utf8Bytes name).length).toNat = (utf8Bytes name).length :=
    UInt16.toNat_ofNat_of_lt' (Nat.lt_succ_of_le fits)
  apply (Reads.take (UInt16.toBeBytes_length _)).bind
  rw [UInt16.ofBeBytes_toBeBytes, length]
  exact takeUtf8_reads name message

theorem decodeText_reads {text : String} (fits : (utf8Bytes text).length < 2 ^ 32) (message : String) :
    Reads (decodeText message) (encodeText text) text := by
  have length : (UInt32.ofNat (utf8Bytes text).length).toNat = (utf8Bytes text).length :=
    UInt32.toNat_ofNat_of_lt' fits
  apply (Reads.take (UInt32.toBeBytes_length _)).bind
  rw [UInt32.ofBeBytes_toBeBytes, length]
  exact takeUtf8_reads text message

theorem decodeValue_reads {value : Option String}
    (fits : ∀ text ∈ value, (utf8Bytes text).length < 2 ^ 32) :
    Reads decodeValue (encodeValue value) value := by
  cases value with
  | none => exact (Reads.takeByte 0).bind (Reads.pure none)
  | some text =>
    exact (Reads.takeByte 1).bind ((decodeText_reads (fits text rfl) _).map some)

theorem decodeColumn_reads {column : ColumnValue} (fits : column.Fits) :
    Reads decodeColumn (encodeColumn column) column := by
  obtain ⟨name, typeOid, value⟩ := column
  obtain ⟨nameFits, valueFits⟩ := fits
  apply (decodeName_reads nameFits _).bind
  apply (Reads.take (UInt32.toBeBytes_length _)).bind
  have rest := (decodeValue_reads valueFits).map fun value =>
    ({ name, typeOid := UInt32.ofBeBytes typeOid.toBeBytes, value } : ColumnValue)
  simpa using rest

/-- `decode_row_data` behind its check for the end of the buffer. -/
def decodeFlaggedRow : CursorM String (Option RowData) := do
  let flag ← takeByte
  if flag = 0 then
    pure none
  else do
    let colCount ← take 2
    let columns ← collect (fun _ => decodeColumn) 0 (UInt16.ofBeBytes colCount).toNat
    pure (some { columns })

theorem decodeRowData_run (data : List UInt8) (pos : Nat) :
    decodeRowData data pos =
      if data.length ≤ pos then (.ok none, pos) else decodeFlaggedRow data pos := by
  rw [decodeRowData, bind_ok (position_run _ _), bind_ok (size_run _ _)]
  split <;> rfl

theorem decodeRowData_end (data : List UInt8) : decodeRowData data data.length = (.ok none, data.length) := by
  rw [decodeRowData_run, if_pos (Nat.le_refl _)]

theorem decodeFlaggedRow_reads {row : Option RowData} (fits : ∀ data ∈ row, data.Fits) :
    Reads decodeFlaggedRow (encodeRowData row) row := by
  cases row with
  | none => exact (Reads.takeByte 0).bind (Reads.pure none)
  | some row =>
    obtain ⟨columns⟩ := row
    obtain ⟨countFits, columnsFit⟩ := fits _ rfl
    have count : (UInt16.ofNat columns.length).toNat = columns.length :=
      UInt16.toNat_ofNat_of_lt' (Nat.lt_succ_of_le countFits)
    have loop : Reads (collect (fun _ => decodeColumn) 0 columns.length)
        (columns.flatMap encodeColumn) (columns.map id) :=
      Reads.collect_map id columns fun column member => decodeColumn_reads (columnsFit column member)
    rw [List.map_id] at loop
    apply (Reads.takeByte 1).bind
    apply (Reads.take (UInt16.toBeBytes_length _)).bind
    rw [UInt16.ofBeBytes_toBeBytes, count]
    have rest := loop.map fun columns => some ({ columns } : RowData)
    simpa using rest

theorem encodeRowData_ne_nil (row : Option RowData) : encodeRowData row ≠ [] := by
  cases row with
  | none => simp [encodeRowData]
  | some row => simp [encodeRowData]

theorem decodeRowData_reads {row : Option RowData} (fits : ∀ data ∈ row, data.Fits) :
    Reads decodeRowData (encodeRowData row) row := by
  -- a written row is never at the end of the buffer, so the first check of `decode_row_data` falls
  -- through to the flag
  intro before after bound
  have nonempty := List.length_pos_iff.mpr (encodeRowData_ne_nil row)
  rw [decodeRowData_run, if_neg (by simp only [List.length_append]; omega)]
  exact decodeFlaggedRow_reads fits before after bound

theorem decodeOp_reads (op : OpType) : Reads decodeOp [opToByte op] op := by
  have accepted : byteToOp (opToByte op) = some op := by cases op <;> rfl
  have whole : Reads decodeOp ([opToByte op] ++ []) op := by
    apply (Reads.takeByte (opToByte op)).bind
    rw [accepted]
    exact Reads.pure op
  exact whole

def encodeHeader (event : ChangeEvent) : List UInt8 :=
  event.lsn.toBeBytes ++
  (event.xid.toBeBytes ++
  (opToByte event.op ::
  (encodeName event.table.schema ++
  (encodeName event.table.table ++
  (event.schemaFingerprint.toBeBytes ++
  event.commitTimestampUs.toBeBytes)))))

def decodeHeader : CursorM String (Option RowData → Option RowData → ChangeEvent) := do
  let lsn ← take 8
  let xid ← take 4
  let op ← decodeOp
  let schema ← decodeName "invalid utf8 in schema"
  let table ← decodeName "invalid utf8 in table"
  let schemaFingerprint ← take 8
  let commitTimestampUs ← take 8
  pure fun after before => {
    lsn := UInt64.ofBeBytes lsn
    xid := UInt32.ofBeBytes xid
    op
    table := { schema, table }
    schemaFingerprint := UInt64.ofBeBytes schemaFingerprint
    after
    before
    commitTimestampUs := Int64.ofBeBytes commitTimestampUs }

theorem encodeEvent_eq (event : ChangeEvent) :
    encodeEvent event = encodeHeader event ++ (encodeRowData event.after ++ encodeRowData event.before) := by
  simp [encodeEvent, encodeHeader]

theorem decodeFields_eq : decodeFields = (do
    let header ← decodeHeader
    let after ← decodeRowData
    let before ← decodeRowData
    pure (header after before)) := by
  simp only [decodeHeader, bind_assoc, pure_bind]
  rfl

theorem decodeHeader_reads {event : ChangeEvent} (fits : event.Fits) :
    Reads decodeHeader (encodeHeader event) fun after before => { event with after, before } := by
  obtain ⟨lsn, xid, op, ⟨schema, table⟩, schemaFingerprint, after, before, commitTimestampUs⟩ := event
  obtain ⟨schemaFits, tableFits, _, _⟩ := fits
  apply (Reads.take (UInt64.toBeBytes_length _)).bind
  apply (Reads.take (UInt32.toBeBytes_length _)).bind
  apply (decodeOp_reads op).bind
  apply (decodeName_reads schemaFits _).bind
  apply (decodeName_reads tableFits _).bind
  apply (Reads.take (UInt64.toBeBytes_length _)).bind
  have stamp : Reads (take 8 : CursorM String _) commitTimestampUs.toBeBytes commitTimestampUs.toBeBytes :=
    Reads.take (Int64.toBeBytes_length commitTimestampUs)
  have rest := stamp.map fun commitTimestamp => fun after before => ({
      lsn := UInt64.ofBeBytes lsn.toBeBytes, xid := UInt32.ofBeBytes xid.toBeBytes, op
      table := { schema, table }
      schemaFingerprint := UInt64.ofBeBytes schemaFingerprint.toBeBytes, after, before
      commitTimestampUs := Int64.ofBeBytes commitTimestamp } : ChangeEvent)
  simpa using rest

/-! ## An encoded event is an admissible slice -/

theorem encodeColumn_length {column : ColumnValue} (fits : column.Fits) :
    (encodeColumn column).length ≤ 2 ^ 33 := by
  obtain ⟨name, typeOid, value⟩ := column
  obtain ⟨nameFits, valueFits⟩ := fits
  have nameBound : (utf8Bytes name).length ≤ 65535 := nameFits
  cases value with
  | none =>
    simp [encodeColumn, encodeName, encodeValue]
    omega
  | some text =>
    have textBound := valueFits text rfl
    simp [encodeColumn, encodeName, encodeValue, encodeText]
    omega

theorem encodeRowData_length {row : Option RowData} (fits : ∀ data ∈ row, data.Fits) :
    (encodeRowData row).length ≤ 3 + 65535 * 2 ^ 33 := by
  cases row with
  | none => simp [encodeRowData]
  | some row =>
    obtain ⟨countFits, columnsFit⟩ := fits row rfl
    have columnsBound : (row.columns.flatMap encodeColumn).length ≤ row.columns.length * 2 ^ 33 := by
      rw [List.length_flatMap]
      have total := List.sum_le_card_nsmul (row.columns.map fun column => (encodeColumn column).length)
        (2 ^ 33) (by
          intro size member
          obtain ⟨column, inRow, rfl⟩ := List.mem_map.mp member
          exact encodeColumn_length (columnsFit column inRow))
      simpa using total
    simp only [encodeRowData, List.length_cons, List.length_append, UInt16.toBeBytes_length]
    have := Nat.mul_le_mul_right (2 ^ 33) countFits
    omega

theorem encodeEvent_length {event : ChangeEvent} (fits : event.Fits) :
    (encodeEvent event).length ≤ isizeMax := by
  obtain ⟨schemaFits, tableFits, afterFits, beforeFits⟩ := fits
  have schemaBound : (utf8Bytes event.table.schema).length ≤ 65535 := schemaFits
  have tableBound : (utf8Bytes event.table.table).length ≤ 65535 := tableFits
  have afterBound := encodeRowData_length afterFits
  have beforeBound := encodeRowData_length beforeFits
  simp only [encodeEvent, encodeName, List.length_append, List.length_cons, UInt64.toBeBytes_length,
    UInt32.toBeBytes_length, UInt16.toBeBytes_length, Int64.toBeBytes_length, isizeMax]
  omega

theorem encodeHeader_length (event : ChangeEvent) : 15 ≤ (encodeHeader event).length := by
  simp [encodeHeader, encodeName]
  omega

theorem decodeEvent_of_rows {event : ChangeEvent} {after before : Option RowData} {middle end_ : Nat}
    (fits : event.Fits) (rows : List UInt8) (bound : (encodeHeader event ++ rows).length ≤ isizeMax)
    (afterRan : decodeRowData (encodeHeader event ++ rows) (encodeHeader event).length = (.ok after, middle))
    (beforeRan : decodeRowData (encodeHeader event ++ rows) middle = (.ok before, end_)) :
    decodeEvent (encodeHeader event ++ rows) = .ok { event with after, before } := by
  have headerRan := decodeHeader_reads fits [] rows (by simpa using bound)
  simp only [List.nil_append, List.length_nil] at headerRan
  have long : ¬ (encodeHeader event ++ rows).length < 15 := by
    have header := encodeHeader_length event
    rw [List.length_append]
    omega
  rw [decodeEvent, decodeEventAt, bind_ok (size_run _ _), if_neg long, decodeFields_eq,
    bind_ok headerRan, bind_ok afterRan, bind_ok beforeRan]
  rfl

theorem decodeEvent_encodeEvent {event : ChangeEvent} (fits : event.Fits) :
    decodeEvent (encodeEvent event) = .ok event := by
  have bound := encodeEvent_length fits
  rw [encodeEvent_eq] at bound ⊢
  have afterRan := decodeRowData_reads fits.2.2.1 (encodeHeader event) (encodeRowData event.before)
    (by simpa using bound)
  have beforeRan := decodeRowData_reads fits.2.2.2 (encodeHeader event ++ encodeRowData event.after) []
    (by simpa using bound)
  simp only [List.append_assoc, List.append_nil] at afterRan beforeRan
  exact decodeEvent_of_rows fits _ bound afterRan beforeRan

/-! ## Whatever is decoded fits -/

theorem takeUtf8_yields (count : Nat) (message : String) :
    Yields (takeUtf8 count message) fun text => (utf8Bytes text).length = count := by
  refine (Yields.take count).bind fun bytes length => ?_
  cases decoded : fromUtf8 bytes with
  | none => exact Yields.fail
  | some text => exact Yields.pure (by rw [fromUtf8_eq_some decoded, length])

theorem decodeName_yields (message : String) : Yields (decodeName message) NameFits := by
  -- the name is as long as the two bytes in front of it say
  refine (Yields.take 2).bind fun length _ => ?_
  intro data pos name end_ ran
  have measured := takeUtf8_yields _ _ data pos name end_ ran
  have bound := (UInt16.ofBeBytes length).toNat_lt
  rw [NameFits, measured]
  omega

theorem decodeText_yields (message : String) :
    Yields (decodeText message) fun text => (utf8Bytes text).length < 2 ^ 32 := by
  refine (Yields.take 4).bind fun length _ => ?_
  intro data pos text end_ ran
  have measured := takeUtf8_yields _ _ data pos text end_ ran
  rw [measured]
  exact (UInt32.ofBeBytes length).toNat_lt

theorem decodeValue_yields :
    Yields decodeValue fun value => ∀ text ∈ value, (utf8Bytes text).length < 2 ^ 32 := by
  refine (Yields.trivial takeByte).bind fun flag _ => ?_
  split
  · exact Yields.pure (by simp)
  · refine (decodeText_yields _).bind fun text bound => Yields.pure ?_
    intro other member
    cases member
    exact bound

theorem decodeColumn_yields : Yields decodeColumn ColumnValue.Fits := by
  refine (decodeName_yields _).bind fun name nameFits => ?_
  refine (Yields.take 4).bind fun typeOid _ => ?_
  refine decodeValue_yields.bind fun value valueFits => ?_
  exact Yields.pure ⟨nameFits, valueFits⟩

theorem decodeRowData_yields : Yields decodeRowData fun row => ∀ data ∈ row, data.Fits := by
  refine (Yields.trivial position).bind fun pos _ => ?_
  refine (Yields.trivial size).bind fun length _ => ?_
  split
  · exact Yields.pure (by simp)
  · refine (Yields.trivial takeByte).bind fun flag _ => ?_
    split
    · exact Yields.pure (by simp)
    · refine (Yields.take 2).bind fun colCount _ => ?_
      refine (Yields.collect _ 0 fun _ => decodeColumn_yields).bind ?_
      rintro columns ⟨length, columnsFit⟩
      apply Yields.pure
      intro row member
      cases member
      have bound := (UInt16.ofBeBytes colCount).toNat_lt
      exact ⟨by rw [length]; omega, columnsFit⟩

theorem decodeFields_yields : Yields decodeFields ChangeEvent.Fits := by
  refine (Yields.take 8).bind fun lsn _ => ?_
  refine (Yields.take 4).bind fun xid _ => ?_
  refine (Yields.trivial decodeOp).bind fun op _ => ?_
  refine (decodeName_yields _).bind fun schema schemaFits => ?_
  refine (decodeName_yields _).bind fun table tableFits => ?_
  refine (Yields.take 8).bind fun schemaFingerprint _ => ?_
  refine (Yields.take 8).bind fun commitTimestampUs _ => ?_
  refine decodeRowData_yields.bind fun after afterFits => ?_
  refine decodeRowData_yields.bind fun before beforeFits => ?_
  exact Yields.pure ⟨schemaFits, tableFits, afterFits, beforeFits⟩

theorem decodeEvent_fits {data : List UInt8} {event : ChangeEvent}
    (decoded : decodeEvent data = .ok event) : event.Fits := by
  have yields : Yields decodeEventAt ChangeEvent.Fits := by
    refine (Yields.trivial size).bind fun length _ => ?_
    split
    · exact Yields.fail
    · exact decodeFields_yields
  exact yields data 0 event (decodeEventAt data 0).2 (by rw [← decoded, decodeEvent])

/-- The codec returns an event unchanged exactly when every name and every row
    width is at most 65535 and every value is shorter than `2 ^ 32` bytes. -/
theorem decodeEvent_encodeEvent_iff (event : ChangeEvent) :
    decodeEvent (encodeEvent event) = .ok event ↔ event.Fits :=
  ⟨decodeEvent_fits, decodeEvent_encodeEvent⟩

/-- An event of the concrete runs: an insert into `public.orders`. -/
def orderInsert (lsn : UInt64) (xid : UInt32) : ChangeEvent where
  lsn
  xid
  op := .insert
  table := ⟨"public", "orders"⟩
  schemaFingerprint := 0
  after := some ⟨[]⟩
  before := none
  commitTimestampUs := 0

example : decodeEvent (encodeEvent (orderInsert 7 1)) = .ok (orderInsert 7 1) := by decide

end Nendi.Verified
