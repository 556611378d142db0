import Nendi.Lib.ShortSlice
import Nendi.Verified.ProtoRoundTrip

/-! # The storage codec on short buffers

Behind its check for fifteen bytes `decode_event` indexes and slices without looking at
the length.  `Unbroken` says which buffers it survives: it walks the fields in their
order, and every byte a length, a flag or a count announces has to be there.

A written event that was cut off is refused, or aborts the reader, except in two places:
`decode_row_data` takes the end of the buffer for an absent row image, so an event cut
right there is read as one that never had it. -/

namespace Nendi.Verified

open Nendi.Lib Nendi.Shared
open Nendi.Lib.CursorM

/-! ## Buffers that end where they should -/

/-- `count` bytes of text, and `rest` behind them.  A text that is not UTF-8 is reported,
    and nothing behind it is looked at. -/
def utf8Then (count : Nat) (rest : List UInt8 → Prop) (bytes : List UInt8) : Prop :=
  skipThen count (fun left => (fromUtf8 (bytes.take count)).isSome → rest left) bytes

def textThen (width : Nat) (rest : List UInt8 → Prop) (bytes : List UInt8) : Prop :=
  skipThen width (utf8Then (beNat (bytes.take width)) rest) bytes

/-- An operation, and `rest` behind it if it is a known one. -/
def opThen (rest : List UInt8 → Prop) : List UInt8 → Prop :=
  byteThen fun byte bytes => (byteToOp byte).isSome → rest bytes

def valueThen (rest : List UInt8 → Prop) : List UInt8 → Prop :=
  byteThen fun flag bytes => if flag = 0 then rest bytes else textThen 4 rest bytes

def columnThen (rest : List UInt8 → Prop) : List UInt8 → Prop :=
  textThen 2 <| skipThen 4 <| valueThen rest

def columnsThen (rest : List UInt8 → Prop) (bytes : List UInt8) : Prop :=
  skipThen 2 (columnThen^[beNat (bytes.take 2)] rest) bytes

/-- A row image; a buffer may also end in front of it. -/
def rowThen (rest : List UInt8 → Prop) : List UInt8 → Prop
  | [] => rest []
  | flag :: bytes => if flag = 0 then rest bytes else columnsThen rest bytes

/-- The buffer is too short to be looked at, or no field of it ends behind it. -/
def Unbroken (data : List UInt8) : Prop :=
  data.length < 15 ∨
    (skipThen 8 <| skipThen 4 <| opThen <| textThen 2 <| textThen 2 <| skipThen 8 <| skipThen 8 <|
      rowThen <| rowThen fun _ => True) data

/-! ## What the decoder needs -/

theorem takeUtf8_needs (count : Nat) (message : String) :
    Needs (takeUtf8 count message) (utf8Then count) := by
  refine Needs.take_bind (fun bytes rest left => (fromUtf8 bytes).isSome → rest left) fun bytes _ => ?_
  cases fromUtf8 bytes with
  | none => exact (Needs.fail message).congr (by simp)
  | some text => exact (Needs.pure text).congr (by simp)

theorem decodeName_needs (message : String) : Needs (decodeName message) (textThen 2) := by
  refine Needs.take_bind (fun length => utf8Then (beNat length)) fun length sized => ?_
  rw [UInt16.toNat_ofBeBytes sized]
  exact takeUtf8_needs _ message

theorem decodeText_needs (message : String) : Needs (decodeText message) (textThen 4) := by
  refine Needs.take_bind (fun length => utf8Then (beNat length)) fun length sized => ?_
  rw [UInt32.toNat_ofBeBytes sized]
  exact takeUtf8_needs _ message

theorem decodeValue_needs : Needs decodeValue valueThen := by
  refine Needs.takeByte_bind fun flag => ?_
  exact (Needs.pure none).ite ((decodeText_needs _).map some)

theorem decodeColumn_needs : Needs decodeColumn columnThen := by
  refine (decodeName_needs _).bind fun name => ?_
  refine (Needs.take 4).bind fun typeOid => ?_
  exact decodeValue_needs.map _

theorem decodeFlaggedRow_needs : Needs decodeFlaggedRow fun rest => byteThen fun flag bytes =>
    if flag = 0 then rest bytes else columnsThen rest bytes := by
  refine Needs.takeByte_bind fun flag => (Needs.pure none).ite ?_
  refine Needs.take_bind (fun colCount => columnThen^[beNat colCount]) fun colCount sized => ?_
  rw [UInt16.toNat_ofBeBytes sized]
  exact (Needs.collect (fun _ => decodeColumn_needs) _ 0).map _

theorem decodeRowData_needs : Needs decodeRowData rowThen := by
  refine (Needs.atEnd (Needs.pure none) decodeFlaggedRow_needs).congr ?_
  intro rest bytes
  cases bytes with
  | nil => simp [rowThen]
  | cons flag bytes => simp [rowThen, byteThen]

theorem decodeOp_needs : Needs decodeOp opThen := by
  refine Needs.takeByte_bind fun byte => ?_
  cases byteToOp byte with
  | none => exact (Needs.fail _).congr (by simp)
  | some op => exact (Needs.pure op).congr (by simp)

theorem decodeFields_needs : Needs decodeFields
    fun rest => skipThen 8 <| skipThen 4 <| opThen <| textThen 2 <| textThen 2 <| skipThen 8 <|
      skipThen 8 <| rowThen <| rowThen rest := by
  refine (Needs.take 8).bind fun lsn => ?_
  refine (Needs.take 4).bind fun xid => ?_
  refine decodeOp_needs.bind fun op => ?_
  refine (decodeName_needs _).bind fun schema => ?_
  refine (decodeName_needs _).bind fun table => ?_
  refine (Needs.take 8).bind fun schemaFingerprint => ?_
  refine (Needs.take 8).bind fun commitTimestampUs => ?_
  refine decodeRowData_needs.bind fun after => ?_
  exact decodeRowData_needs.map _

/-- The decoder returns, with a value or with an error, exactly on unbroken buffers. -/
theorem decodeEvent_returns_iff (data : List UInt8) :
    decodeEvent data ≠ .error .panic ↔ Unbroken data := by
  have fields := decodeFields_needs.safeAt_iff (fun _ => True) data 0 (Nat.zero_le _)
  rw [safeAt_trivial_iff, List.drop_zero] at fields
  rw [decodeEvent, decodeEventAt, bind_ok (size_run _ _), Unbroken, ← fields]
  by_cases short : data.length < 15
  · simp [short]
  · rw [if_neg short]
    simp [short]

/-- Fifteen bytes whose last two announce a name of one byte. -/
theorem decodeEvent_panics_on_short_name :
    decodeEvent [0, 0, 0, 0, 0, 0, 0, 0, 0, 0, 0, 0, 'I'.toUInt8, 0, 1] = .error .panic := by
  decide

/-! ## Cut buffers -/

theorem takeUtf8_stable (count : Nat) (message : String) : Stable (takeUtf8 count message) := by
  refine (Stable.take count).bind fun bytes => ?_
  cases fromUtf8 bytes with
  | none => exact Stable.fail message
  | some text => exact Stable.pure text

theorem decodeName_stable (message : String) : Stable (decodeName message) :=
  (Stable.take 2).bind fun _ => takeUtf8_stable _ message

theorem decodeValue_stable : Stable decodeValue := by
  refine Stable.takeByte.bind fun flag => ?_
  split
  · exact Stable.pure none
  · refine Stable.bind ?_ fun text => Stable.pure (some text)
    exact (Stable.take 4).bind fun _ => takeUtf8_stable _ _

theorem decodeColumn_stable : Stable decodeColumn := by
  refine (decodeName_stable _).bind fun name => ?_
  refine (Stable.take 4).bind fun typeOid => ?_
  exact decodeValue_stable.bind fun value => Stable.pure _

theorem decodeFlaggedRow_stable : Stable decodeFlaggedRow := by
  refine Stable.takeByte.bind fun flag => ?_
  split
  · exact Stable.pure none
  · refine (Stable.take 2).bind fun colCount => ?_
    exact (Stable.collect (fun _ => decodeColumn_stable) _ 0).bind fun columns => Stable.pure _

theorem decodeHeader_stable : Stable decodeHeader := by
  refine (Stable.take 8).bind fun lsn => ?_
  refine (Stable.take 4).bind fun xid => ?_
  refine Stable.bind ?_ fun op => ?_
  · refine Stable.takeByte.bind fun byte => ?_
    cases byteToOp byte with
    | none => exact Stable.fail _
    | some op => exact Stable.pure op
  refine (decodeName_stable _).bind fun schema => ?_
  refine (decodeName_stable _).bind fun table => ?_
  refine (Stable.take 8).bind fun schemaFingerprint => ?_
  exact (Stable.take 8).bind fun commitTimestampUs => Stable.pure _

/-- A row image in a cut buffer is read as it was written, or the cut is right in front of
    it and it is taken for absent. -/
theorem decodeRowData_cut {row result : Option RowData} {data more before after : List UInt8} {end_ : Nat}
    (fits : ∀ image ∈ row, image.Fits) (whole : data ++ more = before ++ encodeRowData row ++ after)
    (bound : (data ++ more).length ≤ isizeMax) (inside : before.length ≤ data.length)
    (ran : decodeRowData data before.length = (.ok result, end_)) :
    data = before ∧ result = none ∧ end_ = before.length ∨
      result = row ∧ end_ = (before ++ encodeRowData row).length ∧
        (before ++ encodeRowData row).length ≤ data.length := by
  rw [decodeRowData_run] at ran
  split at ran
  next ended =>
    cases ran
    rw [List.append_assoc] at whole
    exact .inl ⟨(List.append_inj whole (by omega)).1, rfl, rfl⟩
  next =>
    exact .inr (decodeFlaggedRow_stable.cut (decodeFlaggedRow_reads fits) whole bound inside ran)

theorem decodeEvent_cut {event result : ChangeEvent} {data more : List UInt8} (fits : event.Fits)
    (whole : data ++ more = encodeEvent event) (proper : more ≠ [])
    (decoded : decodeEvent data = .ok result) :
    data = encodeHeader event ∧ result = { event with after := none, before := none } ∨
      data = encodeHeader event ++ encodeRowData event.after ∧ result = { event with before := none } := by
  have bound : (data ++ more).length ≤ isizeMax := whole ▸ encodeEvent_length fits
  obtain ⟨_, _, afterFits, beforeFits⟩ := id fits
  rw [encodeEvent_eq] at whole
  obtain ⟨end_, ran⟩ : ∃ end_, decodeFields data 0 = (.ok result, end_) := by
    rw [decodeEvent, decodeEventAt, bind_ok (size_run _ _)] at decoded
    split at decoded
    next => cases decoded
    next => exact ⟨(decodeFields data 0).2, Prod.ext decoded rfl⟩
  rw [decodeFields_eq] at ran
  obtain ⟨header, middle, headerRan, ran⟩ := bind_eq_ok ran
  have headerWhole : data ++ more =
      [] ++ encodeHeader event ++ (encodeRowData event.after ++ encodeRowData event.before) := whole
  obtain ⟨rfl, rfl, headerInside⟩ :=
    decodeHeader_stable.cut (decodeHeader_reads fits) headerWhole bound (Nat.zero_le _) headerRan
  obtain ⟨after, middle, afterRan, ran⟩ := bind_eq_ok ran
  obtain ⟨before, _, beforeRan, ran⟩ := bind_eq_ok ran
  cases ran
  simp only [List.nil_append] at headerInside afterRan
  have afterWhole : data ++ more =
      encodeHeader event ++ encodeRowData event.after ++ encodeRowData event.before := by simpa using whole
  obtain ⟨atHeader, rfl, rfl⟩ | ⟨rfl, rfl, afterInside⟩ :=
    decodeRowData_cut afterFits afterWhole bound headerInside afterRan
  · -- the second row image is looked for at the same place
    rw [decodeRowData_run, if_pos (by rw [atHeader])] at beforeRan
    cases beforeRan
    exact .inl ⟨atHeader, rfl⟩
  · have beforeWhole : data ++ more = encodeHeader event ++ encodeRowData event.after ++
        encodeRowData event.before ++ [] := by simpa using whole
    obtain ⟨atAfter, rfl, rfl⟩ | ⟨rfl, rfl, complete⟩ :=
      decodeRowData_cut beforeFits beforeWhole bound afterInside beforeRan
    · exact .inr ⟨atAfter, rfl⟩
    · -- a complete second row image leaves nothing to cut off
      have lengths := congrArg List.length afterWhole
      have positive := List.length_pos_iff.mpr proper
      rw [List.length_append] at lengths
      omega

theorem decodeEvent_encodeHeader {event : ChangeEvent} (fits : event.Fits) :
    decodeEvent (encodeHeader event) = .ok { event with after := none, before := none } := by
  -- in front of both row images the buffer may end, and they are taken for absent
  have bound := encodeEvent_length fits
  rw [encodeEvent_eq, List.length_append] at bound
  have ended := decodeRowData_end (encodeHeader event)
  have decoded := decodeEvent_of_rows fits [] (by simpa using by omega)
    (by simpa using ended) (by simpa using ended)
  simpa using decoded

theorem decodeEvent_without_before {event : ChangeEvent} (fits : event.Fits) :
    decodeEvent (encodeHeader event ++ encodeRowData event.after) = .ok { event with before := none } := by
  have bound := encodeEvent_length fits
  rw [encodeEvent_eq, ← List.append_assoc, List.length_append] at bound
  have afterRan := decodeRowData_reads fits.2.2.1 (encodeHeader event) []
    (by simpa only [List.append_nil] using by omega)
  rw [List.append_nil] at afterRan
  exact decodeEvent_of_rows fits _ (by omega) afterRan (decodeRowData_end _)

/-- A cut event is read as itself or not at all, unless the cut falls where a row image
    should begin and drops one that is there. -/
theorem cut_event_not_misread_iff (event : ChangeEvent) (fits : event.Fits) (data : List UInt8)
    (isPrefix : data <+: encodeEvent event) (proper : data ≠ encodeEvent event) :
    (∀ result, decodeEvent data = .ok result → result = event) ↔
      (data = encodeHeader event → event.after = none ∧ event.before = none) ∧
        (data = encodeHeader event ++ encodeRowData event.after → event.before = none) := by
  obtain ⟨more, whole⟩ := isPrefix
  have nonempty : more ≠ [] := by
    rintro rfl
    exact proper (by simpa using whole)
  constructor
  · intro exact_
    constructor
    · rintro rfl
      have same := exact_ _ (decodeEvent_encodeHeader fits)
      exact ⟨(congrArg ChangeEvent.after same).symm, (congrArg ChangeEvent.before same).symm⟩
    · rintro rfl
      have same := exact_ _ (decodeEvent_without_before fits)
      exact (congrArg ChangeEvent.before same).symm
  · rintro ⟨noRows, noBefore⟩ result decoded
    obtain ⟨atHeader, rfl⟩ | ⟨atAfter, rfl⟩ := decodeEvent_cut fits whole nonempty decoded
    · obtain ⟨noAfter, noBefore⟩ := noRows atHeader
      cases event with
      | mk lsn xid op table schemaFingerprint after before commitTimestampUs =>
        cases noAfter
        cases noBefore
        rfl
    · rw [← noBefore atAfter]

/-- Cut in front of its row images, an insert is read as one without a row. -/
theorem cut_insert_loses_row :
    (orderInsert 7 1).Fits ∧ encodeHeader (orderInsert 7 1) <+: encodeEvent (orderInsert 7 1) ∧
      encodeHeader (orderInsert 7 1) ≠ encodeEvent (orderInsert 7 1) ∧
      ∃ result, decodeEvent (encodeHeader (orderInsert 7 1)) = .ok result ∧ result ≠ orderInsert 7 1 :=
  ⟨by decide, by decide, by decide, { orderInsert 7 1 with after := none }, by decide, by decide⟩

/-- Cut inside its row image it is not read as another event. -/
theorem cut_insert_row_not_misread :
    (encodeEvent (orderInsert 7 1)).take 46 ≠ encodeEvent (orderInsert 7 1) ∧
      ¬ ∃ result, decodeEvent ((encodeEvent (orderInsert 7 1)).take 46) = .ok result ∧
        result ≠ orderInsert 7 1 := by
  refine ⟨by decide, ?_⟩
  rintro ⟨result, decoded, different⟩
  exact different ((cut_event_not_misread_iff (orderInsert 7 1) (by decide) _ (List.take_prefix _ _)
    (by decide)).mpr (by decide) result decoded)

end Nendi.Verified
