import Nendi.Pgsql.Protocol

/-! # The decoder understands every well-formed stream

On a stream of relation and row messages in which rows follow a relation message
for their OID, the decoder returns nothing for a relation message and, for a row,
the change it reports against the latest relation message.  The readers are
matched with the parts of the wire format by `Reads`; over the stream the
relation table holds the metadata of the latest relation messages. -/

namespace Nendi.Verified

open Nendi.Lib Nendi.Shared Nendi.Pgsql Nendi.Pgsql.Protocol
open Nendi.Lib.CursorM

/-! ## Wire-format helpers -/

theorem readU8_reads (byte : UInt8) : Reads readU8 [byte] byte :=
  Reads.requireByte_bind (List.cons_ne_nil _ _) (Reads.takeByte byte)

theorem readBytes_reads {count : Nat} {bytes : List UInt8} (length : bytes.length = count) :
    Reads (readBytes count) bytes bytes :=
  Reads.require_bind (Nat.le_of_eq length.symm) (Reads.take length)

theorem readU16_reads (value : UInt16) : Reads readU16 value.toBeBytes value := by
  have reads := (readBytes_reads value.toBeBytes_length).map UInt16.ofBeBytes
  rwa [UInt16.ofBeBytes_toBeBytes] at reads

theorem readU32_reads (value : UInt32) : Reads readU32 value.toBeBytes value := by
  have reads := (readBytes_reads value.toBeBytes_length).map UInt32.ofBeBytes
  rwa [UInt32.ofBeBytes_toBeBytes] at reads

@[simp] theorem utf8_utf8Bytes (text : String) : utf8 (utf8Bytes text) = pure text := by
  rw [utf8, fromUtf8_utf8Bytes]

theorem readCString_reads (name : CName) : Reads readCString name.serialise name.text := by
  intro before after bound
  have kept : ∀ value ∈ utf8Bytes name.text, (value != 0) = true := by
    intro value member
    exact bne_iff_ne.mpr fun isNul => name.noNul (isNul ▸ member)
  have whole : before ++ name.serialise ++ after = before ++ (utf8Bytes name.text ++ 0 :: after) := by
    simp [CName.serialise]
  have stop : stopAt (· != 0) (before ++ (utf8Bytes name.text ++ 0 :: after)) before.length =
      before.length + (utf8Bytes name.text).length := stopAt_append rfl before _ after kept
  rw [whole, readCString, bind_ok (position_run _ _), bind_ok (skipWhile_run _ _ _), stop, bind_run,
    requireByte_run, if_neg (by simp)]
  dsimp only
  rw [bind_ok (position_run _ _), bind_ok (range_run (by omega) (by simp))]
  -- between the start of the scan and the terminator lies the name
  have between : ((before ++ (utf8Bytes name.text ++ 0 :: after)).drop before.length).take
      (before.length + (utf8Bytes name.text).length - before.length) = utf8Bytes name.text := by simp
  rw [between, utf8_utf8Bytes, pure_bind, bind_ok (advance_run _ _ _)]
  simp [CName.serialise, Nat.add_assoc]

/-! ## Tuples -/

theorem counted_reads {α : Type} {bytes : List UInt8} (short : bytes.length < 2 ^ 32)
    {error : Nat → DecodeError} {next : UInt32 → List UInt8 → CursorM DecodeError α} {result : α}
    (continues : Reads (next (UInt32.ofNat bytes.length) bytes) bytes result) :
    Reads (do
      let len ← readU32
      require len.toNat error
      let bytes ← slice len.toNat
      next len bytes) (counted bytes) result := by
  -- a counted value passes the boundary check and is looked at before the cursor moves
  have length : bytes.length = (UInt32.ofNat bytes.length).toNat :=
    (UInt32.toNat_ofNat_of_lt' short).symm
  have sliced : Reads (slice (UInt32.ofNat bytes.length).toNat >>=
      next (UInt32.ofNat bytes.length)) (bytes ++ []) result :=
    Reads.slice_bind length (by rwa [List.append_nil])
  rw [List.append_nil] at sliced
  exact (readU32_reads _).bind (Reads.require_bind (Nat.le_of_eq length.symm) sliced)

theorem advance_reads {α : Type} {count : Nat} {bytes : List UInt8} (length : bytes.length = count)
    (result : α) :
    Reads (do advance count; pure result : CursorM DecodeError α) bytes result := by
  have moved : Reads (do advance count; pure result : CursorM DecodeError α) (bytes ++ []) result :=
    Reads.advance_bind length (Reads.pure result)
  rwa [List.append_nil] at moved

theorem hexByte_eq (byte : UInt8) :
    hexByte byte = [hexDigit (byte.toNat / 16), hexDigit (byte.toNat % 16)] := by
  have digits : ∀ value < 256, (Nat.toDigits 16 value).leftpad 2 '0' =
      [hexDigit (value / 16), hexDigit (value % 16)] := by decide +kernel
  exact digits byte.toNat byte.toNat_lt

theorem hexEncode_eq (bytes : List UInt8) : "\\x" ++ hexEncode bytes = hexText bytes := by
  have pairs : hexByte = fun byte => [hexDigit (byte.toNat / 16), hexDigit (byte.toNat % 16)] :=
    funext hexByte_eq
  rw [hexEncode, hexText, pairs]
  apply String.toList_inj.mp
  simp

def shownAt (columns : List ColumnMeta) (place : Nat) (value : Option String) : ColumnValue where
  name := ((columns[place]?).map ColumnMeta.name).getD s!"col_{place}"
  typeOid := ((columns[place]?).map ColumnMeta.typeOid).getD 0
  value

theorem column_shownAt (relation : Relation) (place : Nat) (datum : Datum) :
    relation.column place datum = shownAt relation.info.columns place datum.shown := by
  unfold Relation.column Relation.info shownAt
  rw [List.getElem?_map]
  cases relation.columns[place]? with
  | none => rfl
  | some column => rfl

theorem decodeTupleColumn_bare (columns : List ColumnMeta) (place : Nat) {tag : UInt8}
    (noBody : tag ≠ 't'.toUInt8 ∧ tag ≠ 'b'.toUInt8) :
    Reads (decodeTupleColumn columns place) [tag] (shownAt columns place none) := by
  apply (readU8_reads tag).bind
  simp only [noBody.1, noBody.2, if_false]
  split
  · exact Reads.pure _
  · split
    · exact Reads.pure _
    · exact Reads.pure _

theorem decodeTupleColumn_text (columns : List ColumnMeta) (place : Nat) {body : List UInt8} {text : String}
    (short : body.length < 2 ^ 32) (isText : fromUtf8 body = some text) :
    Reads (decodeTupleColumn columns place) ('t'.toUInt8 :: counted body)
      (shownAt columns place (some text)) := by
  apply (readU8_reads 't'.toUInt8).bind
  apply counted_reads short
  rw [utf8, isText]
  exact advance_reads (UInt32.toNat_ofNat_of_lt' short).symm _

theorem decodeTupleColumn_binary (columns : List ColumnMeta) (place : Nat) {body : List UInt8}
    (short : body.length < 2 ^ 32) :
    Reads (decodeTupleColumn columns place) ('b'.toUInt8 :: counted body)
      (shownAt columns place (some (hexText body))) := by
  apply (readU8_reads 'b'.toUInt8).bind
  apply counted_reads short
  rw [← hexEncode_eq]
  exact advance_reads (UInt32.toNat_ofNat_of_lt' short).symm _

theorem decodeTupleColumn_reads (relation : Relation) (place : Nat) (datum : Datum) :
    Reads (decodeTupleColumn relation.info.columns place) datum.serialise
      (relation.column place datum) := by
  rw [column_shownAt]
  cases datum with
  | null => exact decodeTupleColumn_bare _ place (by decide)
  | unchanged => exact decodeTupleColumn_bare _ place (by decide)
  | text value short => exact decodeTupleColumn_text _ place short (fromUtf8_utf8Bytes value)
  | binary bytes short => exact decodeTupleColumn_binary _ place short

theorem decodeTupleData_reads (relation : Relation) (tuple : Tuple) :
    Reads (decodeTupleData relation.info.columns) tuple.serialise (relation.row tuple) := by
  have count : (UInt16.ofNat tuple.data.length).toNat = tuple.data.length :=
    UInt16.toNat_ofNat_of_lt' tuple.counted
  have loop : Reads (collect (decodeTupleColumn relation.info.columns) 0 tuple.data.length)
      (tuple.data.flatMap Datum.serialise) (tuple.data.mapIdx fun place datum =>
        relation.column (0 + place) datum) :=
    Reads.collect relation.column tuple.data 0 fun place datum _ =>
      decodeTupleColumn_reads relation (0 + place) datum
  simp only [Nat.zero_add] at loop
  apply (readU16_reads _).bind
  rw [count]
  exact loop.map fun columns => ({ columns } : RowData)

/-! ## Relations -/

theorem readColumnMeta_reads (column : ColumnDef) :
    Reads readColumnMeta column.serialise column.info := by
  apply (readU8_reads column.flags).bind
  apply (readCString_reads column.name).bind
  apply (readU32_reads column.typeOid).bind
  exact (readU32_reads column.typeModifier).map fun _ => _

theorem readRelation_reads (relation : Relation) :
    Reads readRelation relation.body (relation.oid, relation.info) := by
  have count : (UInt16.ofNat relation.columns.length).toNat = relation.columns.length :=
    UInt16.toNat_ofNat_of_lt' relation.counted
  have loop : Reads (collect (fun _ => readColumnMeta) 0 relation.columns.length)
      (relation.columns.flatMap ColumnDef.serialise) relation.info.columns :=
    Reads.collect_map ColumnDef.info relation.columns fun column _ => readColumnMeta_reads column
  apply (readU32_reads relation.oid).bind
  apply (readCString_reads relation.schema).bind
  apply (readCString_reads relation.table).bind
  apply (readU8_reads relation.identity).bind
  apply (readU16_reads _).bind
  rw [count]
  exact loop.map fun columns => (relation.oid,
    { relation.info with columns })

/-! ## One message -/

theorem outcome_of_reads_append {α : Type} {reader : CursorM DecodeError α} {bytes rest : List UInt8}
    {value : α} (reads : Reads reader bytes value) (sized : (bytes ++ rest).length ≤ isizeMax) :
    PgOutputDecoder.outcome reader (bytes ++ rest) = .ok value := by
  have ran := reads [] rest (by simpa using sized)
  simp only [List.nil_append, List.length_nil] at ran
  rw [PgOutputDecoder.outcome, ran]

theorem outcome_of_reads {α : Type} {reader : CursorM DecodeError α} {payload : List UInt8} {value : α}
    (reads : Reads reader payload value) (sized : payload.length ≤ isizeMax) :
    PgOutputDecoder.outcome reader payload = .ok value := by
  rw [← List.append_nil payload] at sized ⊢
  exact outcome_of_reads_append reads sized

variable (hasher : List UInt8 → UInt64) {decoder : PgOutputDecoder}

theorem relation_reads {oid : UInt32} {info : RelationInfo}
    (known : decoder.relations.lookup oid = some info) : Reads (decoder.relation oid) [] info := by
  rw [PgOutputDecoder.relation, known]
  exact Reads.pure info

/-! Each row reader over whatever its tuples are read from. -/

section Tuples

variable {oid : UInt32} {info : RelationInfo} (known : decoder.relations.lookup oid = some info) (lsn : UInt64)
include known

theorem decodeInsert_of_tuple {bytes : List UInt8} {after : RowData}
    (reads : Reads (decodeTupleData info.columns) bytes after) :
    Reads (decoder.decodeInsert hasher lsn) (oid.toBeBytes ++ 'N'.toUInt8 :: bytes)
      (some (relationEvent hasher lsn info .insert (some after) none)) := by
  apply (readU32_reads oid).bind
  apply (readU8_reads 'N'.toUInt8).bind
  apply (relation_reads known).bind
  exact reads.map fun after => some (relationEvent hasher lsn info .insert (some after) none)

theorem decodeUpdate_of_tuples {head bytes : List UInt8} {before : Option RowData} {after : RowData}
    (headReads : Reads (PgOutputDecoder.readOldTuple info.columns) head before)
    (reads : Reads (decodeTupleData info.columns) bytes after) :
    Reads (decoder.decodeUpdate hasher lsn) (oid.toBeBytes ++ (head ++ bytes))
      (some (relationEvent hasher lsn info .update (some after) before)) := by
  apply (readU32_reads oid).bind
  apply (relation_reads known).bind
  apply headReads.bind
  exact reads.map fun after => some (relationEvent hasher lsn info .update (some after) before)

theorem decodeDelete_of_tuple (tag : UInt8) {bytes : List UInt8} {before : RowData}
    (reads : Reads (decodeTupleData info.columns) bytes before) :
    Reads (decoder.decodeDelete hasher lsn) (oid.toBeBytes ++ tag :: bytes)
      (some (relationEvent hasher lsn info .delete none (some before))) := by
  apply (readU32_reads oid).bind
  apply (relation_reads known).bind
  apply (readU8_reads tag).bind
  exact reads.map fun before => some (relationEvent hasher lsn info .delete none (some before))

end Tuples

theorem oldTag_byte (tag : OldTag) : tag.byte = 'K'.toUInt8 ∨ tag.byte = 'O'.toUInt8 := by
  cases tag with
  | key => exact .inl rfl
  | old => exact .inr rfl

theorem readOldTuple_none (columns : List ColumnMeta) {newTag : UInt8}
    (noOld : newTag ≠ 'K'.toUInt8 ∧ newTag ≠ 'O'.toUInt8) :
    Reads (PgOutputDecoder.readOldTuple columns) [newTag] none := by
  -- without an old tuple the tag read is that of the new one
  apply (readU8_reads newTag).bind
  rw [if_neg (not_or.mpr noOld)]
  exact Reads.pure none

theorem readOldTuple_some {columns : List ColumnMeta} (tag : OldTag) (newTag : UInt8) {bytes : List UInt8}
    {before : RowData} (reads : Reads (decodeTupleData columns) bytes before) :
    Reads (PgOutputDecoder.readOldTuple columns) (tag.byte :: (bytes ++ [newTag])) (some before) := by
  -- both old tags announce an old tuple; the tag of the new one is skipped behind it
  apply (readU8_reads tag.byte).bind
  rw [if_pos (oldTag_byte tag)]
  apply reads.bind
  exact (readU8_reads newTag).map fun _ => some before

/-- What an update carries between the OID and the body of the new tuple. -/
def updateHead : Option (OldTag × Tuple) → List UInt8
  | none => ['N'.toUInt8]
  | some (tag, old) => oldTuple tag old ++ ['N'.toUInt8]

theorem readOldTuple_reads (relation : Relation) (old : Option (OldTag × Tuple)) :
    Reads (PgOutputDecoder.readOldTuple relation.info.columns) (updateHead old)
      (old.map fun old => relation.row old.2) := by
  cases old with
  | none => exact readOldTuple_none _ (by decide)
  | some old => exact readOldTuple_some old.1 'N'.toUInt8 (decodeTupleData_reads relation old.2)

theorem update_serialise (oid : UInt32) (old : Option (OldTag × Tuple)) (new : Tuple) :
    (Message.update oid old new).serialise =
      'U'.toUInt8 :: (oid.toBeBytes ++ (updateHead old ++ new.serialise)) := by
  cases old with
  | none => rfl
  | some old => simp [Message.serialise, updateHead, newTuple]

theorem decode_relation_message {data : Bytes} {relation : Relation} (lsn : UInt64)
    (written : data.toList = (Message.relation relation).serialise) :
    decoder.decode hasher lsn data =
      (.ok none, ⟨decoder.relations.insert relation.oid relation.info⟩) := by
  have read := outcome_of_reads (readRelation_reads relation) (Bytes.payload_le written)
  rw [PgOutputDecoder.outcome] at read
  rw [PgOutputDecoder.decode, written]
  change ((decoder.decodeRelation relation.body).1.map fun _ => none,
    (decoder.decodeRelation relation.body).2) = _
  rw [PgOutputDecoder.decodeRelation, read]
  rfl

/-- A row of a known relation is decoded and leaves the decoder as it was. -/
theorem decode_row_message {data : Bytes} {message : Message} {oid : UInt32} {relation : Relation}
    (lsn : UInt64) (written : data.toList = message.serialise) (isRow : message.rowOid = some oid)
    (known : decoder.relations.lookup oid = some relation.info) :
    decoder.decode hasher lsn data = (.ok (message.event hasher lsn relation), decoder) := by
  cases message with
  | relation announced => cases isRow
  | insert rowOid new =>
    cases isRow
    have read := outcome_of_reads (decodeInsert_of_tuple hasher known lsn (decodeTupleData_reads relation new))
      (Bytes.payload_le written)
    rw [PgOutputDecoder.decode, written]
    exact Prod.ext read rfl
  | update rowOid old new =>
    cases isRow
    rw [update_serialise] at written
    have read := outcome_of_reads (decodeUpdate_of_tuples hasher known lsn (readOldTuple_reads relation old)
      (decodeTupleData_reads relation new)) (Bytes.payload_le written)
    rw [PgOutputDecoder.decode, written]
    exact Prod.ext read rfl
  | delete rowOid tag old =>
    cases isRow
    have read := outcome_of_reads (decodeDelete_of_tuple hasher known lsn tag.byte
      (decodeTupleData_reads relation old)) (Bytes.payload_le written)
    rw [PgOutputDecoder.decode, written]
    exact Prod.ext read rfl

/-! ## Whole streams -/

def afterFrames (frames : List Frame) : PgOutputDecoder :=
  frames.foldl (fun decoder frame => (decoder.decode hasher frame.lsn frame.data).2) .new

/-- The relation table holds the metadata of the latest relation messages. -/
def Tracks (decoder : PgOutputDecoder) (past : List Message) : Prop :=
  ∀ oid, decoder.relations.lookup oid = (latest past oid).map Relation.info

theorem Tracks.lookup {past : List Message} (tracks : Tracks decoder past) {oid : UInt32}
    {relation : Relation} (isLatest : latest past oid = some relation) :
    decoder.relations.lookup oid = some relation.info := by
  rw [tracks oid, isLatest]
  rfl

theorem tracks_step {past : List Message} (tracks : Tracks decoder past) (frame : Frame)
    (known : ∀ oid ∈ frame.message.rowOid, ∃ relation, latest past oid = some relation) :
    Tracks (decoder.decode hasher frame.lsn frame.data).2 (past ++ [frame.message]) := by
  obtain ⟨lsn, message, data, written⟩ := frame
  dsimp only at known ⊢
  intro oid
  cases isRow : message.rowOid with
  | none =>
    -- a relation message replaces the entry of its own OID only
    obtain ⟨announced, rfl⟩ := Message.rowOid_eq_none isRow
    rw [decode_relation_message hasher lsn written, latest_relation]
    by_cases same : announced.oid = oid
    · subst same
      rw [AList.lookup_insert, if_pos rfl]
      rfl
    · rw [AList.lookup_insert_ne fun equal => same equal.symm, if_neg same]
      exact tracks oid
  | some rowOid =>
    obtain ⟨relation, isLatest⟩ := known rowOid isRow
    rw [decode_row_message hasher lsn written isRow (tracks.lookup isLatest), latest_row past isRow]
    exact tracks oid

theorem latest_of_split {stream past later : List Frame} {frame : Frame}
    (announced : Announced (stream.map Frame.message)) (split : stream = past ++ frame :: later) :
    ∀ oid ∈ frame.message.rowOid, ∃ relation, latest (past.map Frame.message) oid = some relation := by
  -- a row's relation has been announced, so there is a latest one
  intro oid isRow
  obtain ⟨relation, member, rfl⟩ := announced (past.map Frame.message) frame.message
    (later.map Frame.message) (by rw [split]; simp) oid isRow
  exact latest_of_announced member

theorem tracks_run {stream past later : List Frame}
    (announced : Announced (stream.map Frame.message)) (split : stream = past ++ later) :
    Tracks (afterFrames hasher past) (past.map Frame.message) := by
  induction past using List.reverseRecOn generalizing later with
  | nil =>
    intro oid
    rfl
  | append_singleton past frame inductionHypothesis =>
    rw [List.append_assoc] at split
    have step := tracks_step hasher (inductionHypothesis split) frame (latest_of_split announced split)
    rw [List.map_append, afterFrames, List.foldl_append]
    exact step

/-- On every stream in which rows follow a relation message for their OID, the
    decoder returns nothing for a relation message and the reported change for a
    row, read against the latest relation message. -/
theorem decode_well_formed_stream (stream : List Frame)
    (announced : Announced (stream.map Frame.message)) (past : List Frame) (frame : Frame)
    (later : List Frame) (split : stream = past ++ frame :: later) :
    match frame.message.rowOid with
    | none => ((afterFrames hasher past).decode hasher frame.lsn frame.data).1 = .ok none
    | some oid => ∃ relation, latest (past.map Frame.message) oid = some relation ∧
        ((afterFrames hasher past).decode hasher frame.lsn frame.data).1 =
          .ok (frame.message.event hasher frame.lsn relation) := by
  have tracks := tracks_run hasher announced split
  have known := latest_of_split announced split
  obtain ⟨lsn, message, data, written⟩ := frame
  dsimp only at known ⊢
  cases isRow : message.rowOid with
  | none =>
    obtain ⟨announced, rfl⟩ := Message.rowOid_eq_none isRow
    rw [decode_relation_message hasher lsn written]
  | some oid =>
    obtain ⟨relation, isLatest⟩ := known oid isRow
    rw [decode_row_message hasher lsn written isRow (tracks.lookup isLatest)]
    exact ⟨relation, isLatest, rfl⟩

theorem public_noNul : 0 ∉ utf8Bytes "public" := by decide

theorem codes_noNul : 0 ∉ utf8Bytes "codes" := by decide

def codesRelation : Frame where
  lsn := 1
  message := .relation
    { oid := 7
      schema := ⟨"public", public_noNul⟩
      table := ⟨"codes", codes_noNul⟩
      identity := 'd'.toUInt8
      columns := [{ flags := 1, name := ⟨"code", by decide⟩, typeOid := 25, typeModifier := 0 }]
      counted := by decide }
  data := ⟨_, by decide⟩
  written := rfl

/-- A row of `public.codes` with one column more than announced. -/
def codesInsert : Frame where
  lsn := 2
  message := .insert 7 { data := [.text "a" (by decide), .binary [0x0f] (by decide)], counted := by decide }
  data := ⟨_, by decide⟩
  written := rfl

theorem decode_well_formed_stream_codes :
    ∃ relation, latest [codesRelation.message] 7 = some relation ∧
      ((afterFrames (fun _ => 0) [codesRelation]).decode (fun _ => 0) 2 codesInsert.data).1 =
        .ok (codesInsert.message.event (fun _ => 0) 2 relation) := by
  have announced : Announced ([codesRelation, codesInsert].map Frame.message) := by
    intro past message later split oid isRow
    match past with
    | [] =>
      cases split
      cases isRow
    | [_] =>
      cases split
      cases isRow
      exact ⟨_, List.mem_singleton.mpr rfl, rfl⟩
    | _ :: _ :: _ => simp at split
  exact decode_well_formed_stream (fun _ => 0) [codesRelation, codesInsert] announced [codesRelation]
    codesInsert [] rfl

end Nendi.Verified
