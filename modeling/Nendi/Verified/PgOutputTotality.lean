import Nendi.Pgsql.PgOutput

/-! # The pgoutput decoder is total

Whatever the bytes and the relations announced so far, no reader indexes or
slices the message out of range, and every cursor a reader leaves behind, also
with an error, lies inside the payload.  Each reader is taken apart with the
rules of `TotalWith`: a guard provides the bytes that the unguarded accesses
behind it need. -/

namespace Nendi.Verified

open Nendi.Lib Nendi.Shared Nendi.Pgsql
open Nendi.Lib.CursorM

/-! ## Wire-format helpers -/

theorem readU8_total : Total readU8 :=
  TotalWith.requireByte_bind TotalWith.takeByte

theorem readBytes_total {count : Nat} (small : count ≤ isizeMax) : Total (readBytes count) :=
  TotalWith.require_bind small (TotalWith.take count)

theorem readU16_total : Total readU16 :=
  (readBytes_total (by decide)).bind fun _ => TotalWith.pure _

theorem readU32_total : Total readU32 :=
  (readBytes_total (by decide)).bind fun _ => TotalWith.pure _

theorem utf8_bind_total {α : Type} {ahead : Nat} {next : String → CursorM DecodeError α}
    (bytes : List UInt8) (continues : ∀ text, TotalWith ahead (next text)) :
    TotalWith ahead (utf8 bytes >>= next) := by
  -- a UTF-8 check looks at bytes already sliced and leaves the cursor alone
  unfold utf8
  cases fromUtf8 bytes with
  | none => exact TotalWith.fail _
  | some text => exact continues text

theorem readCString_total : Total readCString := by
  intro data pos sized inside
  have forward := le_stopAt (· != 0) data pos
  have stays := stopAt_le_length (· != 0) data pos inside
  rw [readCString, bind_ok (position_run data pos), bind_ok (skipWhile_run _ data pos), bind_run,
    requireByte_run]
  by_cases unterminated : stopAt (· != 0) data pos ≥ data.length
  · rw [if_pos unterminated]
    exact ⟨by simp, stays⟩
  · rw [if_neg unterminated]
    dsimp only
    rw [bind_ok (position_run data _), bind_ok (range_run forward stays)]
    -- the terminator is still ahead when the cursor moves past it
    have terminator : TotalWith 1 (utf8 ((data.drop pos).take (stopAt (· != 0) data pos - pos)) >>=
        fun text => advance 1 >>= fun _ => pure text) :=
      utf8_bind_total _ fun text => TotalWith.advance_bind (TotalWith.pure text)
    exact terminator data _ sized (Nat.not_le.mp unterminated)

theorem u32_le_isizeMax (len : UInt32) : len.toNat ≤ isizeMax := by
  have bound := len.toNat_lt
  unfold isizeMax
  omega

theorem decodeTupleColumn_total (columns : List ColumnMeta) (place : Nat) :
    Total (decodeTupleColumn columns place) := by
  apply readU8_total.bind
  intro colTag
  apply TotalWith.ite (TotalWith.pure _)
  apply TotalWith.ite (TotalWith.pure _)
  apply TotalWith.ite
  · apply readU32_total.bind
    intro len
    apply TotalWith.require_bind (u32_le_isizeMax len)
    apply TotalWith.slice_bind
    intro bytes
    apply utf8_bind_total
    intro value
    exact TotalWith.advance_bind (TotalWith.pure _)
  apply TotalWith.ite
  · apply readU32_total.bind
    intro len
    apply TotalWith.require_bind (u32_le_isizeMax len)
    apply TotalWith.slice_bind
    intro bytes
    exact TotalWith.advance_bind (TotalWith.pure _)
  · exact TotalWith.pure _

theorem decodeTupleData_total (columns : List ColumnMeta) : Total (decodeTupleData columns) := by
  apply readU16_total.bind
  intro nCols
  apply (TotalWith.collect nCols.toNat 0 fun place => decodeTupleColumn_total columns place).bind
  intro result
  exact TotalWith.pure _

/-! ## Messages -/

theorem decodeBegin_total : Total decodeBegin := by
  intro data pos sized inside
  rw [decodeBegin, bind_ok (size_run data pos)]
  by_cases short : data.length < 20
  · rw [if_pos short]
    exact TotalWith.fail _ data pos sized inside
  · rw [if_neg short, bind_ok (range_run (by decide) (by omega)), bind_ok (range_run (by decide) (by omega)),
      bind_ok (range_run (by decide) (by omega))]
    exact TotalWith.pure _ data pos sized inside

theorem decodeCommit_total : Total decodeCommit := by
  intro data pos sized inside
  rw [decodeCommit, bind_ok (size_run data pos)]
  by_cases short : data.length < 25
  · rw [if_pos short]
    exact TotalWith.fail _ data pos sized inside
  · rw [if_neg short, bind_ok (range_run (by decide) (by omega))]
    exact TotalWith.pure _ data pos sized inside

theorem readColumnMeta_total : Total readColumnMeta := by
  apply readU8_total.bind
  intro flags
  apply readCString_total.bind
  intro name
  apply readU32_total.bind
  intro typeOid
  apply readU32_total.bind
  intro typeModifier
  exact TotalWith.pure _

theorem readRelation_total : Total readRelation := by
  apply readU32_total.bind
  intro relId
  apply readCString_total.bind
  intro schema
  apply readCString_total.bind
  intro table
  apply readU8_total.bind
  intro replica
  apply readU16_total.bind
  intro nCols
  apply (TotalWith.collect nCols.toNat 0 fun _ => readColumnMeta_total).bind
  intro columns
  exact TotalWith.pure _

variable (hasher : List UInt8 → UInt64) (decoder : PgOutputDecoder) (lsn : UInt64)

theorem relation_total (relId : UInt32) : Total (decoder.relation relId) := by
  unfold PgOutputDecoder.relation
  cases decoder.relations.lookup relId with
  | none => exact TotalWith.fail _
  | some rel => exact TotalWith.pure _

theorem decodeInsert_total : Total (decoder.decodeInsert hasher lsn) := by
  apply readU32_total.bind
  intro relId
  apply readU8_total.bind
  intro tag
  apply TotalWith.ite (TotalWith.fail _)
  apply (relation_total decoder relId).bind
  intro rel
  apply (decodeTupleData_total rel.columns).bind
  intro after
  exact TotalWith.pure _

theorem readOldTuple_total (columns : List ColumnMeta) :
    Total (PgOutputDecoder.readOldTuple columns) := by
  apply readU8_total.bind
  intro tag
  apply TotalWith.ite
  · apply (decodeTupleData_total columns).bind
    intro before
    apply readU8_total.bind
    intro newTag
    exact TotalWith.pure _
  · exact TotalWith.pure _

theorem decodeUpdate_total : Total (decoder.decodeUpdate hasher lsn) := by
  apply readU32_total.bind
  intro relId
  apply (relation_total decoder relId).bind
  intro rel
  apply (readOldTuple_total rel.columns).bind
  intro before
  apply (decodeTupleData_total rel.columns).bind
  intro after
  exact TotalWith.pure _

theorem decodeDelete_total : Total (decoder.decodeDelete hasher lsn) := by
  apply readU32_total.bind
  intro relId
  apply (relation_total decoder relId).bind
  intro rel
  apply readU8_total.bind
  intro tag
  apply (decodeTupleData_total rel.columns).bind
  intro before
  exact TotalWith.pure _

theorem decodeTruncate_total : Total (decoder.decodeTruncate hasher lsn) := by
  apply readU32_total.bind
  intro nRels
  apply readU8_total.bind
  intro options
  apply TotalWith.ite
  · apply readU32_total.bind
    intro relId
    cases decoder.relations.lookup relId with
    | none => exact TotalWith.pure _
    | some rel => exact TotalWith.pure _
  · exact TotalWith.pure _

/-! ## The decoder -/

theorem outcome_ne_panic {α : Type} {reader : CursorM DecodeError α} (total : Total reader)
    {payload : List UInt8} (sized : payload.length ≤ isizeMax) :
    PgOutputDecoder.outcome reader payload ≠ .error .panic :=
  (total payload 0 sized (Nat.zero_le _)).1

theorem map_ne_panic {α β : Type} {result : Exec DecodeError α} (noPanic : result ≠ .error .panic)
    (function : α → β) : result.map function ≠ .error .panic := by
  cases result with
  | ok value => exact nofun
  | error fault =>
    intro panicked
    cases panicked
    exact noPanic rfl

theorem decode_ne_panic (data : Bytes) : (decoder.decode hasher lsn data).1 ≠ .error .panic := by
  unfold PgOutputDecoder.decode
  cases split : data.toList with
  | nil => exact nofun
  | cons tag payload =>
    have sized := Bytes.payload_le split
    have relation : (decoder.decodeRelation payload).1 ≠ .error .panic := by
      rw [PgOutputDecoder.decodeRelation_fst]
      exact map_ne_panic (outcome_ne_panic readRelation_total sized) _
    -- one case for each message the decoder reads, in the order of its tags
    dsimp only
    split_ifs
    · exact map_ne_panic (outcome_ne_panic decodeBegin_total sized) _
    · exact map_ne_panic (outcome_ne_panic decodeCommit_total sized) _
    · exact map_ne_panic relation _
    · exact outcome_ne_panic (decodeInsert_total hasher decoder lsn) sized
    · exact outcome_ne_panic (decodeUpdate_total hasher decoder lsn) sized
    · exact outcome_ne_panic (decodeDelete_total hasher decoder lsn) sized
    · exact outcome_ne_panic (decodeTruncate_total hasher decoder lsn) sized
    · exact nofun

/-- On every message, over every set of relations, the decoder returns a value or
    an error; and so does each of its readers on every payload and from every
    cursor inside it, leaving the cursor inside. -/
theorem pgoutput_total :
    (∀ data : Bytes, (decoder.decode hasher lsn data).1 ≠ .error .panic) ∧
      Total decodeBegin ∧ Total decodeCommit ∧ Total readRelation ∧
      Total (decoder.decodeInsert hasher lsn) ∧ Total (decoder.decodeUpdate hasher lsn) ∧
      Total (decoder.decodeDelete hasher lsn) ∧ Total (decoder.decodeTruncate hasher lsn) ∧
      Total readU8 ∧ Total readU16 ∧ Total readU32 ∧ Total readCString ∧
      ∀ columns, Total (decodeTupleData columns) :=
  ⟨decode_ne_panic hasher decoder lsn, decodeBegin_total, decodeCommit_total, readRelation_total,
    decodeInsert_total hasher decoder lsn, decodeUpdate_total hasher decoder lsn,
    decodeDelete_total hasher decoder lsn, decodeTruncate_total hasher decoder lsn, readU8_total,
    readU16_total, readU32_total, readCString_total, decodeTupleData_total⟩

end Nendi.Verified
