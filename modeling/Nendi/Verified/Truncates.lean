import Nendi.Verified.DecoderState
import Nendi.Verified.PgOutputStream

/-! # Truncated tables

A Truncate message lists every table that one statement has emptied, with those reached by
`CASCADE`.  The decoder returns one event for a message, and it reads one OID: of several
tables the first is reported, and none if the first is not known. -/

namespace Nendi.Verified

open Nendi.Lib Nendi.Shared Nendi.Pgsql
open Nendi.Lib.CursorM

structure Truncation where
  options : UInt8
  oids : List UInt32
  counted : oids.length < 2 ^ 32

namespace Truncation

def body (truncation : Truncation) : List UInt8 :=
  (UInt32.ofNat truncation.oids.length).toBeBytes ++
    (truncation.options :: truncation.oids.flatMap UInt32.toBeBytes)

def serialise (truncation : Truncation) : List UInt8 := 'T'.toUInt8 :: truncation.body

end Truncation

variable (hasher : List UInt8 → UInt64)

/-- The event for the first table, if its relation is known. -/
def firstTruncated (known : UInt32 → Option RelationInfo) (lsn : UInt64) (truncation : Truncation) :
    Option ChangeEvent :=
  (truncation.oids.head?.bind known).map fun rel => relationEvent hasher lsn rel .truncate none none

theorem decodeTruncate_outcome (decoder : PgOutputDecoder) (lsn : UInt64) (truncation : Truncation)
    (sized : truncation.body.length ≤ isizeMax) :
    PgOutputDecoder.outcome (decoder.decodeTruncate hasher lsn) truncation.body =
      .ok (firstTruncated hasher decoder.relations.lookup lsn truncation) := by
  obtain ⟨options, oids, counted⟩ := truncation
  cases oids with
  | nil =>
    apply outcome_of_reads _ sized
    exact (readU32_reads 0).bind ((readU8_reads options).bind (Reads.pure none))
  | cons oid rest =>
    have positive : UInt32.ofNat (oid :: rest).length > 0 := by
      rw [gt_iff_lt, UInt32.lt_iff_toNat_lt, UInt32.toNat_ofNat_of_lt' counted]
      exact Nat.zero_lt_succ _
    -- what follows the first OID is left unread
    have split : Truncation.body ⟨options, oid :: rest, counted⟩ =
        ((UInt32.ofNat (oid :: rest).length).toBeBytes ++ ([options] ++ (oid.toBeBytes ++ []))) ++
          rest.flatMap UInt32.toBeBytes := by
      simp [Truncation.body]
    rw [split] at sized ⊢
    refine outcome_of_reads_append ?_ sized
    refine (readU32_reads _).bind ((readU8_reads options).bind ?_)
    rw [if_pos positive]
    refine (readU32_reads oid).bind ?_
    rw [firstTruncated, List.head?_cons, Option.bind_some]
    cases decoder.relations.lookup oid with
    | none => exact Reads.pure none
    | some rel => exact Reads.pure _

theorem decode_truncation (decoder : PgOutputDecoder) (lsn : UInt64) {data : Bytes} {truncation : Truncation}
    (written : data.toList = truncation.serialise) :
    (decoder.decode hasher lsn data).1 = .ok (firstTruncated hasher decoder.relations.lookup lsn truncation) := by
  rw [← decodeTruncate_outcome hasher decoder lsn truncation (Bytes.payload_le written), PgOutputDecoder.decode, written]
  rfl

/-- Whatever has been processed before, well-formed or not: a Truncate message is answered
    with one event for its first table as last announced, and with none if that table has not
    been announced.  The other tables play no part. -/
theorem truncate_reports_first (start : Lsn) (calls : List StreamCall) (position : Nat) (call : StreamCall)
    (truncation : Truncation) (found : calls[position]? = some call)
    (written : call.data.toList = truncation.serialise) :
    (ReplicationStream.processed hasher start calls).2[position]? =
      some (call, .ok (firstTruncated hasher (lastRelation (calls.take position)) call.lsn truncation)) := by
  have known : (ReplicationStream.processed hasher start (calls.take position)).1.decoder.relations.lookup =
      lastRelation (calls.take position) := by
    funext oid
    rw [(remembers_run hasher start _).relations oid, ReplicationStream.processed, trace_actions]
  rw [ReplicationStream.processed, trace_getElem?, found, Option.map_some, ← ReplicationStream.processed,
    processMessage_eq, decode_truncation hasher _ _ written, known]

def codesCall : StreamCall := ⟨1, codesRelation.data⟩

/-- A table that has not been announced, and `public.codes`. -/
def truncateCall : StreamCall := ⟨2, ⟨Truncation.serialise ⟨0, [8, 7], by decide⟩, by decide⟩⟩

theorem lastRelation_codes (oid : UInt32) : (lastRelation [codesCall] oid).isSome ↔ oid = 7 := by
  obtain ⟨relation, isCodes, named⟩ : ∃ relation, codesRelation.message = .relation relation ∧ relation.oid = 7 :=
    ⟨_, rfl, rfl⟩
  have written : codesCall.data.toList = (Protocol.Message.relation relation).serialise := by
    rw [← isCodes]
    exact codesRelation.written
  have announced : announcement codesCall.data = some (relation.oid, relation.info) := by
    have read := outcome_of_reads (readRelation_reads relation) (Bytes.payload_le written)
    simp only [announcement, written, Protocol.Message.serialise, if_true, read]
  simp only [lastRelation, List.filterMap_cons, announced, List.filterMap_nil, named]
  by_cases same : oid = 7
  · simp [same]
  · simp [same, Ne.symm same]

theorem truncate_reports_first_unannounced :
    (lastRelation [codesCall] 7).isSome ∧
      (ReplicationStream.processed (fun _ => 0) 0 [codesCall, truncateCall]).2[1]? = some (truncateCall, .ok none) := by
  refine ⟨(lastRelation_codes 7).mpr rfl, ?_⟩
  have unknown : lastRelation [codesCall] 8 = none := by
    rw [← Option.not_isSome_iff_eq_none, lastRelation_codes]
    decide
  rw [truncate_reports_first (fun _ => 0) 0 [codesCall, truncateCall] 1 truncateCall ⟨0, [8, 7], by decide⟩ rfl rfl]
  show some (truncateCall, Except.ok ((lastRelation [codesCall] 8).map _)) = _
  rw [unknown]
  rfl

end Nendi.Verified
