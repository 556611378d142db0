import Nendi.Pgsql.ReplicationStream
import Nendi.Verified.PgOutputTotality

/-! # The state of a replication stream

Whatever is fed to a stream, and whichever messages it refuses: its relation table
holds for each OID what the last readable relation message said, its position is
that of the last message it accepted, a refused message leaves no trace, and what
it answers to a message depends on the past through one entry of the table only. -/

namespace Nendi.Verified

open Nendi.Lib Nendi.Shared Nendi.Pgsql
open Nendi.Lib.CursorM

/-! ## What a message does to the decoder -/

/-- The relation a message announces: it has the tag `R` and can be read to its end. -/
def announcement (data : Bytes) : Option (UInt32 × RelationInfo) :=
  match data.toList with
  | [] => none
  | tag :: payload =>
    if tag = 'R'.toUInt8 then
      match PgOutputDecoder.outcome readRelation payload with
      | .ok entry => some entry
      | .error _ => none
    else none

variable (hasher : List UInt8 → UInt64) (decoder : PgOutputDecoder) (lsn : UInt64)

theorem decode_cases (data : Bytes) :
    (∃ entry, announcement data = some entry ∧ decoder.decode hasher lsn data =
      (.ok none, ⟨decoder.relations.insert entry.1 entry.2⟩)) ∨
    announcement data = none ∧ (decoder.decode hasher lsn data).2 = decoder := by
  unfold announcement PgOutputDecoder.decode
  cases data.toList with
  | nil => exact .inr ⟨rfl, rfl⟩
  | cons tag payload =>
    by_cases isRelation : tag = 'R'.toUInt8
    · subst isRelation
      simp only [PgOutputDecoder.decodeRelation, PgOutputDecoder.outcome]
      cases (readRelation payload 0).1 with
      | ok entry => exact .inl ⟨entry, rfl, rfl⟩
      | error fault => exact .inr ⟨rfl, rfl⟩
    · refine .inr ⟨if_neg isRelation, ?_⟩
      simp only [isRelation, if_false]
      split_ifs
      all_goals rfl

theorem decode_of_error {data : Bytes} {fault : Fault DecodeError}
    (refused : (decoder.decode hasher lsn data).1 = .error fault) :
    (decoder.decode hasher lsn data).2 = decoder := by
  obtain ⟨entry, _, decoded⟩ | ⟨_, unchanged⟩ := decode_cases hasher decoder lsn data
  · rw [decoded] at refused
    cases refused
  · exact unchanged

/-! ## What an answer depends on -/

def oidAt (place : Nat) (payload : List UInt8) : Option UInt32 :=
  if place + 4 ≤ payload.length then some (UInt32.ofBeBytes ((payload.drop place).take 4)) else none

/-- The OID a message names: of the row it changes, or of the first table it truncates. -/
def namedOid (data : Bytes) : Option UInt32 :=
  match data.toList with
  | [] => none
  | tag :: payload =>
    if tag = 'I'.toUInt8 ∨ tag = 'U'.toUInt8 ∨ tag = 'D'.toUInt8 then oidAt 0 payload
    else if tag = 'T'.toUInt8 then oidAt 5 payload
    else none

theorem readU8_eq_ok {payload : List UInt8} {pos end_ : Nat} {value : UInt8}
    (ran : readU8 payload pos = (.ok value, end_)) : end_ = pos + 1 := by
  obtain ⟨_, _, guarded, took⟩ := bind_eq_ok ran
  cases requireByte_eq_ok guarded
  exact (takeByte_eq_ok took).2

theorem readU32_eq_ok {payload : List UInt8} {pos end_ : Nat} {oid : UInt32}
    (ran : readU32 payload pos = (.ok oid, end_)) : oidAt pos payload = some oid ∧ end_ = pos + 4 := by
  obtain ⟨bytes, _, read, converted⟩ := bind_eq_ok ran
  cases converted
  obtain ⟨_, _, guarded, took⟩ := bind_eq_ok read
  cases require_eq_ok guarded
  obtain ⟨inside, rfl, rfl⟩ := take_eq_ok took
  exact ⟨if_pos inside, rfl⟩

section Agreement

variable {hasher : List UInt8 → UInt64} {first second : PgOutputDecoder} {payload : List UInt8}

theorem behind_oid_congr {α : Type} {next other : UInt32 → CursorM DecodeError α} {pos : Nat}
    (agree : ∀ oid ∈ oidAt pos payload, first.relations.lookup oid = second.relations.lookup oid)
    (same : ∀ oid, first.relations.lookup oid = second.relations.lookup oid → next oid = other oid) :
    (readU32 >>= next) payload pos = (readU32 >>= other) payload pos := by
  apply bind_run_congr
  intro oid middle ran
  rw [same oid (agree oid (readU32_eq_ok ran).1)]

theorem relation_congr {oid : UInt32} (agree : first.relations.lookup oid = second.relations.lookup oid) :
    first.relation oid = second.relation oid := by
  rw [PgOutputDecoder.relation, PgOutputDecoder.relation, agree]

variable (lsn : UInt64)

theorem decodeInsert_congr
    (agree : ∀ oid ∈ oidAt 0 payload, first.relations.lookup oid = second.relations.lookup oid) :
    PgOutputDecoder.outcome (first.decodeInsert hasher lsn) payload =
      PgOutputDecoder.outcome (second.decodeInsert hasher lsn) payload := by
  refine congrArg Prod.fst (behind_oid_congr agree fun oid same => ?_)
  refine congrArg (readU8 >>= ·) (funext fun tag => ?_)
  rw [relation_congr same]

theorem decodeUpdate_congr
    (agree : ∀ oid ∈ oidAt 0 payload, first.relations.lookup oid = second.relations.lookup oid) :
    PgOutputDecoder.outcome (first.decodeUpdate hasher lsn) payload =
      PgOutputDecoder.outcome (second.decodeUpdate hasher lsn) payload := by
  refine congrArg Prod.fst (behind_oid_congr agree fun oid same => ?_)
  rw [relation_congr same]

theorem decodeDelete_congr
    (agree : ∀ oid ∈ oidAt 0 payload, first.relations.lookup oid = second.relations.lookup oid) :
    PgOutputDecoder.outcome (first.decodeDelete hasher lsn) payload =
      PgOutputDecoder.outcome (second.decodeDelete hasher lsn) payload := by
  refine congrArg Prod.fst (behind_oid_congr agree fun oid same => ?_)
  rw [relation_congr same]

theorem decodeTruncate_congr
    (agree : ∀ oid ∈ oidAt 5 payload, first.relations.lookup oid = second.relations.lookup oid) :
    PgOutputDecoder.outcome (first.decodeTruncate hasher lsn) payload =
      PgOutputDecoder.outcome (second.decodeTruncate hasher lsn) payload := by
  -- the OID of a truncation stands behind the number of tables and the options
  apply congrArg Prod.fst
  apply bind_run_congr
  intro nRels _ counted
  obtain ⟨_, rfl⟩ := readU32_eq_ok counted
  apply bind_run_congr
  intro _ _ options
  cases readU8_eq_ok options
  split
  · refine behind_oid_congr agree fun oid same => ?_
    simp only [same]
  · rfl

/-- Over two tables that agree on the OID a message names, it is answered alike. -/
theorem decode_congr {data : Bytes}
    (agree : ∀ oid ∈ namedOid data, first.relations.lookup oid = second.relations.lookup oid) :
    (first.decode hasher lsn data).1 = (second.decode hasher lsn data).1 := by
  unfold namedOid at agree
  unfold PgOutputDecoder.decode
  cases split : data.toList with
  | nil => rfl
  | cons tag payload =>
    rw [split] at agree
    dsimp only at agree ⊢
    -- one case for each message the decoder reads, in the order of its tags
    split_ifs with isBegin isCommit isRelation isInsert isUpdate isDelete isTruncate
    · rfl
    · rfl
    · simp only [PgOutputDecoder.decodeRelation_fst]
    · rw [if_pos (.inl isInsert)] at agree
      exact decodeInsert_congr lsn agree
    · rw [if_pos (.inr (.inl isUpdate))] at agree
      exact decodeUpdate_congr lsn agree
    · rw [if_pos (.inr (.inr isDelete))] at agree
      exact decodeDelete_congr lsn agree
    · rw [if_neg (by simp [isInsert, isUpdate, isDelete]), if_pos isTruncate] at agree
      exact decodeTruncate_congr lsn agree
    · rfl

end Agreement

/-! ## Whole runs -/

/-- What the last readable relation message for `oid` among these calls said. -/
def lastRelation (calls : List StreamCall) (oid : UInt32) : Option RelationInfo :=
  (((calls.filterMap fun call => announcement call.data).filter fun entry => entry.1 = oid).getLast?).map
    Prod.snd

/-- The LSN of the last call that returned `Ok`, or where the stream started. -/
def lastAccepted (start : Lsn) (history : List (StreamCall × StreamReply)) : Lsn :=
  (((history.filter fun entry => entry.2.isOk).getLast?).map fun entry => entry.1.lsn).getD start

theorem lastRelation_snoc (calls : List StreamCall) (call : StreamCall) (oid : UInt32) :
    lastRelation (calls ++ [call]) oid =
      match announcement call.data with
      | some entry => if entry.1 = oid then some entry.2 else lastRelation calls oid
      | none => lastRelation calls oid := by
  rw [lastRelation, List.filterMap_append]
  cases announced : announcement call.data with
  | none => simp [announced, lastRelation]
  | some entry =>
    by_cases same : entry.1 = oid
    · simp [announced, same]
    · simp [announced, same, lastRelation]

theorem processMessage_eq (stream : ReplicationStream) (call : StreamCall) :
    stream.processMessage hasher call =
      ((stream.decoder.decode hasher call.lsn call.data).1,
        { stream with
          decoder := (stream.decoder.decode hasher call.lsn call.data).2
          lastProcessedLsn :=
            if (stream.decoder.decode hasher call.lsn call.data).1.isOk then call.lsn
            else stream.lastProcessedLsn }) := by
  unfold ReplicationStream.processMessage
  cases stream.decoder.decode hasher call.lsn call.data with
  | mk reply decoder =>
    cases reply with
    | ok event => rfl
    | error fault => rfl

theorem processMessage_error {stream : ReplicationStream} {call : StreamCall} {fault : Fault DecodeError}
    (refused : (stream.processMessage hasher call).1 = .error fault) :
    (stream.processMessage hasher call).2 = stream := by
  rw [processMessage_eq] at refused ⊢
  dsimp only at refused ⊢
  rw [decode_of_error hasher stream.decoder call.lsn refused, refused]
  rfl

/-- What the table and the position owe to the past. -/
structure Remembers (start : Lsn) (history : List (StreamCall × StreamReply))
    (stream : ReplicationStream) : Prop where
  relations : ∀ oid, stream.decoder.relations.lookup oid = lastRelation (history.map Prod.fst) oid
  position : stream.lastProcessedLsn = lastAccepted start history

theorem remembers_step {start : Lsn} {history : List (StreamCall × StreamReply)}
    {stream : ReplicationStream} (remembers : Remembers start history stream) (call : StreamCall) :
    Remembers start (history ++ [(call, (stream.processMessage hasher call).1)])
      (stream.processMessage hasher call).2 where
  relations oid := by
    rw [List.map_append, List.map_singleton, lastRelation_snoc, ← remembers.relations oid,
      processMessage_eq]
    dsimp only
    obtain ⟨entry, announced, decoded⟩ | ⟨announced, unchanged⟩ :=
      decode_cases hasher stream.decoder call.lsn call.data
    · rw [announced, decoded]
      by_cases same : entry.1 = oid
      · subst same
        rw [AList.lookup_insert]
        exact (if_pos rfl).symm
      · rw [AList.lookup_insert_ne fun equal => same equal.symm]
        exact (if_neg same).symm
    · rw [announced, unchanged]
  position := by
    rw [processMessage_eq]
    dsimp only
    cases (stream.decoder.decode hasher call.lsn call.data).1 with
    | ok event => simp [lastAccepted, Except.isOk, Except.toBool]
    | error fault => simp [lastAccepted, Except.isOk, Except.toBool, remembers.position]

theorem remembers_run (start : Lsn) (calls : List StreamCall) :
    Remembers start (ReplicationStream.processed hasher start calls).2
      (ReplicationStream.processed hasher start calls).1 :=
  trace_invariant (Remembers start) ⟨fun _ => rfl, rfl⟩
    (fun _ _ call remembers => remembers_step hasher remembers call) calls

/-- After every sequence of calls with arbitrary bytes: the table holds for each OID
    what its last readable relation message said; a call that returns an error
    changes nothing; the position is that of the last call that returned `Ok`; and
    two streams answer a message alike if their pasts end in the same relation for
    the OID it names. -/
theorem stream_state (start : Lsn) (calls : List StreamCall) :
    (∀ oid, (ReplicationStream.processed hasher start calls).1.decoder.relations.lookup oid =
      lastRelation calls oid) ∧
    (∀ call fault,
      ((ReplicationStream.processed hasher start calls).1.processMessage hasher call).1 = .error fault →
      ((ReplicationStream.processed hasher start calls).1.processMessage hasher call).2 =
        (ReplicationStream.processed hasher start calls).1) ∧
    (ReplicationStream.processed hasher start calls).1.lastProcessedLsn =
      lastAccepted start (ReplicationStream.processed hasher start calls).2 ∧
    ∀ otherStart otherCalls call,
      (∀ oid ∈ namedOid call.data, lastRelation calls oid = lastRelation otherCalls oid) →
      ((ReplicationStream.processed hasher start calls).1.processMessage hasher call).1 =
        ((ReplicationStream.processed hasher otherStart otherCalls).1.processMessage hasher call).1 := by
  have relations : ∀ start calls oid,
      (ReplicationStream.processed hasher start calls).1.decoder.relations.lookup oid =
        lastRelation calls oid := by
    intro start calls oid
    rw [(remembers_run hasher start calls).relations oid, ReplicationStream.processed, trace_actions]
  refine ⟨relations start calls, fun call fault => processMessage_error hasher,
    (remembers_run hasher start calls).position, ?_⟩
  intro otherStart otherCalls call agree
  rw [processMessage_eq, processMessage_eq]
  apply decode_congr
  intro oid named
  rw [relations, relations, agree oid named]

end Nendi.Verified
