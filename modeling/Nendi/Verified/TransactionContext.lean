import Nendi.Pgsql.Transaction
import Nendi.Verified.DecoderState
import Nendi.Verified.PgOutputStream

/-! # The transaction an event belongs to

The decoder reads the xid and the timestamp of a begin message and forgets them.
`transaction_context_iff` says on which streams its events nevertheless name the
transaction they come from. -/

namespace Nendi.Verified

open Nendi.Lib Nendi.Shared Nendi.Pgsql Nendi.Pgsql.Protocol
open Nendi.Lib.CursorM

variable (hasher : List UInt8 → UInt64)

/-! ## Begin and commit -/

theorem decode_begin_message (decoder : PgOutputDecoder) (lsn : UInt64) (begin_ : Begin) :
    decoder.decode hasher lsn begin_.bytes = (.ok none, decoder) := by
  have read : PgOutputDecoder.outcome decodeBegin begin_.body = .ok () := by
    have length := begin_.body_length
    -- xid and timestamp are sliced out of the payload and dropped
    rw [PgOutputDecoder.outcome, decodeBegin, bind_ok (size_run _ _), if_neg (by omega),
      bind_ok (range_run (by decide) (by omega)), bind_ok (range_run (by decide) (by omega)),
      bind_ok (range_run (by decide) (by omega))]
    rfl
  change ((PgOutputDecoder.outcome decodeBegin begin_.body).map fun _ => none, decoder) = _
  rw [read]
  rfl

theorem decode_commit_message (decoder : PgOutputDecoder) (lsn : UInt64) (commit : Commit) :
    decoder.decode hasher lsn commit.bytes = (.ok none, decoder) := by
  have read : PgOutputDecoder.outcome decodeCommit commit.body = .ok () := by
    have length := commit.body_length
    rw [PgOutputDecoder.outcome, decodeCommit, bind_ok (size_run _ _), if_neg (by omega),
      bind_ok (range_run (by decide) (by omega))]
    rfl
  change ((PgOutputDecoder.outcome decodeCommit commit.body).map fun _ => none, decoder) = _
  rw [read]
  rfl

/-! ## The decoder inside a transaction -/

def decodeAll (decoder : PgOutputDecoder) (calls : List StreamCall) : PgOutputDecoder :=
  calls.foldl (fun decoder call => (decoder.decode hasher call.lsn call.data).2) decoder

theorem decodeAll_append (decoder : PgOutputDecoder) (first second : List StreamCall) :
    decodeAll hasher decoder (first ++ second) = decodeAll hasher (decodeAll hasher decoder first) second :=
  List.foldl_append

theorem processed_decoder (start : Lsn) (calls : List StreamCall) :
    (ReplicationStream.processed hasher start calls).1.decoder = decodeAll hasher .new calls := by
  induction calls using List.reverseRecOn with
  | nil => rfl
  | append_singleton calls call inductionHypothesis =>
    rw [decodeAll_append, ← inductionHypothesis, ReplicationStream.processed, trace_snoc,
      processMessage_eq]
    rfl

theorem decodeAll_frames (frames : List Frame) :
    decodeAll hasher .new (frames.map Frame.call) = afterFrames hasher frames := by
  rw [decodeAll, List.foldl_map]
  rfl

theorem decodeAll_begin (decoder : PgOutputDecoder) (transaction : Transaction)
    (calls : List StreamCall) :
    decodeAll hasher decoder (transaction.beginCall :: calls) = decodeAll hasher decoder calls := by
  rw [decodeAll, List.foldl_cons, Transaction.beginCall, decode_begin_message]
  rfl

theorem decodeAll_transaction (decoder : PgOutputDecoder) (transaction : Transaction) :
    decodeAll hasher decoder transaction.calls =
      decodeAll hasher decoder (transaction.body.map Frame.call) := by
  rw [Transaction.calls, decodeAll_begin, decodeAll_append]
  change (PgOutputDecoder.decode hasher _ _ transaction.commit.bytes).2 = _
  rw [decode_commit_message]

theorem decodeAll_transactions (decoder : PgOutputDecoder) (transactions : List Transaction) :
    decodeAll hasher decoder (transactions.flatMap Transaction.calls) =
      decodeAll hasher decoder ((transactions.flatMap Transaction.body).map Frame.call) := by
  induction transactions generalizing decoder with
  | nil => rfl
  | cons transaction transactions inductionHypothesis =>
    rw [List.flatMap_cons, List.flatMap_cons, List.map_append, decodeAll_append, decodeAll_append,
      decodeAll_transaction, inductionHypothesis]

def replyIn (start : Lsn) (earlier : List Transaction) (transaction : Transaction) (past : List Frame)
    (frame : Frame) : StreamReply :=
  ((ReplicationStream.processed hasher start (earlier.flatMap Transaction.calls ++
    transaction.beginCall :: past.map Frame.call)).1.processMessage hasher frame.call).1

theorem replyIn_eq (start : Lsn) (earlier : List Transaction) (transaction : Transaction)
    (past : List Frame) (frame : Frame) :
    replyIn hasher start earlier transaction past frame =
      ((afterFrames hasher (earlier.flatMap Transaction.body ++ past)).decode hasher frame.lsn
        frame.data).1 := by
  rw [replyIn, processMessage_eq, processed_decoder, decodeAll_append, decodeAll_begin,
    decodeAll_transactions, ← decodeAll_append, ← List.map_append, decodeAll_frames]
  rfl

/-! ## Events and their transactions -/

/-- Every event that the stream returns inside a transaction has the xid of its
    begin message and the converted timestamp. -/
def CarriesTransaction (convert : Int64 → Int64) (start : Lsn) (transactions : List Transaction) : Prop :=
  ∀ earlier transaction later past frame rest, transactions = earlier ++ transaction :: later →
    transaction.body = past ++ frame :: rest →
    ∀ event, replyIn hasher start earlier transaction past frame = .ok (some event) →
      event.xid = transaction.begin_.xid ∧
        event.commitTimestampUs = convert transaction.begin_.commitTimestamp

theorem event_of_row {message : Message} {oid : UInt32} (isRow : message.rowOid = some oid) (lsn : UInt64)
    (relation : Relation) :
    ∃ event, message.event hasher lsn relation = some event ∧ event.xid = 0 ∧
      event.commitTimestampUs = 0 := by
  -- a row message always reports a change, and never of a transaction
  cases message with
  | relation announced => cases isRow
  | insert rowOid new => exact ⟨_, rfl, rfl, rfl⟩
  | update rowOid old new => exact ⟨_, rfl, rfl, rfl⟩
  | delete rowOid tag old => exact ⟨_, rfl, rfl, rfl⟩

theorem replyIn_cases (start : Lsn) {transactions earlier later : List Transaction}
    {transaction : Transaction} {past rest : List Frame} {frame : Frame}
    (announced : Announced ((transactions.flatMap Transaction.body).map Frame.message))
    (split : transactions = earlier ++ transaction :: later)
    (splitBody : transaction.body = past ++ frame :: rest) :
    (frame.message.rowOid.isSome = true ∧
      ∃ event, replyIn hasher start earlier transaction past frame = .ok (some event) ∧
        event.xid = 0 ∧ event.commitTimestampUs = 0) ∨
    frame.message.rowOid.isSome = false ∧
      replyIn hasher start earlier transaction past frame = .ok none := by
  have whole : transactions.flatMap Transaction.body = (earlier.flatMap Transaction.body ++ past) ++
      frame :: (rest ++ later.flatMap Transaction.body) := by
    rw [split, List.flatMap_append, List.flatMap_cons, splitBody]
    simp
  -- begin and commit leave no trace, so the relations are those of the messages alone
  have tracks := tracks_run hasher announced whole
  have known := latest_of_split announced whole
  rw [replyIn_eq]
  obtain ⟨lsn, message, data, written⟩ := frame
  dsimp only at known ⊢
  cases isRow : message.rowOid with
  | none =>
    obtain ⟨relation, rfl⟩ := Message.rowOid_eq_none isRow
    rw [decode_relation_message hasher lsn written]
    exact .inr ⟨rfl, rfl⟩
  | some oid =>
    obtain ⟨relation, isLatest⟩ := known oid isRow
    rw [decode_row_message hasher lsn written isRow (tracks.lookup isLatest)]
    obtain ⟨event, reported, outside⟩ := event_of_row hasher isRow lsn relation
    exact .inl ⟨rfl, event, by rw [reported], outside⟩

/-- On a well-formed stream of transactions the events carry their transaction,
    however timestamps are converted, if and only if every transaction with a row
    has the xid zero and a timestamp that is converted to zero. -/
theorem transaction_context_iff (convert : Int64 → Int64) (start : Lsn) (transactions : List Transaction)
    (announced : Announced ((transactions.flatMap Transaction.body).map Frame.message)) :
    CarriesTransaction hasher convert start transactions ↔
      ∀ transaction ∈ transactions, transaction.HasRow →
        transaction.begin_.xid = 0 ∧ convert transaction.begin_.commitTimestamp = 0 := by
  constructor
  · intro carries transaction member hasRow
    obtain ⟨earlier, later, split⟩ := List.append_of_mem member
    obtain ⟨frame, inBody, isRow⟩ := hasRow
    obtain ⟨past, rest, splitBody⟩ := List.append_of_mem inBody
    obtain ⟨_, event, replied, xid, timestamp⟩ | ⟨noRow, _⟩ :=
      replyIn_cases hasher start announced split splitBody
    · -- the event of the row has zeros, and by assumption the transaction's own values
      obtain ⟨sameXid, sameTimestamp⟩ :=
        carries earlier transaction later past frame rest split splitBody event replied
      exact ⟨sameXid.symm.trans xid, sameTimestamp.symm.trans timestamp⟩
    · rw [isRow] at noRow
      cases noRow
  · intro outside earlier transaction later past frame rest split splitBody event replied
    obtain ⟨isRow, other, repliedOther, xid, timestamp⟩ | ⟨_, nothing⟩ :=
      replyIn_cases hasher start announced split splitBody
    · rw [repliedOther] at replied
      cases replied
      have zero := outside transaction (by simp [split]) ⟨frame, by simp [splitBody], isRow⟩
      exact ⟨xid.trans zero.1.symm, timestamp.trans zero.2.symm⟩
    · rw [nothing] at replied
      cases replied

def codesTransaction (xid : UInt32) : Transaction where
  beginLsn := 1
  begin_ := { finalLsn := 2, commitTimestamp := 0, xid }
  body := [codesRelation, codesInsert]
  endLsn := 2
  commit := { flags := 0, commitLsn := 2, endLsn := 3, commitTimestamp := 0 }

theorem codesTransaction_announced (xid : UInt32) :
    Announced (([codesTransaction xid].flatMap Transaction.body).map Frame.message) := by
  intro past message later split oid isRow
  match past with
  | [] =>
    cases split
    cases isRow
  | [_] =>
    cases split
    cases isRow
    exact ⟨_, List.mem_singleton.mpr rfl, rfl⟩
  | _ :: _ :: _ => simp [codesTransaction] at split

/-- The insert of transaction 5 does not carry it, whatever is done to timestamps. -/
theorem transaction_is_lost :
    ¬ ∃ convert, CarriesTransaction (fun _ => 0) convert 0 [codesTransaction 5] := by
  rintro ⟨convert, carries⟩
  obtain ⟨_, event, replied, xid, _⟩ | ⟨noRow, _⟩ :=
    replyIn_cases (fun _ => 0) 0 (codesTransaction_announced 5)
      (show [codesTransaction 5] = [] ++ codesTransaction 5 :: [] from rfl)
      (show (codesTransaction 5).body = [codesRelation] ++ codesInsert :: [] from rfl)
  · obtain ⟨sameXid, _⟩ := carries [] (codesTransaction 5) [] [codesRelation] codesInsert [] rfl rfl
      event replied
    cases sameXid.symm.trans xid
  · cases noRow

theorem transaction_context_codes :
    CarriesTransaction (fun _ => 0) (fun timestamp => timestamp) 0 [codesTransaction 5] ↔
      ∀ transaction ∈ [codesTransaction 5], transaction.HasRow →
        transaction.begin_.xid = 0 ∧ transaction.begin_.commitTimestamp = 0 :=
  transaction_context_iff (fun _ => 0) (fun timestamp => timestamp) 0 [codesTransaction 5]
    (codesTransaction_announced 5)

end Nendi.Verified
