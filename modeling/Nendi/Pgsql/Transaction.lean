import Nendi.Pgsql.Protocol
import Nendi.Pgsql.ReplicationStream

/-! # Transactions on the wire

The server sends each transaction between a begin and a commit message.  Like the
messages in between these are described here as the server writes them. -/

namespace Nendi.Pgsql.Protocol

open Nendi.Lib Nendi.Shared

structure Begin where
  finalLsn : UInt64
  -- in microseconds since 2000-01-01
  commitTimestamp : Int64
  xid : UInt32

def Begin.body (begin_ : Begin) : List UInt8 :=
  begin_.finalLsn.toBeBytes ++ (begin_.commitTimestamp.toBeBytes ++ begin_.xid.toBeBytes)

theorem Begin.body_length (begin_ : Begin) : begin_.body.length = 20 := by
  simp [body]

def Begin.bytes (begin_ : Begin) : Bytes where
  toList := 'B'.toUInt8 :: begin_.body
  length_le := by
    rw [List.length_cons, body_length]
    decide

structure Commit where
  flags : UInt8
  commitLsn : UInt64
  endLsn : UInt64
  commitTimestamp : Int64

def Commit.body (commit : Commit) : List UInt8 :=
  commit.flags ::
    (commit.commitLsn.toBeBytes ++ (commit.endLsn.toBeBytes ++ commit.commitTimestamp.toBeBytes))

theorem Commit.body_length (commit : Commit) : commit.body.length = 25 := by
  simp [body]

def Commit.bytes (commit : Commit) : Bytes where
  toList := 'C'.toUInt8 :: commit.body
  length_le := by
    rw [List.length_cons, body_length]
    decide

structure Transaction where
  beginLsn : UInt64
  begin_ : Begin
  body : List Frame
  endLsn : UInt64
  commit : Commit

def Frame.call (frame : Frame) : StreamCall := ⟨frame.lsn, frame.data⟩

namespace Transaction

def beginCall (transaction : Transaction) : StreamCall := ⟨transaction.beginLsn, transaction.begin_.bytes⟩

def commitCall (transaction : Transaction) : StreamCall := ⟨transaction.endLsn, transaction.commit.bytes⟩

def calls (transaction : Transaction) : List StreamCall :=
  transaction.beginCall :: (transaction.body.map Frame.call ++ [transaction.commitCall])

def HasRow (transaction : Transaction) : Prop := ∃ frame ∈ transaction.body, frame.message.rowOid.isSome

end Transaction

end Nendi.Pgsql.Protocol
