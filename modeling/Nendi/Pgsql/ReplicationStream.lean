import Nendi.Lib.Machine
import Nendi.Pgsql.PgOutput

/-! # The replication stream

`ReplicationStream` of `services/pgsql/src/replication/stream.rs`: the decoder with
the position reached so far, fed one message at a time. -/

namespace Nendi.Pgsql

open Nendi.Lib Nendi.Shared

structure ReplicationStream where
  decoder : PgOutputDecoder
  lastProcessedLsn : Lsn
  startLsn : Lsn
  active : Bool

structure StreamCall where
  lsn : UInt64
  data : Bytes

abbrev StreamReply := Exec DecodeError (Option ChangeEvent)

namespace ReplicationStream

def new (startLsn : Lsn) : ReplicationStream where
  decoder := .new
  lastProcessedLsn := startLsn
  startLsn
  active := false

def start (stream : ReplicationStream) : ReplicationStream := { stream with active := true }

def stop (stream : ReplicationStream) : ReplicationStream := { stream with active := false }

def processMessage (hasher : List UInt8 → UInt64) (stream : ReplicationStream) (call : StreamCall) :
    StreamReply × ReplicationStream :=
  -- the decoder has changed in place when the `?` returns its error
  match stream.decoder.decode hasher call.lsn call.data with
  | (.ok event, decoder) => (.ok event, { stream with decoder, lastProcessedLsn := call.lsn })
  | (.error fault, decoder) => (.error fault, { stream with decoder })

def processed (hasher : List UInt8 → UInt64) (startLsn : Lsn) (calls : List StreamCall) :
    ReplicationStream × List (StreamCall × StreamReply) :=
  trace (processMessage hasher) (new startLsn) calls

end ReplicationStream

end Nendi.Pgsql
