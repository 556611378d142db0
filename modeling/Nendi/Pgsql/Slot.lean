import Mathlib.Data.List.AList
import Nendi.Lib.Binary64
import Nendi.Lib.Cursor
import Nendi.Lib.Machine
import Nendi.Shared.LsnText

/-! # The replication slot

`SlotManager` of `services/pgsql/src/replication/slot.rs`, `SlotLifecycleManager` and
`LagPolicy` of `services/pgsql/src/slot`, and the queries of `PgClient` they make.  Calls of
several daemons interleave between their queries.  What the driver makes of a column and what the
server does with its slots are not part of the repository: `Driver` and `SlotServer` say what is
assumed of them. -/

namespace Nendi.Pgsql

open Nendi.Lib Nendi.Shared

/-! ## The server -/

inductive PgError where
  | noRow
  | bigintOutOfRange
  | slotExists (name : String)
  | noSlot (name : String)
  -- the server has its own reasons: the slot is in use, there are too many slots, ...
  | refused
deriving DecidableEq, Repr

/-- The position of the WAL, and `confirmed_flush_lsn` of each slot. -/
structure Server where
  walLsn : Lsn
  slots : AList fun _ : String => Option Lsn

inductive PgType where
  | text
  | name
  | pgLsn
  -- `"char"`, a single byte
  | char
deriving DecidableEq, Repr

structure Cell where
  type : PgType
  text : String

/-- `row.get` into a `&str` or a `String`; `none` is a panic.  It reads the text types and refuses
    the others, which do not convert to a string. -/
structure Driver where
  getStr : Cell → Option String
  reads : ∀ cell, cell.type = .text ∨ cell.type = .name → getStr cell = some cell.text
  refuses : ∀ cell, cell.type = .pgLsn ∨ cell.type = .char → getStr cell = none

/-- The functions of the server for slots.  A choice stands for what the server has to decide: whether
    it grants the call, and where the new slot begins. -/
structure SlotServer where
  Choice : Type
  -- `SELECT lsn FROM pg_create_logical_replication_slot(name, 'pgoutput')`
  createSlot : Server → String → Choice → Except PgError (Cell × Server)
  -- `SELECT pg_drop_replication_slot(name)`
  dropSlot : Server → String → Choice → Except PgError Server
  point : Choice → Lsn
  -- a slot is created only under a name that is free, and the answer is a `pg_lsn`
  created : ∀ server name choice cell next, createSlot server name choice = .ok (cell, next) →
    name ∉ server.slots ∧ cell.type = .pgLsn ∧
      next = { server with slots := server.slots.insert name (some (point choice)) }
  dropped : ∀ server name choice next, dropSlot server name choice = .ok next →
    name ∈ server.slots ∧ next = { server with slots := server.slots.erase name }

namespace Server

def slotExists (server : Server) (name : String) : Bool := decide (name ∈ server.slots)

/-- `wal_lag_bytes`: `COALESCE(pg_wal_lsn_diff(..), 0)::bigint` of one row, and `lag.max(0) as u64`. -/
def walLagBytes (server : Server) (name : String) : Except PgError UInt64 :=
  match server.slots.lookup name with
  | none => .error .noRow
  | some confirmed =>
    let lag : Int := confirmed.elim 0 fun confirmed => server.walLsn.toNat - confirmed.toNat
    if lag < -2 ^ 63 ∨ 2 ^ 63 ≤ lag then .error .bigintOutOfRange
    else .ok (UInt64.ofNat (max lag 0).toNat)

end Server

/-! ## Creating the slot -/

structure SlotManager where
  slotName : String
  autoCreate : Bool
deriving DecidableEq, Repr

inductive SlotError where
  | pg (fault : PgError)
  | message (text : String)
deriving DecidableEq, Repr

namespace SlotManager

/-- `ensure_slot` up to its first query; `none` where it goes on to create the slot. -/
def ensureCheck (manager : SlotManager) (server : Server) : Option (Exec SlotError (Option Lsn)) :=
  if server.slotExists manager.slotName then some (.ok none)
  else if manager.autoCreate then none
  else some (.error (.err (.message
    s!"replication slot '{manager.slotName}' does not exist and auto_create is disabled")))

/-- `ensure_slot` from its second query on. -/
def ensureCreate (driver : Driver) (pg : SlotServer) (manager : SlotManager) (server : Server) (choice : pg.Choice) :
    Exec SlotError (Option Lsn) × Server :=
  match pg.createSlot server manager.slotName choice with
  | .error fault => (.error (.err (.pg fault)), server)
  | .ok (cell, server) =>
    match driver.getStr cell with
    | none => (.error .panic, server)
    | some text =>
      match Lsn.fromPgStr text with
      | .ok lsn => (.ok (some lsn), server)
      | .error _ => (.error (.err (.message s!"failed to parse slot LSN: invalid LSN format: '{text}'")), server)

end SlotManager

/-! ## Calls that interleave -/

inductive SlotAction (γ : Type) where
  -- a caller enters `ensure_slot`
  | ensure (caller : Nat) (manager : SlotManager)
  -- a caller inside `ensure_slot` makes its second query
  | create (caller : Nat) (manager : SlotManager) (choice : γ)
  | dropSlot (manager : SlotManager) (choice : γ)

inductive SlotOutput where
  | creating
  | returned (result : Exec SlotError (Option Lsn))
  | dropped (result : Except SlotError Unit)

structure SlotSystem where
  server : Server
  -- the callers between the two queries of `ensure_slot`
  creating : Nat → Option SlotManager

namespace SlotSystem

def start (server : Server) : SlotSystem := ⟨server, fun _ => none⟩

def step (driver : Driver) (pg : SlotServer) (system : SlotSystem) :
    SlotAction pg.Choice → Option (SlotSystem × SlotOutput)
  | .ensure caller manager =>
    match system.creating caller with
    | some _ => none
    | none =>
      match manager.ensureCheck system.server with
      | some result => some (system, .returned result)
      | none => some ({ system with creating := Function.update system.creating caller (some manager) }, .creating)
  | .create caller manager choice =>
    if system.creating caller = some manager then
      let (result, server) := manager.ensureCreate driver pg system.server choice
      some (⟨server, Function.update system.creating caller none⟩, .returned result)
    else none
  | .dropSlot manager choice =>
    match pg.dropSlot system.server manager.slotName choice with
    | .ok server => some ({ system with server }, .dropped (.ok ()))
    | .error fault => some (system, .dropped (.error (.pg fault)))

end SlotSystem

/-! ## The lag -/

inductive LagStatus where
  | ok (lagBytes : UInt64)
  | warning (lagBytes capBytes : UInt64)
  | critical (lagBytes capBytes : UInt64)
deriving DecidableEq, Repr

/-- The `f64` that the literal `0.85` stands for. -/
def warnThreshold : ℚ := 7656119366529843 / 2 ^ 53

structure LagPolicy where
  hardCapBytes : UInt64
  warnThreshold : ℚ

namespace LagPolicy

def new (hardCapBytes : UInt64) : LagPolicy := ⟨hardCapBytes, Pgsql.warnThreshold⟩

def evaluate (policy : LagPolicy) (lagBytes : UInt64) : LagStatus :=
  if policy.hardCapBytes < lagBytes then .critical lagBytes policy.hardCapBytes
  else if round53 (round53 policy.hardCapBytes.toNat * policy.warnThreshold) < round53 lagBytes.toNat then
    .warning lagBytes policy.hardCapBytes
  else .ok lagBytes

def shouldPause (policy : LagPolicy) (lagBytes : UInt64) : Bool := decide (policy.hardCapBytes < lagBytes)

def canResume (policy : LagPolicy) (lagBytes : UInt64) : Bool := decide (lagBytes < policy.hardCapBytes / 2)

end LagPolicy

structure SlotLifecycleManager where
  slotName : String
  publicationName : String
  autoCreate : Bool
  walLagHardCapBytes : UInt64

def SlotLifecycleManager.init (driver : Driver) (pg : SlotServer) (manager : SlotLifecycleManager) (server : Server)
    (choice : pg.Choice) : Exec SlotError Unit × Server :=
  -- `init`; a lag above the cap is only logged
  let slotMgr : SlotManager := ⟨manager.slotName, manager.autoCreate⟩
  let (ensured, server) := match slotMgr.ensureCheck server with
    | some result => (result, server)
    | none => slotMgr.ensureCreate driver pg server choice
  match ensured with
  | .error fault => (.error fault, server)
  | .ok _ =>
    match server.walLagBytes manager.slotName with
    | .error fault => (.error (.err (.pg fault)), server)
    | .ok _ => (.ok (), server)

def SlotLifecycleManager.checkLag (manager : SlotLifecycleManager) (server : Server) : Except PgError LagStatus := do
  let lag ← server.walLagBytes manager.slotName
  return (LagPolicy.new manager.walLagHardCapBytes).evaluate lag

end Nendi.Pgsql
