import Mathlib.Data.List.AList
import Nendi.Lib.OrdMap
import Nendi.Shared.Proto
import Nendi.Core.Pipeline

/-! # The tenant store

`TenantStore` of `core/src/storage/rocks/tenant.rs`.  A RocksDB column family is
a map from byte keys to byte values iterated in bytewise key order, and a write
batch applies its puts in order, the later ones winning. -/

namespace Nendi.Core

open Nendi.Lib Nendi.Shared

abbrev ColumnFamily := OrdMap (List UInt8) (List UInt8)

abbrev DB := AList fun _ : String => ColumnFamily

structure TenantId where
  id : String
deriving DecidableEq, Repr

def TenantId.cfName (tenant : TenantId) : String := s!"tenant_{tenant.id}"

structure TenantStore where
  db : DB
  tenantId : TenantId

/-- `[8 bytes LSN BE][4 bytes XID BE]`. -/
def makeKey (event : ChangeEvent) : List UInt8 := event.lsn.toBeBytes ++ event.xid.toBeBytes

namespace TenantStore

def columnFamily (store : TenantStore) : Option ColumnFamily :=
  store.db.lookup store.tenantId.cfName

def cfNotFound (store : TenantStore) : String :=
  s!"column family '{store.tenantId.cfName}' not found"

def writeBatch (store : TenantStore) (batch : WriteBatch) : Except String TenantStore :=
  match store.columnFamily with
  | none => .error store.cfNotFound
  | some cf =>
    let puts := batch.events.map fun event => (makeKey event, encodeEvent event)
    .ok { store with db := store.db.insert store.tenantId.cfName (cf.insertAll puts) }

def writeBatches (store : TenantStore) : List WriteBatch → Except String TenantStore
  | [] => .ok store
  | batch :: batches => do
    let store ← store.writeBatch batch
    store.writeBatches batches

def readLoop (limit : Nat) (events : List ChangeEvent) :
    List (List UInt8 × List UInt8) → Exec String (List ChangeEvent)
  -- the loop of `read_from`. A value that does not decode is skipped before the limit is looked at;
  -- the limit is looked at after an event was pushed
  | [] => .ok events
  | (_, value) :: rest =>
    match decodeEvent value with
    | .ok event =>
      if (events ++ [event]).length ≥ limit then .ok (events ++ [event])
      else readLoop limit (events ++ [event]) rest
    | .error (.err _) => readLoop limit events rest
    | .error .panic => .error .panic

def readFrom (store : TenantStore) (startLsn : Lsn) (limit : Nat) : Exec String (List ChangeEvent) :=
  -- `Vec::with_capacity(limit)` panics where so many events do not fit `isize::MAX` bytes
  match store.columnFamily with
  | none => .error (.err store.cfNotFound)
  | some cf =>
    if limit * sizeOfChangeEvent ≤ isizeMax then readLoop limit [] (cf.seek startLsn.toBeBytes)
    else .error .panic

theorem readFrom_of_fits {store : TenantStore} {cf : ColumnFamily} (opened : store.columnFamily = some cf)
    (startLsn : Lsn) {limit : Nat} (fits : limit < 2 ^ 56) :
    store.readFrom startLsn limit = readLoop limit [] (cf.seek startLsn.toBeBytes) := by
  have allocates : limit * sizeOfChangeEvent ≤ isizeMax := by
    unfold sizeOfChangeEvent isizeMax
    omega
  simp only [readFrom, opened, if_pos allocates]

theorem readFrom_panics {store : TenantStore} {cf : ColumnFamily} (opened : store.columnFamily = some cf)
    (startLsn : Lsn) {limit : Nat} (huge : 2 ^ 56 ≤ limit) : store.readFrom startLsn limit = .error .panic := by
  have overflows : ¬ limit * sizeOfChangeEvent ≤ isizeMax := by
    unfold sizeOfChangeEvent isizeMax
    omega
  simp only [readFrom, opened, if_neg overflows]

theorem writeBatch_columnFamily {store written : TenantStore} {batch : WriteBatch} {cf : ColumnFamily}
    (opened : store.columnFamily = some cf) (wrote : store.writeBatch batch = .ok written) :
    written.columnFamily =
      some (cf.insertAll (batch.events.map fun event => (makeKey event, encodeEvent event))) := by
  simp only [writeBatch, opened, Except.ok.injEq] at wrote
  subst wrote
  exact AList.lookup_insert _

theorem writeBatches_columnFamily {store written : TenantStore} {batches : List WriteBatch}
    {cf : ColumnFamily} (opened : store.columnFamily = some cf)
    (wrote : store.writeBatches batches = .ok written) :
    written.columnFamily = some (cf.insertAll
      ((batches.flatMap WriteBatch.events).map fun event => (makeKey event, encodeEvent event))) := by
  induction batches generalizing store cf with
  | nil =>
    cases wrote
    exact opened
  | cons batch batches inductionHypothesis =>
    cases first : store.writeBatch batch with
    | error message =>
      rw [writeBatches, first] at wrote
      cases wrote
    | ok middle =>
      rw [writeBatches, first] at wrote
      rw [inductionHypothesis (writeBatch_columnFamily opened first) wrote, List.flatMap_cons,
        List.map_append, OrdMap.insertAll_append]

theorem writeBatches_succeeds {store : TenantStore} {cf : ColumnFamily}
    (opened : store.columnFamily = some cf) (batches : List WriteBatch) :
    ∃ written, store.writeBatches batches = .ok written := by
  induction batches generalizing store cf with
  | nil => exact ⟨store, rfl⟩
  | cons batch batches inductionHypothesis =>
    cases first : store.writeBatch batch with
    | error message => simp [writeBatch, opened] at first
    | ok middle =>
      obtain ⟨written, rest⟩ := inductionHypothesis (writeBatch_columnFamily opened first)
      exact ⟨written, by rw [writeBatches, first]; exact rest⟩

end TenantStore

end Nendi.Core
