import Nendi.Core.Tenant
import Nendi.Lib.Machine

/-! # Opening a tenant store

`TenantStore::open`, and a data directory under any sequence of opens, writes, reads and
closes.  RocksDB is not part of the repository: `RocksDb` has the two calls of `open` and what is
assumed of them.  Failures of the file system and machines that lose power are left out. -/

namespace Nendi.Core

open Nendi.Lib Nendi.Shared

/-! ## RocksDB -/

/-- The families on disk, and the store that has the directory open. -/
structure DataDir where
  families : DB
  holder : Option TenantStore

def defaultFamily : String := "default"

/-- The directory has no families but these and `default`. -/
def DataDir.HasOnly (dir : DataDir) (names : List String) : Prop :=
  ∀ name ∈ dir.families, name ∈ names ++ [defaultFamily]

/-- What is there when these families of a directory have been opened. -/
structure OpenedAs (dir : DataDir) (names : List String) (db : DB) : Prop where
  families : ∀ name, name ∈ db ↔ name ∈ names ++ [defaultFamily]
  kept : ∀ name ∈ dir.families, db.lookup name = dir.families.lookup name
  created : ∀ name ∈ db, name ∉ dir.families → db.lookup name = some .empty

/-- RocksDB with the options of `RocksConfig`, which let it create a directory and families that are
    missing (`create_if_missing`, `create_missing_column_families`).  It opens a directory for one
    holder at a time, and refuses when there is a family that is not named. -/
structure RocksDb where
  Fault : Type
  -- `DB::open_cf`, and `DB::open` with no names
  openCf : DataDir → List String → Except Fault DB
  createCf : DB → String → Except Fault DB
  opens : ∀ dir names, dir.holder = none → dir.HasOnly names → ∃ db, openCf dir names = .ok db ∧ OpenedAs dir names db
  refuses : ∀ dir names, ¬ (dir.holder = none ∧ dir.HasOnly names) → ∃ fault, openCf dir names = .error fault

def TenantStore.open_ (rocks : RocksDb) (dir : DataDir) (tenant : TenantId) : Except rocks.Fault TenantStore :=
  -- every error of the first attempt is taken for a first open
  match rocks.openCf dir [tenant.cfName] with
  | .ok db => .ok ⟨db, tenant⟩
  | .error _ => do
    let db ← rocks.openCf dir []
    let db ← rocks.createCf db tenant.cfName
    .ok ⟨db, tenant⟩

/-- The second attempt succeeds nowhere where the first one fails. -/
theorem TenantStore.open_cases (rocks : RocksDb) (dir : DataDir) (tenant : TenantId) :
    (∃ db, TenantStore.open_ rocks dir tenant = .ok ⟨db, tenant⟩ ∧ OpenedAs dir [tenant.cfName] db ∧
        dir.holder = none ∧ dir.HasOnly [tenant.cfName]) ∨
      (∃ fault, TenantStore.open_ rocks dir tenant = .error fault) ∧
        ¬ (dir.holder = none ∧ dir.HasOnly [tenant.cfName]) := by
  unfold TenantStore.open_
  by_cases allowed : dir.holder = none ∧ dir.HasOnly [tenant.cfName]
  · obtain ⟨db, opens, opened⟩ := rocks.opens dir _ allowed.1 allowed.2
    rw [opens]
    exact .inl ⟨db, rfl, opened, allowed⟩
  · right
    refine ⟨?_, allowed⟩
    obtain ⟨fault, fails⟩ := rocks.refuses dir _ allowed
    -- a directory with `default` alone could have been opened in the first place
    obtain ⟨again, failsAgain⟩ := rocks.refuses dir [] fun alone =>
      allowed ⟨alone.1, fun name listed => List.mem_cons_of_mem _ (alone.2 name listed)⟩
    rw [fails, failsAgain]
    exact ⟨again, rfl⟩

/-! ## A directory over time -/

inductive StoreCall where
  | openStore (tenant : TenantId)
  | writeBatch (batch : WriteBatch)
  | readFrom (startLsn : Lsn) (limit : Nat)
  -- the store is dropped, or its process ends
  | close

inductive StoreAnswer (φ : Type) where
  | opened (result : Except φ Unit)
  | wrote (result : Except String Unit)
  | read (result : Exec String (List ChangeEvent))
  | closed
  -- there is no store to call
  | noStore

namespace DataDir

def empty : DataDir := ⟨∅, none⟩

def step (rocks : RocksDb) (dir : DataDir) : StoreCall → StoreAnswer rocks.Fault × DataDir
  | .openStore tenant =>
    match TenantStore.open_ rocks dir tenant with
    | .ok store => (.opened (.ok ()), ⟨store.db, some store⟩)
    | .error fault => (.opened (.error fault), dir)
  | .writeBatch batch =>
    match dir.holder with
    | none => (.noStore, dir)
    | some store =>
      match store.writeBatch batch with
      | .ok written => (.wrote (.ok ()), ⟨written.db, some written⟩)
      | .error message => (.wrote (.error message), dir)
  | .readFrom startLsn limit =>
    match dir.holder with
    | none => (.noStore, dir)
    | some store => (.read (store.readFrom startLsn limit), dir)
  | .close => (.closed, { dir with holder := none })

end DataDir

variable {φ : Type}

/-- The tenants whose opens succeeded. -/
def openedBy (history : List (StoreCall × StoreAnswer φ)) : List TenantId :=
  history.filterMap fun
    | (.openStore tenant, .opened (.ok ())) => some tenant
    | _ => none

/-- The events of the batches that were written, whoever wrote them. -/
def storedEvents (history : List (StoreCall × StoreAnswer φ)) : List ChangeEvent :=
  history.flatMap fun
    | (.writeBatch batch, .wrote (.ok ())) => batch.events
    | _ => []

theorem openedBy_append (first second : List (StoreCall × StoreAnswer φ)) :
    openedBy (first ++ second) = openedBy first ++ openedBy second :=
  List.filterMap_append

theorem storedEvents_append (first second : List (StoreCall × StoreAnswer φ)) :
    storedEvents (first ++ second) = storedEvents first ++ storedEvents second :=
  List.flatMap_append

end Nendi.Core
