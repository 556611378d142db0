import Nendi.Core.TenantOpen
import Nendi.Verified.EventLog

/-! # A data directory over all its sessions

Column families are there so that tenants can share a data directory, and `open` lists only
the family of its own tenant.  `data_dir_has_one_tenant` says what follows with RocksDB as assumed: a
directory belongs to the tenant that opened it first.  To that tenant it is one log over all
its sessions (`sessions_share_log`). -/

namespace Nendi.Verified

open Nendi.Lib Nendi.Shared Nendi.Core

/-! ## Family names -/

theorem cfName_toList (tenant : TenantId) : tenant.cfName.toList = "tenant_".toList ++ tenant.id.toList := by
  rw [TenantId.cfName, ← String.toList_append]
  rfl

theorem cfName_injective {first second : TenantId} (same : first.cfName = second.cfName) : first = second := by
  have chars := congrArg String.toList same
  rw [cfName_toList, cfName_toList, List.append_cancel_left_eq, String.toList_inj] at chars
  cases first
  cases second
  cases chars
  rfl

theorem cfName_ne_default (tenant : TenantId) : tenant.cfName ≠ defaultFamily := by
  intro same
  have chars := congrArg String.toList same
  rw [cfName_toList] at chars
  simp [defaultFamily] at chars

theorem hasOnly_mem {dir : DataDir} {own name : String} (only : dir.HasOnly [own]) (listed : name ∈ dir.families) :
    name = own ∨ name = defaultFamily := by
  simpa using only name listed

/-! ## What a directory remembers -/

/-- The family of a tenant that all these events were written to. -/
def familyOf (events : List ChangeEvent) : ColumnFamily :=
  OrdMap.empty.insertAll (events.map fun event => (makeKey event, encodeEvent event))

/-- Nobody has opened the directory, or one tenant has, and its family has what was written. -/
structure Owned {φ : Type} (history : List (StoreCall × StoreAnswer φ)) (dir : DataDir) : Prop where
  named : ∀ name ∈ dir.families, name = defaultFamily ∨ ∃ tenant ∈ openedBy history, name = tenant.cfName
  one : ∀ first ∈ openedBy history, ∀ second ∈ openedBy history, first = second
  content : ∀ tenant ∈ openedBy history, dir.families.lookup tenant.cfName = some (familyOf (storedEvents history))
  unopened : openedBy history = [] → storedEvents history = []
  held : ∀ store, dir.holder = some store → store.tenantId ∈ openedBy history ∧ store.db = dir.families

namespace Owned

variable {φ : Type} {past : List (StoreCall × StoreAnswer φ)} {dir : DataDir}

theorem hasOnly_iff (owned : Owned past dir) (tenant : TenantId) :
    dir.HasOnly [tenant.cfName] ↔ ∀ other ∈ openedBy past, other = tenant := by
  constructor
  · intro only other opened
    have listed : other.cfName ∈ dir.families := by
      rw [← AList.lookup_isSome, owned.content other opened]
      rfl
    cases hasOnly_mem only listed with
    | inl same => exact cfName_injective same
    | inr isDefault => exact absurd isDefault (cfName_ne_default other)
  · intro alone name listed
    obtain rfl | ⟨other, opened, rfl⟩ := owned.named name listed
    · simp
    · rw [alone other opened]
      simp

theorem quiet (owned : Owned past dir) {call : StoreCall} {answer : StoreAnswer φ} {next : DataDir}
    (notOpened : openedBy [(call, answer)] = []) (notWritten : storedEvents [(call, answer)] = [])
    (sameFamilies : next.families = dir.families) (sameHolder : next.holder = none ∨ next.holder = dir.holder) :
    Owned (past ++ [(call, answer)]) next := by
  have sameOpened : openedBy (past ++ [(call, answer)]) = openedBy past := by
    rw [openedBy_append, notOpened, List.append_nil]
  have sameWritten : storedEvents (past ++ [(call, answer)]) = storedEvents past := by
    rw [storedEvents_append, notWritten, List.append_nil]
  constructor
  case named => rw [sameFamilies, sameOpened]; exact owned.named
  case one => rw [sameOpened]; exact owned.one
  case content => rw [sameFamilies, sameOpened, sameWritten]; exact owned.content
  case unopened => rw [sameOpened, sameWritten]; exact owned.unopened
  case held =>
    rw [sameFamilies, sameOpened]
    intro store isHeld
    cases sameHolder with
    | inl free =>
      rw [free] at isHeld
      cases isHeld
    | inr same =>
      rw [same] at isHeld
      exact owned.held store isHeld

theorem opened_family (owned : Owned past dir) {tenant : TenantId} (only : dir.HasOnly [tenant.cfName]) {db : DB}
    (opened : OpenedAs dir [tenant.cfName] db) :
    db.lookup tenant.cfName = some (familyOf (storedEvents past)) := by
  by_cases present : tenant.cfName ∈ dir.families
  · rw [opened.kept _ present]
    obtain isDefault | ⟨owner, wasOpened, same⟩ := owned.named _ present
    · exact absurd isDefault (cfName_ne_default tenant)
    · rw [cfName_injective same]
      exact owned.content owner wasOpened
  · -- without its family the tenant was never here, and so nobody was
    have nobody : openedBy past = [] := by
      apply List.eq_nil_iff_forall_not_mem.mpr
      intro owner wasOpened
      apply present
      rw [← AList.lookup_isSome, ← (owned.hasOnly_iff tenant).mp only owner wasOpened,
        owned.content owner wasOpened]
      rfl
    have listed : tenant.cfName ∈ db := (opened.families _).mpr List.mem_cons_self
    rw [opened.created _ listed present, owned.unopened nobody]
    rfl

theorem openStore (owned : Owned past dir) {tenant : TenantId} (only : dir.HasOnly [tenant.cfName]) {db : DB}
    (opened : OpenedAs dir [tenant.cfName] db) :
    Owned (past ++ [(.openStore tenant, .opened (.ok ()))]) ⟨db, some ⟨db, tenant⟩⟩ := by
  have nowOpened : openedBy (past ++ [(.openStore tenant, .opened (.ok ()))]) = openedBy past ++ [tenant] :=
    openedBy_append _ _
  have sameWritten : storedEvents (past ++ [(.openStore tenant, .opened (.ok ()))]) = storedEvents past := by
    simp [storedEvents]
  have all : ∀ other ∈ openedBy past ++ [tenant], other = tenant := by
    intro other listed
    cases List.mem_append.mp listed with
    | inl earlier => exact (owned.hasOnly_iff tenant).mp only other earlier
    | inr now => exact List.mem_singleton.mp now
  constructor
  case named =>
    intro name listed
    rw [nowOpened]
    obtain own | isDefault := List.mem_pair.mp ((opened.families name).mp listed)
    · exact .inr ⟨tenant, by simp, own⟩
    · exact .inl isDefault
  case one =>
    rw [nowOpened]
    intro first firstIn second secondIn
    rw [all first firstIn, all second secondIn]
  case content =>
    rw [nowOpened, sameWritten]
    intro other listed
    rw [all other listed]
    exact owned.opened_family only opened
  case unopened => simp [nowOpened]
  case held =>
    rw [nowOpened]
    rintro store ⟨⟩
    exact ⟨by simp, rfl⟩

theorem writeBatch (owned : Owned past dir) {store written : TenantStore} (isHeld : dir.holder = some store)
    {batch : WriteBatch} (wrote : store.writeBatch batch = .ok written) :
    Owned (past ++ [(.writeBatch batch, .wrote (.ok ()))]) ⟨written.db, some written⟩ := by
  obtain ⟨opened, sameDb⟩ := owned.held store isHeld
  have family : store.columnFamily = some (familyOf (storedEvents past)) := by
    rw [TenantStore.columnFamily, sameDb]
    exact owned.content store.tenantId opened
  have sameOpened : openedBy (past ++ [(.writeBatch batch, .wrote (.ok ()))]) = openedBy past := by
    simp [openedBy]
  have nowWritten : storedEvents (past ++ [(.writeBatch batch, .wrote (.ok ()))]) = storedEvents past ++ batch.events := by
    simp [storedEvents]
  have after := TenantStore.writeBatch_columnFamily family wrote
  simp only [TenantStore.writeBatch, family, Except.ok.injEq] at wrote
  constructor
  case named =>
    rw [sameOpened]
    intro name listed
    rw [← wrote] at listed
    obtain rfl | listed := (AList.mem_insert _).mp listed
    · exact .inr ⟨store.tenantId, opened, rfl⟩
    · rw [sameDb] at listed
      exact owned.named name listed
  case one => rw [sameOpened]; exact owned.one
  case content =>
    rw [sameOpened, nowWritten]
    intro other listed
    -- whoever has opened the directory is the tenant that holds it
    rw [owned.one other listed store.tenantId opened, familyOf, List.map_append, OrdMap.insertAll_append]
    rw [← wrote] at after ⊢
    exact after
  case unopened =>
    rw [sameOpened]
    intro nobody
    rw [nobody] at opened
    cases opened
  case held =>
    rw [sameOpened]
    rintro other ⟨⟩
    rw [← wrote]
    exact ⟨opened, rfl⟩

end Owned

variable (rocks : RocksDb)

theorem owned_step (past : List (StoreCall × StoreAnswer rocks.Fault)) (dir : DataDir) (call : StoreCall)
    (owned : Owned past dir) : Owned (past ++ [(call, (dir.step rocks call).1)]) (dir.step rocks call).2 := by
  cases call with
  | openStore tenant =>
    obtain ⟨db, opens, opened, _, only⟩ | ⟨⟨fault, fails⟩, _⟩ := TenantStore.open_cases rocks dir tenant
    · simp only [DataDir.step, opens]
      exact owned.openStore only opened
    · simp only [DataDir.step, fails]
      exact owned.quiet rfl rfl rfl (.inr rfl)
  | writeBatch batch =>
    cases isHeld : dir.holder with
    | none =>
      simp only [DataDir.step, isHeld]
      exact owned.quiet rfl rfl rfl (.inr rfl)
    | some store =>
      cases wrote : store.writeBatch batch with
      | ok written =>
        simp only [DataDir.step, isHeld, wrote]
        exact owned.writeBatch isHeld wrote
      | error message =>
        simp only [DataDir.step, isHeld, wrote]
        exact owned.quiet rfl rfl rfl (.inr rfl)
  | readFrom startLsn limit =>
    cases isHeld : dir.holder with
    | none =>
      simp only [DataDir.step, isHeld]
      exact owned.quiet rfl rfl rfl (.inr rfl)
    | some store =>
      simp only [DataDir.step, isHeld]
      exact owned.quiet rfl rfl rfl (.inr rfl)
  | close => exact owned.quiet rfl rfl rfl (.inl rfl)

theorem owned_run (calls : List StoreCall) :
    Owned (trace (DataDir.step rocks) .empty calls).2 (trace (DataDir.step rocks) .empty calls).1 := by
  have initially : Owned ([] : List (StoreCall × StoreAnswer rocks.Fault)) .empty :=
    ⟨fun _ listed => absurd listed (AList.notMem_empty _), by simp [openedBy], by simp [openedBy], fun _ => rfl,
      by simp [DataDir.empty]⟩
  exact trace_invariant Owned initially (owned_step rocks) calls

/-! ## Whole histories -/

/-- At every moment of the history of a directory, a tenant can open it if and only if nobody
    has it open and nobody but this tenant has ever opened it. -/
theorem data_dir_has_one_tenant (calls : List StoreCall) (tenant : TenantId) :
    (∃ store, TenantStore.open_ rocks (trace (DataDir.step rocks) .empty calls).1 tenant = .ok store) ↔
      (trace (DataDir.step rocks) .empty calls).1.holder = none ∧
        ∀ other ∈ openedBy (trace (DataDir.step rocks) .empty calls).2, other = tenant := by
  have owned := owned_run rocks calls
  rw [← owned.hasOnly_iff tenant]
  obtain ⟨db, opens, _, free, only⟩ | ⟨⟨fault, fails⟩, refused⟩ :=
    TenantStore.open_cases rocks (trace (DataDir.step rocks) .empty calls).1 tenant
  · exact ⟨fun _ => ⟨free, only⟩, fun _ => ⟨_, opens⟩⟩
  · refine ⟨?_, fun allowed => absurd allowed refused⟩
    rintro ⟨store, opens⟩
    rw [fails] at opens
    cases opens

theorem image_write_empty {events : List ChangeEvent} (fit : ∀ event ∈ events, event.Fits) :
    (EventLog.empty.write events fit).image = familyOf events := by
  rw [EventLog.image, EventLog.write, OrdMap.mapEntries_insertAll, EventLog.keyedPairs, List.map_map]
  rfl

/-- Every read, in whatever session, returns the events from its LSN on out of all that were
    written before it, in whatever session, unless no vector can have its limit for capacity. -/
theorem sessions_share_log (calls : List StoreCall) (startLsn : Lsn) (limit : Nat) (answer : Exec String (List ChangeEvent))
    (answered : ((trace (DataDir.step rocks) .empty calls).1.step rocks (.readFrom startLsn limit)).1 =
      .read answer)
    (fit : ∀ event ∈ storedEvents (trace (DataDir.step rocks) .empty calls).2, event.Fits) :
    answer = if limit < 2 ^ 56 then .ok (((EventLog.empty.write _ fit).from_ startLsn).take (max limit 1))
      else .error .panic := by
  have owned := owned_run rocks calls
  cases isHeld : (trace (DataDir.step rocks) .empty calls).1.holder with
  | none => simp [DataDir.step, isHeld] at answered
  | some store =>
    simp only [DataDir.step, isHeld, StoreAnswer.read.injEq] at answered
    obtain ⟨opened, sameDb⟩ := owned.held store isHeld
    have holds : Holds store (EventLog.empty.write _ fit) := by
      rw [Holds, image_write_empty, TenantStore.columnFamily, sameDb]
      exact owned.content store.tenantId opened
    rw [← answered]
    split
    · next small => exact readFrom_log holds startLsn small
    · next huge => exact TenantStore.readFrom_panics holds startLsn (not_lt.mp huge)

/-! ### Families in an association list -/

def createMissing (db : DB) (name : String) : DB := if name ∈ db then db else db.insert name .empty

/-- The families of a database and these, the missing ones empty. -/
structure Extends (before : DB) (names : List String) (db : DB) : Prop where
  families : ∀ name, name ∈ db ↔ name ∈ before ∨ name ∈ names
  kept : ∀ name ∈ before, db.lookup name = before.lookup name
  created : ∀ name ∈ db, name ∉ before → db.lookup name = some .empty

theorem extends_createMissing (before : DB) (name : String) : Extends before [name] (createMissing before name) := by
  unfold createMissing
  split
  next present =>
    refine ⟨?_, fun _ _ => rfl, fun other listed missing => absurd listed missing⟩
    intro other
    rw [List.mem_singleton, iff_self_or]
    rintro rfl
    exact present
  next missing =>
    refine ⟨?_, ?_, ?_⟩
    · intro other
      rw [AList.mem_insert, List.mem_singleton, or_comm]
    · intro other listed
      rw [AList.lookup_insert_ne]
      rintro rfl
      exact missing listed
    · intro other listed new
      obtain rfl | old := (AList.mem_insert _).mp listed
      · exact AList.lookup_insert _
      · exact absurd old new

theorem Extends.trans {before middle after : DB} {first second : List String} (one : Extends before first middle)
    (two : Extends middle second after) : Extends before (first ++ second) after := by
  refine ⟨?_, ?_, ?_⟩
  · intro name
    rw [two.families, one.families, List.mem_append, or_assoc]
  · intro name listed
    rw [two.kept name ((one.families name).mpr (.inl listed)), one.kept name listed]
  · intro name listed new
    by_cases inMiddle : name ∈ middle
    · rw [two.kept name inMiddle, one.created name inMiddle new]
    · exact two.created name listed inMiddle

theorem extends_foldl (before : DB) (names : List String) : Extends before names (names.foldl createMissing before) := by
  induction names generalizing before with
  | nil => exact ⟨by simp, fun _ _ => rfl, fun name listed missing => absurd listed missing⟩
  | cons name names inductionHypothesis =>
    exact (extends_createMissing before name).trans (inductionHypothesis _)

instance (dir : DataDir) (names : List String) : Decidable (dir.HasOnly names) :=
  inferInstanceAs (Decidable (∀ name ∈ dir.families.keys, name ∈ names ++ [defaultFamily]))

/-- RocksDB as it is assumed. -/
def listedFamilies : RocksDb where
  Fault := Unit
  openCf dir names :=
    if dir.holder.isNone ∧ dir.HasOnly names then .ok ((names ++ [defaultFamily]).foldl createMissing dir.families)
    else .error ()
  createCf db name := .ok (db.insert name .empty)
  opens dir names free only := by
    have extended := extends_foldl dir.families (names ++ [defaultFamily])
    refine ⟨_, if_pos ⟨by simp [free], only⟩, ?_, extended.kept, extended.created⟩
    intro name
    rw [extended.families, or_iff_right_of_imp (only name)]
  refuses dir names refused := ⟨(), if_neg (by simpa using refused)⟩

/-- A second session finds the event of the first, another tenant was refused in between. -/
def twoSessions : List StoreCall :=
  [.openStore ⟨"a"⟩, .writeBatch (WriteBatch.new.push (orderInsert 9 1)), .openStore ⟨"a"⟩, .close, .openStore ⟨"b"⟩,
    .openStore ⟨"a"⟩, .writeBatch (WriteBatch.new.push (orderInsert 7 2))]

theorem sessions_share_log_two_sessions :
    ∃ answer, ((trace (DataDir.step listedFamilies) .empty twoSessions).1.step listedFamilies (.readFrom 0 9)).1 =
        .read answer ∧
      ∃ log : EventLog, answer = .ok ((log.from_ 0).take 9) ∧ orderInsert 9 1 ∈ log.events := by
  have fit : ∀ event ∈ storedEvents (trace (DataDir.step listedFamilies) .empty twoSessions).2, event.Fits := by decide
  obtain ⟨answer, answered⟩ : ∃ answer,
      ((trace (DataDir.step listedFamilies) .empty twoSessions).1.step listedFamilies (.readFrom 0 9)).1 =
        .read answer :=
    ⟨_, rfl⟩
  refine ⟨answer, answered, EventLog.empty.write _ fit,
    sessions_share_log listedFamilies twoSessions 0 9 answer answered fit, ?_⟩
  rw [EventLog.mem_write_empty]
  exact ⟨[], [orderInsert 7 2], by decide, by decide⟩

end Nendi.Verified
