import Nendi.Core.Gc

/-! # Computing the watermark while consumers commit

`min_offset` of `core/src/offset/registry.rs` iterates over a concurrent map.  The map is
split into shards, each under a lock of its own, and the iteration holds the lock of one
shard at a time: while it is in one shard, offsets in the others change.  A collection then
goes through the stored keys with the watermark that came out, and may still do so while further
iterations go on. -/

namespace Nendi.Core

open Nendi.Lib Nendi.Shared

structure Sharding where
  count : Nat
  shardOf : String → Fin count

/-- The loop of `min_offset` between two shards: the shard that comes next, and `min`. -/
structure OffsetScan where
  next : Nat
  least : Lsn
deriving DecidableEq, Repr

namespace OffsetScan

def start : OffsetScan := ⟨0, Lsn.max⟩

/-- The entries of the next shard, as they are when its lock is taken. -/
def readShard (sharding : Sharding) (registry : OffsetRegistry) (scan : OffsetScan) : OffsetScan where
  next := scan.next + 1
  least := (registry.offsets.entries.filter fun entry => (sharding.shardOf entry.1).val = scan.next).foldl
    OffsetRegistry.lower scan.least

/-- What `min_offset` returns behind its loop. -/
def watermark (scan : OffsetScan) : Lsn := if scan.least = Lsn.max then Lsn.zero else scan.least

end OffsetScan

inductive ScanStep where
  | commit (step : CommitStep)
  | unregister (consumer : String)
  | write (event : ChangeEvent)
  | beginScan (id : Nat)
  | readShard (id : Nat)
  -- a collection with the watermark of a scan looks at one key
  | compact (id : Nat) (key : List UInt8)

/-- Commits, computations of the watermark and collections, running side by side.  Of a scan that is
    over, the entry stays for the collections that use its watermark. -/
structure ScanState where
  commits : CommitRace
  scans : Nat → Option OffsetScan
  events : ColumnFamily

namespace ScanState

def offset (state : ScanState) (consumer : String) : Option Lsn := state.commits.registry.get consumer

def step (sharding : Sharding) (state : ScanState) : ScanStep → ScanState
  | .commit step => { state with commits := state.commits.step step }
  | .unregister consumer =>
    { state with commits := { state.commits with registry := state.commits.registry.remove consumer } }
  | .write event => { state with events := state.events.insert (makeKey event) (encodeEvent event) }
  | .beginScan id => { state with scans := Function.update state.scans id (some .start) }
  | .readShard id =>
    { state with
      scans := Function.update state.scans id
        ((state.scans id).map (OffsetScan.readShard sharding state.commits.registry)) }
  | .compact id key =>
    match state.scans id with
    | none => state
    | some scan =>
      -- the watermark is there once all shards have been read
      if sharding.count ≤ scan.next ∧ (EventGcFilter.new scan.watermark).filter key = .remove then
        { state with events := state.events.filterKeys (· ≠ key) }
      else state

def after (sharding : Sharding) (state : ScanState) (steps : List ScanStep) : ScanState :=
  steps.foldl (step sharding) state

theorem after_snoc (sharding : Sharding) (state : ScanState) (past : List ScanStep) (next : ScanStep) :
    state.after sharding (past ++ [next]) = (state.after sharding past).step sharding next := by
  rw [after, List.foldl_append]
  rfl

theorem step_scans_cases {sharding : Sharding} {state : ScanState} {step : ScanStep} {id : Nat} {scan : OffsetScan}
    (scanning : (state.step sharding step).scans id = some scan) :
    state.scans id = some scan ∨ scan = .start ∨
      ∃ before, state.scans id = some before ∧ scan = before.readShard sharding state.commits.registry := by
  cases step with
  | commit step => exact .inl scanning
  | unregister leaving => exact .inl scanning
  | write event => exact .inl scanning
  | beginScan begun =>
    by_cases same : id = begun
    · subst same
      simp only [ScanState.step, Function.update_self, Option.some.injEq] at scanning
      exact .inr (.inl scanning.symm)
    · simp only [ScanState.step, Function.update_of_ne same] at scanning
      exact .inl scanning
  | readShard reading =>
    by_cases same : id = reading
    · subst same
      simp only [ScanState.step, Function.update_self, Option.map_eq_some_iff] at scanning
      obtain ⟨before, wasScan, rfl⟩ := scanning
      exact .inr (.inr ⟨before, wasScan, rfl⟩)
    · simp only [ScanState.step, Function.update_of_ne same] at scanning
      exact .inl scanning
  | compact used key =>
    left
    simp only [ScanState.step] at scanning
    split at scanning
    · exact scanning
    · split at scanning <;> exact scanning

def Holds (state : ScanState) (event : ChangeEvent) : Prop :=
  ∃ value, (makeKey event, value) ∈ state.events.entries

end ScanState

/-! ## Reading a shard -/

namespace OffsetScan

variable {sharding : Sharding} {registry : OffsetRegistry} {scan : OffsetScan}

theorem readShard_isLeast (sharding : Sharding) (registry : OffsetRegistry) (scan : OffsetScan) :
    IsLeast (Insert.insert scan.least
        {lsn | ∃ consumer, registry.get consumer = some lsn ∧ (sharding.shardOf consumer).val = scan.next})
      (scan.readShard sharding registry).least := by
  have inShard : {lsn | ∃ consumer, registry.get consumer = some lsn ∧ (sharding.shardOf consumer).val = scan.next} =
      {lsn | ∃ entry ∈ registry.offsets.entries.filter (fun entry => (sharding.shardOf entry.1).val = scan.next),
        entry.2 = lsn} := by
    ext lsn
    constructor
    · rintro ⟨consumer, found, here⟩
      exact ⟨⟨consumer, lsn⟩, by simpa [here] using AList.mem_lookup_iff.mp found, rfl⟩
    · rintro ⟨entry, member, rfl⟩
      obtain ⟨listed, here⟩ := List.mem_filter.mp member
      exact ⟨entry.1, AList.mem_lookup_iff.mpr listed, by simpa using here⟩
  rw [inShard]
  exact OffsetRegistry.foldl_lower_isLeast _ _

theorem readShard_le (sharding : Sharding) (registry : OffsetRegistry) (scan : OffsetScan) :
    (scan.readShard sharding registry).least ≤ scan.least :=
  (readShard_isLeast sharding registry scan).2 (Set.mem_insert _ _)

theorem readShard_le_offset {consumer : String} {offset : Lsn} (found : registry.get consumer = some offset)
    (here : (sharding.shardOf consumer).val = scan.next) : (scan.readShard sharding registry).least ≤ offset :=
  (readShard_isLeast sharding registry scan).2 (Set.mem_insert_of_mem _ ⟨consumer, found, here⟩)

theorem readShard_cases (sharding : Sharding) (registry : OffsetRegistry) (scan : OffsetScan) :
    (scan.readShard sharding registry).least = scan.least ∨
      ∃ consumer, registry.get consumer = some (scan.readShard sharding registry).least := by
  obtain same | ⟨consumer, found, _⟩ := (readShard_isLeast sharding registry scan).1
  · exact .inl same
  · exact .inr ⟨consumer, found⟩

theorem watermark_le (scan : OffsetScan) : scan.watermark ≤ scan.least := by
  rw [watermark]
  split
  · simp [Lsn.zero]
  · exact le_refl _

/-! ## A scan that nothing comes between -/

def Read (sharding : Sharding) (registry : OffsetRegistry) (scan : OffsetScan) : Prop :=
  IsLeast (Insert.insert Lsn.max
    {lsn | ∃ consumer, registry.get consumer = some lsn ∧ (sharding.shardOf consumer).val < scan.next}) scan.least

theorem read_start (sharding : Sharding) (registry : OffsetRegistry) : start.Read sharding registry := by
  simp [Read, start]

theorem read_readShard (read : scan.Read sharding registry) :
    (scan.readShard sharding registry).Read sharding registry := by
  have least := readShard_isLeast sharding registry scan
  constructor
  · obtain same | ⟨consumer, found, here⟩ := least.1
    · rw [same]
      obtain isMax | ⟨consumer, found, earlier⟩ := read.1
      · exact .inl isMax
      · exact .inr ⟨consumer, found, Nat.lt_succ_of_lt earlier⟩
    · exact .inr ⟨consumer, found, by rw [here]; exact Nat.lt_succ_self _⟩
  · rintro lsn (isMax | ⟨consumer, found, earlier⟩)
    · exact (readShard_le sharding registry scan).trans (read.2 (.inl isMax))
    · obtain before | here := Nat.lt_succ_iff_lt_or_eq.mp earlier
      · exact (readShard_le sharding registry scan).trans (read.2 (.inr ⟨consumer, found, before⟩))
      · exact readShard_le_offset found here

theorem readShard_iterate_next (sharding : Sharding) (registry : OffsetRegistry) (rounds : Nat) :
    ((readShard sharding registry)^[rounds] start).next = rounds := by
  induction rounds with
  | zero => rfl
  | succ rounds inductionHypothesis =>
    rw [Function.iterate_succ_apply', readShard, inductionHypothesis]

/-- Shard by shard the loop computes `min_offset`. -/
theorem watermark_alone (sharding : Sharding) (registry : OffsetRegistry) :
    ((readShard sharding registry)^[sharding.count] start).watermark = registry.minOffset := by
  have read : ∀ rounds, Read sharding registry ((readShard sharding registry)^[rounds] start) := by
    intro rounds
    induction rounds with
    | zero => exact read_start sharding registry
    | succ rounds inductionHypothesis =>
      rw [Function.iterate_succ_apply']
      exact read_readShard inductionHypothesis
  have all := read sharding.count
  rw [Read, readShard_iterate_next] at all
  simp only [Fin.is_lt, and_true] at all
  rw [watermark, OffsetRegistry.minOffset, all.unique (OffsetRegistry.lowest_isLeast registry.offsets)]

end OffsetScan

end Nendi.Core
