import Mathlib.Data.List.AList
import Mathlib.Data.List.Induction
import Mathlib.Order.Bounds.Basic
import Nendi.Lib.BigEndian
import Nendi.Lib.Interleaving
import Nendi.Shared.Event

/-! # Consumer offsets

`OffsetRegistry` and `OffsetManager` of `core/src/offset`.  The concurrent map is
an association list with distinct keys; its iteration order is not the source's,
which only the minimum of the offsets could notice and does not. -/

namespace Nendi.Core

open Nendi.Lib Nendi.Shared

structure OffsetRegression where
  consumer : String
  attempted : UInt64
  current : UInt64
deriving DecidableEq, Repr

structure OffsetRegistry where
  offsets : AList fun _ : String => Lsn

namespace OffsetRegistry

def new : OffsetRegistry := ⟨∅⟩

def get (registry : OffsetRegistry) (consumer : String) : Option Lsn := registry.offsets.lookup consumer

def insert (registry : OffsetRegistry) (consumer : String) (lsn : Lsn) : OffsetRegistry :=
  ⟨registry.offsets.insert consumer lsn⟩

/-- `commit` behind its lookup: a commit behind the offset seen is refused and changes nothing. -/
def commitWith (registry : OffsetRegistry) (consumer : String) (lsn : Lsn) (seen : Option Lsn) :
    Except OffsetRegression Unit × OffsetRegistry :=
  match seen with
  | some current =>
    if current.isAheadOf lsn then
      (.error { consumer, attempted := lsn, current }, registry)
    else
      (.ok (), registry.insert consumer lsn)
  | none => (.ok (), registry.insert consumer lsn)

def commit (registry : OffsetRegistry) (consumer : String) (lsn : Lsn) :
    Except OffsetRegression Unit × OffsetRegistry :=
  registry.commitWith consumer lsn (registry.get consumer)

def remove (registry : OffsetRegistry) (consumer : String) : OffsetRegistry :=
  ⟨registry.offsets.erase consumer⟩

/-- One round of the loop in `min_offset`. -/
def lower (least : Lsn) (entry : (_ : String) × Lsn) : Lsn :=
  if entry.2 < least then entry.2 else least

def minOffset (registry : OffsetRegistry) : Lsn :=
  let least := registry.offsets.entries.foldl lower Lsn.max
  if least = Lsn.max then Lsn.zero else least

/-! ## Lookups after updates -/

@[simp] theorem get_insert (registry : OffsetRegistry) (consumer : String) (lsn : Lsn) :
    (registry.insert consumer lsn).get consumer = some lsn := AList.lookup_insert _

theorem get_insert_of_ne {registry : OffsetRegistry} {consumer other : String} (lsn : Lsn)
    (different : other ≠ consumer) : (registry.insert consumer lsn).get other = registry.get other :=
  AList.lookup_insert_ne different

theorem get_remove_of_ne {registry : OffsetRegistry} {consumer other : String}
    (different : other ≠ consumer) : (registry.remove consumer).get other = registry.get other :=
  AList.lookup_erase_ne different

theorem commit_cases (registry : OffsetRegistry) (consumer : String) (lsn : Lsn) :
    (∃ current, registry.get consumer = some current ∧ lsn < current ∧
        registry.commit consumer lsn = (.error { consumer, attempted := lsn, current }, registry)) ∨
      (∀ current, registry.get consumer = some current → current ≤ lsn) ∧
        registry.commit consumer lsn = (.ok (), registry.insert consumer lsn) := by
  cases found : registry.get consumer with
  | none => exact .inr ⟨nofun, by simp [commit, commitWith, found]⟩
  | some current =>
    by_cases behind : lsn < current
    · exact .inl ⟨current, rfl, behind, by simp [commit, commitWith, found, Lsn.isAheadOf, behind]⟩
    · refine .inr ⟨?_, by simp [commit, commitWith, found, Lsn.isAheadOf, behind]⟩
      intro other same
      cases same
      exact not_lt.mp behind

/-! ## The minimum -/

theorem foldl_lower_isLeast (entries : List ((_ : String) × Lsn)) (least : Lsn) :
    IsLeast (Insert.insert least {lsn | ∃ entry ∈ entries, entry.2 = lsn}) (entries.foldl lower least) := by
  induction entries using List.reverseRecOn with
  | nil =>
    simp only [List.foldl_nil, List.not_mem_nil, false_and, exists_false, Set.ofPred_false, insert_empty_eq]
    exact isLeast_singleton
  | append_singleton entries last inductionHypothesis =>
    have more : Insert.insert least {lsn | ∃ entry ∈ entries ++ [last], entry.2 = lsn} =
        Insert.insert last.2 (Insert.insert least {lsn | ∃ entry ∈ entries, entry.2 = lsn}) := by
      ext lsn
      simp only [List.mem_append, List.mem_singleton, Set.mem_insert_iff, Set.mem_ofPred_eq, or_and_right,
        exists_or, exists_eq_left, @eq_comm _ last.2 lsn]
      exact or_assoc.symm.trans or_comm
    rw [more, List.foldl_append, List.foldl_cons, List.foldl_nil, lower, ← min_def_lt]
    exact inductionHypothesis.insert last.2

theorem lowest_isLeast (offsets : AList fun _ : String => Lsn) :
    IsLeast (Insert.insert Lsn.max {lsn | ∃ consumer, offsets.lookup consumer = some lsn})
      (offsets.entries.foldl lower Lsn.max) := by
  have tracked : {lsn | ∃ consumer, offsets.lookup consumer = some lsn} =
      {lsn | ∃ entry ∈ offsets.entries, entry.2 = lsn} := by
    ext lsn
    constructor
    · rintro ⟨consumer, found⟩
      exact ⟨⟨consumer, lsn⟩, AList.mem_lookup_iff.mp found, rfl⟩
    · rintro ⟨entry, member, rfl⟩
      exact ⟨entry.1, AList.mem_lookup_iff.mpr member⟩
  rw [tracked]
  exact foldl_lower_isLeast offsets.entries Lsn.max

theorem minOffset_le {registry : OffsetRegistry} {consumer : String} {offset : Lsn}
    (found : registry.get consumer = some offset) : registry.minOffset ≤ offset := by
  have below := (lowest_isLeast registry.offsets).2 (Set.mem_insert_of_mem _ ⟨consumer, found⟩)
  simp only [minOffset]
  split
  next none_tracked => simp [Lsn.zero]
  next tracked => exact below

theorem minOffset_attained {registry : OffsetRegistry} {consumer : String} {offset : Lsn}
    (found : registry.get consumer = some offset) (below : offset < Lsn.max) :
    ∃ lowest, registry.get lowest = some registry.minOffset := by
  have isLeast := lowest_isLeast registry.offsets
  have atMost := isLeast.2 (Set.mem_insert_of_mem _ ⟨consumer, found⟩)
  have notMax : registry.offsets.entries.foldl lower Lsn.max ≠ Lsn.max :=
    ne_of_lt (lt_of_le_of_lt atMost below)
  simp only [minOffset, if_neg notMax]
  exact isLeast.1.resolve_left notMax

end OffsetRegistry

structure OffsetManager where
  registry : OffsetRegistry

namespace OffsetManager

def new : OffsetManager := ⟨.new⟩

def commit (manager : OffsetManager) (consumer : String) (lsn : Lsn) :
    Except OffsetRegression Unit × OffsetManager :=
  let (result, registry) := manager.registry.commit consumer lsn
  (result, ⟨registry⟩)

/-- Where a consumer resumes: one past its committed offset, or the beginning. -/
def resumeLsn (manager : OffsetManager) (consumer : String) : Lsn :=
  ((manager.registry.get consumer).map fun lsn => lsn.saturatingAdd 1).getD Lsn.zero

def watermark (manager : OffsetManager) : Lsn := manager.registry.minOffset

/-- Registration only logs: the registry is not touched. -/
def registerConsumer (manager : OffsetManager) (_consumer : String) : OffsetManager := manager

def unregisterConsumer (manager : OffsetManager) (consumer : String) : OffsetManager :=
  ⟨manager.registry.remove consumer⟩

theorem resumeLsn_of_none {manager : OffsetManager} {consumer : String}
    (absent : manager.registry.get consumer = none) : manager.resumeLsn consumer = Lsn.zero := by
  rw [resumeLsn, absent]
  rfl

theorem resumeLsn_of_some {manager : OffsetManager} {consumer : String} {offset : Lsn}
    (found : manager.registry.get consumer = some offset) :
    manager.resumeLsn consumer = offset.saturatingAdd 1 := by
  rw [resumeLsn, found]
  rfl

theorem resumeLsn_congr {first second : OffsetManager} {consumer : String}
    (same : first.registry.get consumer = second.registry.get consumer) :
    first.resumeLsn consumer = second.resumeLsn consumer := by
  rw [resumeLsn, resumeLsn, same]

end OffsetManager

/-! ## Concurrent commits

The map of the registry is shared and `commit` uses it twice: it looks the current
offset up, and checks and inserts on the strength of what it saw. -/

structure CommitRequest where
  consumer : String
  lsn : Lsn
deriving DecidableEq, Repr

/-- The two atomic steps of the request at `place`. -/
inductive CommitStep where
  | lookup (place : Nat) (request : CommitRequest)
  | finish (place : Nat) (request : CommitRequest)
deriving DecidableEq, Repr

/-- The shared registry, and for each request the local `current` of its call. -/
structure CommitRace where
  registry : OffsetRegistry
  seen : Nat → Option Lsn

namespace CommitRace

def step (race : CommitRace) : CommitStep → CommitRace
  | .lookup place request =>
    { race with seen := Function.update race.seen place (race.registry.get request.consumer) }
  | .finish place request =>
    { race with registry := (race.registry.commitWith request.consumer request.lsn (race.seen place)).2 }

def after (registry : OffsetRegistry) (order : List CommitStep) : CommitRace :=
  order.foldl step ⟨registry, fun _ => none⟩

theorem after_snoc (registry : OffsetRegistry) (past : List CommitStep) (action : CommitStep) :
    after registry (past ++ [action]) = (after registry past).step action := by
  rw [after, List.foldl_append]
  rfl

end CommitRace

def commitPrograms (requests : List CommitRequest) : List (List CommitStep) :=
  requests.mapIdx fun place request => [.lookup place request, .finish place request]

end Nendi.Core
