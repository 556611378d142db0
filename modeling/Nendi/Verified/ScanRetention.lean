import Nendi.Core.OffsetScan
import Nendi.Verified.EventLog

/-! # Collections with a watermark that is out of date

By the time the watermark has been put together from the shards, offsets have changed.
`scanned_watermark` says what the number that comes out has to do with the offsets there
were, and `scan_keeps_unread` that no collection that uses it removes an event that a
consumer has not passed, if the consumer had committed when its shard was read. -/

namespace Nendi.Verified

open Nendi.Lib Nendi.Shared Nendi.Core

section
variable {sharding : Sharding} {state : ScanState} {steps : List ScanStep} {consumer : String}

def Unread (sharding : Sharding) (state : ScanState) (consumer : String) : Prop :=
  ∀ id scan, state.scans id = some scan → scan.next ≤ sharding.shardOf consumer

/-- Once the consumer's shard was read, the least LSN is at most one in `bounds`. -/
def Covers (sharding : Sharding) (state : ScanState) (id : Nat) (consumer : String) (bounds : Set Lsn) : Prop :=
  ∀ scan, state.scans id = some scan → (sharding.shardOf consumer).val < scan.next →
    ∃ offset ∈ bounds, scan.least ≤ offset

theorem covers_step {id : Nat} {bounds : Set Lsn} (covers : Covers sharding state id consumer bounds) {offset : Lsn}
    (tracked : state.offset consumer = some offset) (inBounds : offset ∈ bounds) (step : ScanStep) :
    Covers sharding (state.step sharding step) id consumer bounds := by
  intro scan scanning behind
  obtain wasScan | rfl | ⟨before, wasScan, rfl⟩ := ScanState.step_scans_cases scanning
  · exact covers scan wasScan behind
  · exact absurd behind (Nat.not_lt_zero _)
  · obtain earlier | here := Nat.lt_succ_iff_lt_or_eq.mp behind
    · obtain ⟨bound, isBound, le⟩ := covers before wasScan earlier
      exact ⟨bound, isBound, (OffsetScan.readShard_le _ _ _).trans le⟩
    · exact ⟨offset, inBounds, OffsetScan.readShard_le_offset tracked here⟩

theorem covers_after {id : Nat} {bounds : Set Lsn}
    (unread : ∀ scan, state.scans id = some scan → scan.next ≤ sharding.shardOf consumer)
    (held : ∀ past, past <+: steps → ∃ offset ∈ bounds, (state.after sharding past).offset consumer = some offset) :
    Covers sharding (state.after sharding steps) id consumer bounds := by
  induction steps using List.reverseRecOn with
  | nil =>
    intro scan isScan behind
    exact absurd behind (Nat.not_lt.mpr (unread scan isScan))
  | append_singleton steps step inductionHypothesis =>
    have covers := inductionHypothesis fun past isPrefix => held past (isPrefix.trans (List.prefix_append _ _))
    obtain ⟨offset, inBounds, tracked⟩ := held steps (List.prefix_append _ _)
    rw [ScanState.after_snoc]
    exact covers_step covers tracked inBounds step

/-! ## What the watermark is -/

theorem least_origin {id : Nat} (idle : state.scans id = none) {scan : OffsetScan}
    (scanning : (state.after sharding steps).scans id = some scan) :
    scan.least = Lsn.max ∨
      ∃ past, past <+: steps ∧ ∃ consumer, (state.after sharding past).offset consumer = some scan.least := by
  -- the least LSN of a scan was somebody's offset, or nobody's was read
  induction steps using List.reverseRecOn generalizing scan with
  | nil =>
    rw [ScanState.after, List.foldl_nil, idle] at scanning
    cases scanning
  | append_singleton steps step inductionHypothesis =>
    have earlier : ∀ scan, (state.after sharding steps).scans id = some scan → scan.least = Lsn.max ∨
        ∃ past, past <+: steps ++ [step] ∧
          ∃ consumer, (state.after sharding past).offset consumer = some scan.least := by
      intro scan wasScan
      obtain isMax | ⟨past, isPrefix, found⟩ := inductionHypothesis wasScan
      · exact .inl isMax
      · exact .inr ⟨past, isPrefix.trans (List.prefix_append _ _), found⟩
    rw [ScanState.after_snoc] at scanning
    obtain wasScan | rfl | ⟨before, wasScan, rfl⟩ := ScanState.step_scans_cases scanning
    · exact earlier scan wasScan
    · exact .inl rfl
    -- a new least LSN is read from the registry as it is now, with what was done so far
    · obtain same | found := OffsetScan.readShard_cases sharding (state.after sharding steps).commits.registry before
      · rw [same]
        exact earlier before wasScan
      · exact .inr ⟨steps, List.prefix_append _ _, found⟩

end

/-- However commits and departures overlap with the scan, the watermark is zero or an offset
    that somebody had in the meantime, and it is at most some offset that each consumer had
    which was there all the time. -/
theorem scanned_watermark (sharding : Sharding) (state : ScanState) (steps : List ScanStep) (id : Nat)
    (scan : OffsetScan) (idle : state.scans id = none) (scanned : (state.after sharding steps).scans id = some scan)
    (complete : sharding.count ≤ scan.next) :
    (scan.watermark = Lsn.zero ∨
      ∃ past, past <+: steps ∧ ∃ consumer, (state.after sharding past).offset consumer = some scan.watermark) ∧
    ∀ consumer, (∀ past, past <+: steps → (state.after sharding past).offset consumer ≠ none) →
      ∃ past, past <+: steps ∧
        ∃ offset, (state.after sharding past).offset consumer = some offset ∧ scan.watermark ≤ offset := by
  constructor
  · by_cases isMax : scan.least = Lsn.max
    · exact .inl (by simp [OffsetScan.watermark, isMax])
    · rw [OffsetScan.watermark, if_neg isMax]
      exact .inr ((least_origin idle scanned).resolve_left isMax)
  · intro consumer tracked
    -- the bounds are the offsets that the consumer has had in the meantime
    have covers : Covers sharding (state.after sharding steps) id consumer
        {offset | ∃ past, past <+: steps ∧ (state.after sharding past).offset consumer = some offset} := by
      apply covers_after
      · intro before isScan
        rw [idle] at isScan
        cases isScan
      · intro past isPrefix
        obtain ⟨offset, found⟩ := Option.ne_none_iff_exists'.mp (tracked past isPrefix)
        exact ⟨offset, ⟨past, isPrefix, found⟩, found⟩
    obtain ⟨offset, ⟨past, isPrefix, found⟩, le⟩ :=
      covers scan scanned ((sharding.shardOf consumer).isLt.trans_le complete)
    exact ⟨past, isPrefix, offset, found, scan.watermark_le.trans le⟩

/-- Two shards.  `search` is at 9 when its shard is read and at 20 in the end. -/
def overtakenScan : List ScanStep :=
  [.beginScan 0, .readShard 0, .commit (.lookup 0 ⟨"search", 20⟩), .readShard 0, .commit (.finish 0 ⟨"search", 20⟩)]

def twoShards : Sharding := ⟨2, fun consumer => if consumer = "audit" then 0 else 1⟩

def auditAndSearch : ScanState where
  commits := ⟨(OffsetRegistry.new.insert "audit" 12).insert "search" 9, fun _ => none⟩
  scans := fun _ => none
  events := .empty

theorem scanned_watermark_overtaken :
    (auditAndSearch.after twoShards overtakenScan).scans 0 = some ⟨2, 9⟩ ∧
      ((OffsetScan.watermark ⟨2, 9⟩ = Lsn.zero ∨
        ∃ past, past <+: overtakenScan ∧ ∃ consumer,
          (auditAndSearch.after twoShards past).offset consumer = some (OffsetScan.watermark ⟨2, 9⟩))) :=
  ⟨by decide, (scanned_watermark twoShards auditAndSearch overtakenScan 0 ⟨2, 9⟩ rfl (by decide) (by decide)).1⟩

/-! ## What a collection removes -/

theorem holds_step {sharding : Sharding} {state : ScanState} {event : ChangeEvent} (holds : state.Holds event)
    (safe : ∀ id scan, state.scans id = some scan → sharding.count ≤ scan.next → scan.watermark ≤ event.lsn)
    (step : ScanStep) : (state.step sharding step).Holds event := by
  obtain ⟨value, stored⟩ := holds
  cases step with
  | commit step => exact ⟨value, stored⟩
  | unregister leaving => exact ⟨value, stored⟩
  | beginScan id => exact ⟨value, stored⟩
  | readShard id => exact ⟨value, stored⟩
  | write written =>
    by_cases same : makeKey event = makeKey written
    · exact ⟨encodeEvent written, (OrdMap.mem_insert _ _ _ _).mpr (.inl (by rw [same]))⟩
    · exact ⟨value, (OrdMap.mem_insert _ _ _ _).mpr (.inr ⟨same, stored⟩)⟩
  | compact id key =>
    cases isScan : state.scans id with
    | none => simpa [ScanState.step, isScan] using ⟨value, stored⟩
    | some scan =>
      simp only [ScanState.step, isScan]
      split
      next removes =>
        -- the filter was asked about another key, as it keeps this one
        have kept := (EventGcFilter.filter_makeKey scan.watermark event).mpr (safe id scan isScan removes.1)
        have other : makeKey event ≠ key := by
          rintro rfl
          rw [kept] at removes
          cases removes.2
        exact ⟨value, (OrdMap.mem_filterKeys _ _ _).mpr ⟨stored, by simpa using other⟩⟩
      next => exact ⟨value, stored⟩

theorem holds_written (sharding : Sharding) (state : ScanState) (event : ChangeEvent) :
    (state.step sharding (.write event)).Holds event :=
  ⟨encodeEvent event, (OrdMap.mem_insert _ _ _ _).mpr (.inl rfl)⟩

/-- An event that was stored, or is written, is there as long as some consumer that had
    committed before its shard was read stays at or before it.  It does not matter how often the watermark
    is computed, what happens in between, and when a collection looks at which key, with the watermark
    of whichever scan. -/
theorem scan_keeps_unread (sharding : Sharding) (state : ScanState) (steps : List ScanStep) (consumer : String)
    (event : ChangeEvent) (unread : Unread sharding state consumer)
    (held : ∀ past, past <+: steps →
      ∃ offset, offset ≤ event.lsn ∧ (state.after sharding past).offset consumer = some offset)
    (present : state.Holds event ∨ .write event ∈ steps) : (state.after sharding steps).Holds event := by
  induction steps using List.reverseRecOn with
  | nil => exact present.resolve_right (by simp)
  | append_singleton steps step inductionHypothesis =>
    have heldBefore : ∀ past, past <+: steps →
        ∃ offset, offset ≤ event.lsn ∧ (state.after sharding past).offset consumer = some offset :=
      fun past isPrefix => held past (isPrefix.trans (List.prefix_append _ _))
    have covers : ∀ id, Covers sharding (state.after sharding steps) id consumer {offset | offset ≤ event.lsn} :=
      fun id => covers_after (unread id) heldBefore
    rw [ScanState.after_snoc]
    by_cases isWrite : step = .write event
    · rw [isWrite]
      exact holds_written sharding _ event
    · have before : state.Holds event ∨ .write event ∈ steps := by simpa [Ne.symm isWrite] using present
      -- a scan that is over has read the consumer's shard, whichever scan it is
      apply holds_step (inductionHypothesis heldBefore before)
      intro id scan isScan complete
      obtain ⟨offset, le, least⟩ := covers id scan isScan ((sharding.shardOf consumer).isLt.trans_le complete)
      exact scan.watermark_le.trans (least.trans le)

/-- The event at 10 is kept for `search`, which stands at 9 when the collection comes by, with the
    watermark of a scan that is over while another is on. -/
theorem scan_keeps_unread_event :
    (auditAndSearch.after twoShards [.write (orderInsert 10 1), .beginScan 0, .readShard 0, .readShard 0, .beginScan 1,
      .compact 0 (makeKey (orderInsert 10 1))]).Holds (orderInsert 10 1) := by
  apply scan_keeps_unread twoShards auditAndSearch _ "search" (orderInsert 10 1)
  · intro id scan isScan
    cases isScan
  · intro past isPrefix
    refine ⟨9, by decide, ?_⟩
    rw [List.prefix_iff_eq_take.mp isPrefix]
    match past.length with
    | 0 | 1 | 2 | 3 | 4 | 5 => rfl
    | _ + 6 =>
      rw [List.take_of_length_le (by simp)]
      rfl
  · simp

/-- A consumer whose first commit comes behind the scan of its shard is not seen. -/
example : (auditAndSearch.after twoShards [.write (orderInsert 10 1), .unregister "search", .beginScan 0,
    .readShard 0, .readShard 0, .commit (.lookup 0 ⟨"search", 9⟩), .commit (.finish 0 ⟨"search", 9⟩),
    .compact 0 (makeKey (orderInsert 10 1))]).events.get? (makeKey (orderInsert 10 1)) = none := by decide

end Nendi.Verified
