import Nendi.Verified.WalRecovery

/-! # The log across restarts

A new writer starts again at segment one and appends to the files it finds.  So
a session that rotated has left records in segments with higher numbers than the
ones the next session writes first.  `wal_order_survives_iff` states exactly when
the order of the segments is still the order of the appends. -/

namespace Nendi.Verified

open Nendi.Lib Nendi.Shared Nendi.Core

/-! ## Sessions -/

/-- The life of one writer, whose appends all succeed. -/
structure Session where
  maxSegmentBytes : Nat
  records : List Record

namespace Session

def opened (session : Session) (dir : Directory) : Wal := Wal.new dir session.maxSegmentBytes

def calls (session : Session) : List Call := session.records.map .plain

def placed (session : Session) (dir : Directory) : List (Nat × Record) :=
  (session.opened dir).stored session.calls

def leaves (session : Session) (dir : Directory) : Directory :=
  ((session.opened dir).after session.calls).dir

/-- All records go to one segment: there is at most one, or those before the last
    do not fill it. -/
def StaysInOne (session : Session) : Prop :=
  session.records.length ≤ 1 ∨ bytesOf session.records.dropLast < session.maxSegmentBytes

end Session

def dirAfter (dir : Directory) : List Session → Directory
  | [] => dir
  | session :: sessions => dirAfter (session.leaves dir) sessions

def placedBy (dir : Directory) : List Session → List (Nat × Record)
  | [] => []
  | session :: sessions => session.placed dir ++ placedBy (session.leaves dir) sessions

/-- The order of the segments is the order of the appends. -/
structure OrderSurvives (sessions : List Session) : Prop where
  -- no record lies in a segment with a smaller number than an earlier record's
  ordered : (placedBy ∅ sessions).Pairwise fun earlier later => earlier.1 ≤ later.1
  -- the segment files in ascending order spell the records in append order
  replay : ∀ count, (∀ entry ∈ placedBy ∅ sessions, entry.1 ≤ count) →
    (List.range' 1 count).flatMap
        (fun segment => (dirAfter ∅ sessions).contents (segmentName segment)) =
      (sessions.flatMap Session.records).flatMap Record.encode

/-- Only the last session that appends anything may need more than one segment. -/
def OneSegmentEach : List Session → Prop
  | [] => True
  | session :: later =>
    ((∃ other ∈ later, other.records ≠ []) → session.StaysInOne) ∧ OneSegmentEach later

/-! ## One session -/

section Session

variable (session : Session) (dir : Directory)

theorem session_allOk : (session.opened dir).AllOk session.calls :=
  Wal.plain_allOk _ _

theorem placed_packed : Packed session.maxSegmentBytes (session.placed dir)
    ((session.opened dir).after session.calls).writer := by
  have packed := packed_run (packed_new dir session.maxSegmentBytes) (session_allOk session dir)
  rwa [List.nil_append] at packed

theorem placed_records : (session.placed dir).map Prod.snd = session.records := by
  rw [Session.placed, Wal.stored_records (session_allOk session dir), Session.calls, List.map_map]
  exact List.map_id _

theorem placed_positive : ∀ entry ∈ session.placed dir, 1 ≤ entry.1 := fun entry member =>
  ((placed_packed session dir).numbered entry member).1

theorem placed_starts (appends : session.records ≠ []) : ∃ entry ∈ session.placed dir, entry.1 = 1 := by
  have packed := placed_packed session dir
  have nonempty : session.placed dir ≠ [] := by
    intro empty
    have records := placed_records session dir
    rw [empty] at records
    exact appends records.symm
  obtain ⟨entry, member⟩ := List.exists_mem_of_ne_nil _ nonempty
  obtain ⟨positive, bound⟩ := packed.numbered entry member
  obtain ⟨record, inGroup⟩ := List.exists_mem_of_ne_nil _
    (packed.used 1 (le_refl 1) (positive.trans bound))
  exact ⟨(1, record), mem_group.mp inGroup, rfl⟩

theorem leaves_one (left : ∃ entry ∈ session.placed dir, entry.1 ≠ 1) :
    ∃ later, later ≠ [] ∧ session.records = group (session.placed dir) 1 ++ later ∧
      group (session.placed dir) 1 ≠ [] ∧
      session.maxSegmentBytes ≤ bytesOf (group (session.placed dir) 1) := by
  -- a session that leaves segment one has filled it, with a record still to come
  have packed := placed_packed session dir
  obtain ⟨entry, member, notOne⟩ := left
  obtain ⟨positive, bound⟩ := packed.numbered entry member
  generalize ((session.opened dir).after session.calls).writer = writer at packed bound
  have inOrder : (List.range' 1 (writer.segment - 1 + 1)).flatMap (group (session.placed dir)) =
      (session.placed dir).map Prod.snd := by
    rw [Nat.sub_add_cancel (positive.trans bound)]
    exact groups_numbered packed.ordered packed.numbered
  rw [placed_records, List.range'_succ, List.flatMap_cons] at inOrder
  refine ⟨_, ?_, inOrder.symm, packed.used 1 (le_refl 1) (positive.trans bound),
    packed.full 1 (le_refl 1) (by omega)⟩
  intro empty
  have inLater : entry.2 ∈ (List.range' (1 + 1) (writer.segment - 1)).flatMap (group (session.placed dir)) :=
    List.mem_flatMap.mpr ⟨entry.1, by rw [List.mem_range'_1]; omega, mem_group.mpr member⟩
  rw [empty] at inLater
  cases inLater

theorem placed_in_one_iff : (∀ entry ∈ session.placed dir, entry.1 = 1) ↔ session.StaysInOne := by
  constructor
  · intro allOne
    have whole : group (session.placed dir) 1 = session.records := by
      rw [group, List.filter_eq_self.mpr fun entry member => decide_eq_true (allOne entry member),
        placed_records]
    by_cases several : 1 < session.records.length
    · -- segment one then holds everything, and was not full before its last record
      have tight := (placed_packed session dir).tight 1
      rw [whole] at tight
      exact .inr (tight several)
    · exact .inl (Nat.not_lt.mp several)
  · intro stays
    by_contra leaves
    push Not at leaves
    -- the records of segment one are among those before the last, and fill it
    obtain ⟨later, laterNonempty, records, firstNonempty, full⟩ := leaves_one session dir leaves
    have laterPositive := List.length_pos_iff.mpr laterNonempty
    have firstPositive := List.length_pos_iff.mpr firstNonempty
    rw [Session.StaysInOne, records] at stays
    obtain few | room := stays
    · rw [List.length_append] at few
      omega
    · rw [List.dropLast_append_of_ne_nil laterNonempty, bytesOf, List.flatMap_append,
        List.length_append] at room
      rw [bytesOf] at full
      omega

end Session

/-! ## All sessions -/

theorem placedBy_positive (dir : Directory) (sessions : List Session) :
    ∀ entry ∈ placedBy dir sessions, 1 ≤ entry.1 := by
  induction sessions generalizing dir with
  | nil => simp [placedBy]
  | cons session sessions inductionHypothesis =>
    intro entry member
    cases List.mem_append.mp member with
    | inl inFirst => exact placed_positive session dir entry inFirst
    | inr inLater => exact inductionHypothesis (session.leaves dir) entry inLater

theorem placedBy_records (dir : Directory) (sessions : List Session) :
    (placedBy dir sessions).map Prod.snd = sessions.flatMap Session.records := by
  induction sessions generalizing dir with
  | nil => rfl
  | cons session sessions inductionHypothesis =>
    rw [placedBy, List.map_append, placed_records, inductionHypothesis, List.flatMap_cons]

theorem placedBy_starts (dir : Directory) {sessions : List Session}
    (appends : ∃ session ∈ sessions, session.records ≠ []) :
    ∃ entry ∈ placedBy dir sessions, entry.1 = 1 := by
  induction sessions generalizing dir with
  | nil => simp at appends
  | cons session sessions inductionHypothesis =>
    obtain ⟨other, member, nonempty⟩ := appends
    cases member with
    | head =>
      obtain ⟨entry, inFirst, isOne⟩ := placed_starts session dir nonempty
      exact ⟨entry, List.mem_append_left _ inFirst, isOne⟩
    | tail _ member =>
      obtain ⟨entry, inLater, isOne⟩ := inductionHypothesis (session.leaves dir) ⟨other, member, nonempty⟩
      exact ⟨entry, List.mem_append_right _ inLater, isOne⟩

theorem contents_dirAfter (dir : Directory) (sessions : List Session) (segment : Nat) :
    (dirAfter dir sessions).contents (segmentName segment) =
      dir.contents (segmentName segment) ++
        (group (placedBy dir sessions) segment).flatMap Record.encode := by
  induction sessions generalizing dir with
  | nil => simp [dirAfter, placedBy]
  | cons session sessions inductionHypothesis =>
    rw [dirAfter, placedBy, inductionHypothesis, group_append, List.flatMap_append, ← List.append_assoc,
      Session.leaves, contents_after (session_allOk session dir)]
    rfl

theorem placedBy_ordered_iff (dir : Directory) (sessions : List Session) :
    ((placedBy dir sessions).Pairwise fun earlier later => earlier.1 ≤ later.1) ↔
      OneSegmentEach sessions := by
  induction sessions generalizing dir with
  | nil => simp [placedBy, OneSegmentEach]
  | cons session sessions inductionHypothesis =>
    rw [placedBy, OneSegmentEach, List.pairwise_append, inductionHypothesis (session.leaves dir)]
    constructor
    · rintro ⟨_, laterOrdered, across⟩
      refine ⟨fun appends => ?_, laterOrdered⟩
      -- the first record of a later session lies in segment one
      obtain ⟨first, inLater, isOne⟩ := placedBy_starts (session.leaves dir) appends
      rw [← placed_in_one_iff session dir]
      intro entry member
      have bound := across entry member first inLater
      have positive := placed_positive session dir entry member
      omega
    · rintro ⟨stays, laterOrdered⟩
      refine ⟨(placed_packed session dir).ordered, laterOrdered, ?_⟩
      intro entry member other inLater
      -- a later record exists, so this session stays in segment one, the lowest there is
      have appends : ∃ later ∈ sessions, later.records ≠ [] := by
        have inRecords : other.2 ∈ sessions.flatMap Session.records := by
          rw [← placedBy_records (session.leaves dir)]
          exact List.mem_map_of_mem inLater
        obtain ⟨later, inSessions, inLaterRecords⟩ := List.mem_flatMap.mp inRecords
        exact ⟨later, inSessions, List.ne_nil_of_mem inLaterRecords⟩
      rw [(placed_in_one_iff session dir).mpr (stays appends) entry member]
      exact placedBy_positive _ _ other inLater

/-- The order of appends survives restarts exactly when no session that is
    followed by a later append needed more than one segment. -/
theorem wal_order_survives_iff (sessions : List Session) :
    OrderSurvives sessions ↔ OneSegmentEach sessions := by
  rw [← placedBy_ordered_iff ∅ sessions]
  constructor
  · exact OrderSurvives.ordered
  · intro ordered
    refine ⟨ordered, ?_⟩
    intro count bounded
    have inOrder : (List.range' 1 count).flatMap (group (placedBy ∅ sessions)) =
        sessions.flatMap Session.records := by
      rw [← placedBy_records ∅ sessions]
      exact groups_numbered ordered fun entry member =>
        ⟨placedBy_positive ∅ sessions entry member, bounded entry member⟩
    rw [← inOrder, List.flatMap_assoc]
    apply List.flatMap_congr
    intro segment _
    rw [contents_dirAfter, Directory.contents_empty, List.nil_append]

/-- The first session rotates, the second appends to the first segment again. -/
theorem restart_breaks_order :
    ¬ OrderSurvives [⟨1, [⟨7, []⟩, ⟨8, []⟩]⟩, ⟨1, [⟨9, []⟩]⟩] := by
  intro survives
  have ordered := survives.ordered
  revert ordered
  decide

end Nendi.Verified
