import Nendi.Core.Wal

/-! # Removing old segments

`WalWriter::gc_segments` of `core/src/storage/wal/batch.rs`.  What the operating
system lists, and which removals it grants, are inputs, as the failures of an
append are. -/

namespace Nendi.Core

open Nendi.Lib Nendi.Shared

def segmentNumber (name : String) : Option UInt64 :=
  match splitAtLastDot name.toList with
  | some (stem, extension) =>
    if extension = "log".toList then parseU64 (trimStartMatches "wal_".toList stem) else none
  | none => none

inductive GcError where
  | listFailed
  | removeFailed
deriving DecidableEq, Repr

/-- What the operating system does during one pass over a directory: whether it
    opens it, what it lists in which order, and which files it removes. -/
structure GcPass (dir : Directory) where
  opens : Bool
  entries : List (Except GcError String)
  listed : ∀ name, .ok name ∈ entries → name ∈ dir
  removes : String → Bool

namespace WalWriter

/-- `seg_num + 2 < self.segment`; the sum wraps. -/
def isOld (writer : WalWriter) (number : UInt64) : Bool := decide ((number + 2).toNat < writer.segment)

def collects (writer : WalWriter) (name : String) : Bool :=
  match segmentNumber name with
  | some number => writer.isOld number
  | none => false

/-- The loop of `gc_segments`. -/
def gcLoop (writer : WalWriter) (removes : String → Bool) (removed : Nat) (dir : Directory) :
    List (Except GcError String) → Except GcError Nat × Directory
  | [] => (.ok removed, dir)
  | .error fault :: _ => (.error fault, dir)
  | .ok name :: rest =>
    if writer.collects name then
      if removes name then gcLoop writer removes (removed + 1) (dir.erase name) rest
      else (.error .removeFailed, dir)
    else gcLoop writer removes removed dir rest

def gcSegments (writer : WalWriter) (dir : Directory) (_watermarkLsn : Lsn) (pass : GcPass dir) :
    Except GcError Nat × Directory :=
  -- the watermark is not looked at
  if pass.opens then gcLoop writer pass.removes 0 dir pass.entries else (.error .listFailed, dir)

end WalWriter

/-! ## Which files a pass removes -/

theorem segmentNumber_segmentName (segment : Nat) :
    segmentNumber (segmentName segment) =
      if segment < 2 ^ 64 then some (UInt64.ofNat segment) else none := by
  have nonempty : (Nat.toDigits 10 segment).leftpad 8 '0' ≠ [] :=
    List.append_ne_nil_of_right_ne_nil _ Nat.toDigits_ne_nil
  have name : (segmentName segment).toList =
      ("wal_".toList ++ (Nat.toDigits 10 segment).leftpad 8 '0') ++ '.' :: "log".toList :=
    String.toList_ofList
  have trimmed : trimStartMatches "wal_".toList
      ("wal_".toList ++ (Nat.toDigits 10 segment).leftpad 8 '0') =
      (Nat.toDigits 10 segment).leftpad 8 '0' := by
    rw [trimStartMatches_append (by simp)]
    apply trimStartMatches_self
    -- a digit comes first, so nothing more is stripped
    intro isPrefix
    have letter := isPrefix.subset (show 'w' ∈ "wal_".toList by simp)
    exact absurd (isDigit_of_mem_leftpad letter) (by simp [Char.isDigit])
  rw [segmentNumber, name, splitAtLastDot_eq (by simp) (by decide) (by decide)]
  simp only [if_true]
  rw [trimmed, parseU64_digits nonempty fun _ => isDigit_of_mem_leftpad, ofDigitChars_leftpad]

theorem mem_gcLoop {writer : WalWriter} {removes : String → Bool} {name : String}
    (kept : writer.collects name = false) (entries : List (Except GcError String)) (removed : Nat)
    {dir : Directory} (present : name ∈ dir) :
    name ∈ (writer.gcLoop removes removed dir entries).2 := by
  induction entries generalizing removed dir with
  | nil => exact present
  | cons entry entries inductionHypothesis =>
    cases entry with
    | error fault => exact present
    | ok other =>
      simp only [WalWriter.gcLoop]
      split
      next collected =>
        have different : name ≠ other := by
          rintro rfl
          rw [kept] at collected
          cases collected
        split
        · exact inductionHypothesis _ (AList.mem_erase.mpr ⟨different, present⟩)
        · exact present
      next => exact inductionHypothesis _ present

theorem not_mem_gcLoop {writer : WalWriter} {name : String} (collected : writer.collects name = true)
    {names : List String} (removed : Nat) {dir : Directory} (absentOrListed : name ∈ dir → name ∈ names) :
    name ∉ (writer.gcLoop (fun _ => true) removed dir (names.map .ok)).2 := by
  induction names generalizing removed dir with
  | nil => exact fun present => absurd (absentOrListed present) List.not_mem_nil
  | cons other names inductionHypothesis =>
    simp only [List.map_cons, WalWriter.gcLoop, if_true]
    split
    next otherCollected =>
      apply inductionHypothesis
      intro present
      obtain ⟨different, present⟩ := AList.mem_erase.mp present
      exact (List.mem_cons.mp (absentOrListed present)).resolve_left different
    next otherKept =>
      apply inductionHypothesis
      intro present
      refine (List.mem_cons.mp (absentOrListed present)).resolve_left ?_
      rintro rfl
      exact otherKept collected

/-- The pass in which the system lists everything and removes what it is asked to. -/
def GcPass.full (dir : Directory) : GcPass dir where
  opens := true
  entries := dir.keys.map .ok
  listed name member := by
    obtain ⟨listed, inKeys, equal⟩ := List.mem_map.mp member
    cases equal
    exact inKeys
  removes _ := true

/-- Some pass removes a file that was there exactly if its name is one to collect. -/
theorem gc_keeps_iff (writer : WalWriter) {dir : Directory} (watermark : Lsn) {name : String}
    (present : name ∈ dir) :
    (∀ pass : GcPass dir, name ∈ (writer.gcSegments dir watermark pass).2) ↔
      writer.collects name = false := by
  constructor
  · intro kept
    have stays := kept (GcPass.full dir)
    by_contra collected
    rw [Bool.not_eq_false] at collected
    exact not_mem_gcLoop collected 0 (fun inDir => inDir) stays
  · intro kept pass
    simp only [WalWriter.gcSegments]
    split
    · exact mem_gcLoop kept pass.entries 0 present
    · exact present

end Nendi.Core
