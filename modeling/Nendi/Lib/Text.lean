import Mathlib.Algebra.GroupWithZero.Nat
import Mathlib.Data.List.DropRight
import Mathlib.Data.List.Infix
import Mathlib.Data.List.TakeDrop

/-! # Strings and their UTF-8 bytes

Lean's `String` is a valid UTF-8 byte array, as the modelled language's strings
are.  This module fixes the list-of-bytes view of it: `utf8Bytes` is
`as_bytes`, `fromUtf8` is the checked `from_utf8`; and the few operations on
text that decoders use.
-/

namespace Nendi.Lib

def utf8Bytes (text : String) : List UInt8 := text.toByteArray.data.toList

def fromUtf8 (bytes : List UInt8) : Option String := String.fromUTF8? ⟨bytes.toArray⟩

@[simp] theorem fromUtf8_utf8Bytes (text : String) : fromUtf8 (utf8Bytes text) = some text := by
  have valid : (⟨text.toByteArray.data.toList.toArray⟩ : ByteArray).IsValidUTF8 := text.isValidUTF8
  rw [fromUtf8, String.fromUTF8?, utf8Bytes, dif_pos valid]
  rfl

theorem utf8Bytes_injective {first second : String} (same : utf8Bytes first = utf8Bytes second) :
    first = second := by
  have texts := congrArg fromUtf8 same
  simpa only [fromUtf8_utf8Bytes, Option.some.injEq] using texts

theorem utf8Bytes_append (first second : String) :
    utf8Bytes (first ++ second) = utf8Bytes first ++ utf8Bytes second := by
  simp [utf8Bytes]

theorem fromUtf8_eq_some {bytes : List UInt8} {text : String} (accepted : fromUtf8 bytes = some text) :
    utf8Bytes text = bytes := by
  rw [fromUtf8, String.fromUTF8?] at accepted
  split at accepted
  next valid =>
    cases accepted
    rfl
  next invalid => cases accepted

def splitOnce (separator : Char) (text : String) : Option (String × String) :=
  match text.toList.span (· ≠ separator) with
  | (_, []) => none
  | (before, _ :: after) => some (String.ofList before, String.ofList after)

theorem span_stops {α : Type} {keep : α → Bool} {before : List α} {stop : α} (after : List α)
    (kept : ∀ item ∈ before, keep item = true) (stops : keep stop = false) :
    (before ++ stop :: after).span keep = (before, stop :: after) := by
  rw [List.span_eq_takeWhile_dropWhile, List.takeWhile_append_of_pos kept,
    List.dropWhile_append_of_pos kept]
  simp [stops]

theorem splitOnce_append {separator : Char} {before : String} (absent : separator ∉ before.toList)
    (after : String) :
    splitOnce separator (before ++ String.singleton separator ++ after) = some (before, after) := by
  have written : (before ++ String.singleton separator ++ after).toList =
      before.toList ++ separator :: after.toList := by simp
  have stops : (before.toList ++ separator :: after.toList).span (· ≠ separator) =
      (before.toList, separator :: after.toList) := by
    apply span_stops
    · intro letter member
      simp only [ne_eq, decide_not, Bool.not_eq_true', decide_eq_false_iff_not]
      rintro rfl
      exact absent member
    · simp
  rw [splitOnce, written, stops]
  simp

theorem splitOnce_toList {separator : Char} {text before after : String}
    (split : splitOnce separator text = some (before, after)) :
    text.toList = before.toList ++ separator :: after.toList ∧ separator ∉ before.toList := by
  unfold splitOnce at split
  rw [List.span_eq_takeWhile_dropWhile] at split
  split at split
  next => cases split
  next front stop back spanned =>
    obtain ⟨rfl, rfl⟩ := Prod.mk.inj (Option.some.inj split)
    obtain ⟨kept, dropped⟩ := Prod.mk.inj spanned
    have stops : stop = separator := by
      have head := List.head?_dropWhile_not (fun letter => decide (letter ≠ separator)) text.toList
      rw [dropped] at head
      simpa using head
    have whole := List.takeWhile_append_dropWhile (p := fun letter => decide (letter ≠ separator)) (l := text.toList)
    rw [kept, dropped, stops] at whole
    refine ⟨by simpa using whole.symm, ?_⟩
    intro member
    rw [String.toList_ofList, ← kept] at member
    have different := List.mem_takeWhile_imp member
    simp at different

/-- `str::splitn`: at most `count` parts, the last of which is all that is left. -/
def splitn : Nat → Char → String → List String
  | 0, _, _ => []
  | 1, _, text => [text]
  | count + 2, separator, text =>
    match splitOnce separator text with
    | none => [text]
    | some (before, after) => before :: splitn (count + 1) separator after

theorem splitn_append {separator : Char} {before : String} (absent : separator ∉ before.toList)
    (count : Nat) (after : String) :
    splitn (count + 2) separator (before ++ String.singleton separator ++ after) =
      before :: splitn (count + 1) separator after := by
  simp only [splitn, splitOnce_append absent]

theorem mem_splitn_subset {separator : Char} {count : Nat} {text part : String}
    (member : part ∈ splitn count separator text) :
    part.toList ⊆ text.toList := by
  induction count generalizing text with
  | zero => cases member
  | succ count inductionHypothesis =>
    cases count with
    | zero =>
      rw [splitn, List.mem_singleton] at member
      rw [member]
      exact List.Subset.refl _
    | succ count =>
      rw [splitn] at member
      split at member
      next =>
        rw [List.mem_singleton] at member
        rw [member]
        exact List.Subset.refl _
      next before after split =>
        have whole := (splitOnce_toList split).1
        rw [whole]
        rcases List.mem_cons.mp member with rfl | behind
        · exact List.subset_append_left _ _
        · have inAfter := inductionHypothesis behind
          exact List.Subset.trans inAfter (List.subset_append_of_subset_right _ (List.subset_cons_self _ _))

/-- `str::trim_start_matches`: strip a nonempty pattern as often as it stands at
    the beginning. -/
def trimStartMatches (pattern text : List Char) : List Char :=
  if _h : pattern ≠ [] ∧ pattern <+: text then trimStartMatches pattern (text.drop pattern.length)
  else text
termination_by text.length
decreasing_by
  have positive := List.length_pos_iff.mpr _h.1
  have fits := _h.2.length_le
  rw [List.length_drop]
  omega

theorem trimStartMatches_append {pattern : List Char} (nonempty : pattern ≠ []) (text : List Char) :
    trimStartMatches pattern (pattern ++ text) = trimStartMatches pattern text := by
  rw [trimStartMatches, dif_pos ⟨nonempty, List.prefix_append _ _⟩, List.drop_left]

theorem trimStartMatches_self {pattern text : List Char} (other : ¬ pattern <+: text) :
    trimStartMatches pattern text = text := by
  rw [trimStartMatches, dif_neg fun strips => other strips.2]

/-! ## Searching -/

/-- `str::find`: the byte offset of the first occurrence of a pattern. -/
def findBytes (pattern : List Char) : List Char → Option Nat
  | [] => if pattern = [] then some 0 else none
  | letter :: rest =>
    if pattern <+: letter :: rest then some 0
    else (findBytes pattern rest).map (letter.utf8Size + ·)

def splitAround (pattern : List Char) : List Char → Option (List Char × List Char)
  | [] => if pattern = [] then some ([], []) else none
  | letter :: rest =>
    if pattern <+: letter :: rest then some ([], (letter :: rest).drop pattern.length)
    else (splitAround pattern rest).map fun parts => (letter :: parts.1, parts.2)

theorem splitAround_prefix (pattern rest : List Char) :
    splitAround pattern (pattern ++ rest) = some ([], rest) := by
  cases whole : pattern ++ rest with
  | nil =>
    obtain ⟨rfl, rfl⟩ := List.append_eq_nil_iff.mp whole
    rfl
  | cons letter text =>
    rw [splitAround, if_pos ⟨rest, whole⟩, ← whole, List.drop_left]

/-- No match of the pattern begins in `front`, whatever stands behind it. -/
def Clear (pattern front : List Char) : Prop :=
  ∀ tail ∈ front.tails, tail ≠ [] → ¬ pattern <+: tail ∧ ¬ tail <+: pattern

instance (pattern front : List Char) : Decidable (Clear pattern front) :=
  inferInstanceAs (Decidable (∀ tail ∈ front.tails, tail ≠ [] → ¬ pattern <+: tail ∧ ¬ tail <+: pattern))

theorem clear_of_not_mem {first : Char} {pattern front : List Char} (absent : first ∉ front) :
    Clear (first :: pattern) front := by
  intro tail isTail nonempty
  obtain ⟨letter, tail, rfl⟩ := List.exists_cons_of_ne_nil nonempty
  have member : letter ∈ front := ((List.mem_tails _ _).mp isTail).subset List.mem_cons_self
  have different : first ≠ letter := fun same => absent (same ▸ member)
  simp [List.cons_prefix_cons, different, different.symm]

theorem splitAround_clear {pattern front : List Char} (clear : Clear pattern front) (text : List Char) :
    splitAround pattern (front ++ text) =
      (splitAround pattern text).map fun parts => (front ++ parts.1, parts.2) := by
  induction front with
  | nil => simp
  | cons letter front inductionHypothesis =>
    have atLetter := clear (letter :: front) (by simp [List.tails]) (List.cons_ne_nil _ _)
    have noMatch : ¬ pattern <+: letter :: (front ++ text) := by
      intro isMatch
      have isFront : letter :: front <+: letter :: (front ++ text) := List.prefix_append (letter :: front) text
      exact (List.prefix_or_prefix_of_prefix isMatch isFront).elim atLetter.1 atLetter.2
    have behind : Clear pattern front := fun tail isTail => clear tail (by simp [List.tails, isTail])
    rw [List.cons_append, splitAround, if_neg noMatch, inductionHypothesis behind, Option.map_map]
    rfl

theorem splitAround_eq_none_iff (pattern text : List Char) :
    splitAround pattern text = none ↔ ¬ pattern <:+: text := by
  induction text with
  | nil => simp [splitAround]
  | cons letter rest inductionHypothesis =>
    rw [splitAround, List.infix_cons_iff]
    split
    next matches_ => simp [matches_]
    next noMatch => simpa [noMatch] using inductionHypothesis

/-- `&text[count..]`, which there is not past the end and not inside a character. -/
def dropBytes : Nat → List Char → Option (List Char)
  | 0, text => some text
  | _ + 1, [] => none
  | count + 1, letter :: rest =>
    if letter.utf8Size ≤ count + 1 then dropBytes (count + 1 - letter.utf8Size) rest else none

/-! ## Offsets -/

theorem ascii_forall {Holds : Char → Prop} (small : ∀ code < 128, Holds (Char.ofNat code)) {letter : Char}
    (ascii : letter.toNat < 128) : Holds letter := by
  have holds := small letter.toNat ascii
  rwa [Char.ofNat_toNat] at holds

/-- `str::len`. -/
def utf8Length (text : List Char) : Nat := (text.map Char.utf8Size).sum

@[simp] theorem utf8Length_nil : utf8Length [] = 0 := rfl

@[simp] theorem utf8Length_cons (letter : Char) (text : List Char) :
    utf8Length (letter :: text) = letter.utf8Size + utf8Length text := by
  simp [utf8Length]

@[simp] theorem utf8Length_append (first second : List Char) :
    utf8Length (first ++ second) = utf8Length first + utf8Length second := by
  simp [utf8Length]

def FirstOccurrence (pattern text before : List Char) : Prop :=
  before ++ pattern <+: text ∧ ∀ earlier, earlier ++ pattern <+: text → before.length ≤ earlier.length

theorem firstOccurrence_of_prefix {pattern text : List Char} (isMatch : pattern <+: text) (before : List Char) :
    FirstOccurrence pattern text before ↔ before = [] := by
  constructor
  · intro found
    simpa using found.2 [] isMatch
  · rintro rfl
    exact ⟨isMatch, by simp⟩

theorem firstOccurrence_cons {pattern rest : List Char} {letter : Char} (noMatch : ¬ pattern <+: letter :: rest)
    (before : List Char) : FirstOccurrence pattern (letter :: rest) before ↔
      ∃ tail, before = letter :: tail ∧ FirstOccurrence pattern rest tail := by
  constructor
  · rintro ⟨found, first⟩
    cases before with
    | nil => exact absurd found noMatch
    | cons head tail =>
      obtain ⟨rfl, foundBehind⟩ := List.cons_prefix_cons.mp found
      refine ⟨tail, rfl, foundBehind, ?_⟩
      intro earlier standsEarlier
      simpa using first (head :: earlier) (List.cons_prefix_cons.mpr ⟨rfl, standsEarlier⟩)
  · rintro ⟨tail, rfl, found, first⟩
    refine ⟨List.cons_prefix_cons.mpr ⟨rfl, found⟩, ?_⟩
    intro earlier standsEarlier
    cases earlier with
    | nil => exact absurd standsEarlier noMatch
    | cons head earlier =>
      have standsBehind := first earlier (List.cons_prefix_cons.mp standsEarlier).2
      simpa using standsBehind

theorem findBytes_eq_some_iff (pattern text : List Char) (pos : Nat) :
    findBytes pattern text = some pos ↔ ∃ before, FirstOccurrence pattern text before ∧ utf8Length before = pos := by
  induction text generalizing pos with
  | nil =>
    by_cases empty : pattern = []
    · subst empty
      simp [findBytes, firstOccurrence_of_prefix List.nil_prefix]
    · simp [findBytes, FirstOccurrence, empty]
  | cons letter rest inductionHypothesis =>
    by_cases isMatch : pattern <+: letter :: rest
    · simp [findBytes, isMatch, firstOccurrence_of_prefix isMatch]
    · rw [findBytes, if_neg isMatch, Option.map_eq_some_iff]
      simp only [inductionHypothesis, firstOccurrence_cons isMatch]
      constructor
      · rintro ⟨_, ⟨tail, found, rfl⟩, rfl⟩
        exact ⟨letter :: tail, ⟨tail, rfl, found⟩, utf8Length_cons letter tail⟩
      · rintro ⟨_, ⟨tail, rfl, found⟩, rfl⟩
        exact ⟨_, ⟨tail, found, rfl⟩, (utf8Length_cons letter tail).symm⟩

theorem dropBytes_isSome_iff (count : Nat) (text : List Char) :
    (dropBytes count text).isSome ↔ ∃ front, front <+: text ∧ utf8Length front = count := by
  induction text generalizing count with
  | nil =>
    cases count with
    | zero => simp [dropBytes]
    | succ count => simp [dropBytes]
  | cons letter rest inductionHypothesis =>
    cases count with
    | zero => simpa [dropBytes] using ⟨[], List.nil_prefix, rfl⟩
    | succ count =>
      rw [dropBytes]
      constructor
      · intro sliced
        split at sliced
        next fits =>
          obtain ⟨front, isFront, length⟩ := (inductionHypothesis _).mp sliced
          refine ⟨letter :: front, List.cons_prefix_cons.mpr ⟨rfl, isFront⟩, ?_⟩
          rw [utf8Length_cons, length]
          omega
        next => cases sliced
      · rintro ⟨front, isFront, length⟩
        cases front with
        | nil => simp at length
        | cons head front =>
          obtain ⟨rfl, isTail⟩ := List.cons_prefix_cons.mp isFront
          rw [utf8Length_cons] at length
          rw [if_pos (by omega), inductionHypothesis]
          exact ⟨front, isTail, by omega⟩

/-! ## Whitespace -/

/-- `char::is_whitespace`: the Unicode property `White_Space`. -/
def isWhitespace (letter : Char) : Bool :=
  let code := letter.toNat
  (0x9 ≤ code && code ≤ 0xd) || (0x2000 ≤ code && code ≤ 0x200a) ||
    [0x20, 0x85, 0xa0, 0x1680, 0x2028, 0x2029, 0x202f, 0x205f, 0x3000].contains code

/-- `str::trim`. -/
def trim (text : List Char) : List Char := (text.dropWhile isWhitespace).rdropWhile isWhitespace

def Blank (text : List Char) : Prop := ∀ letter ∈ text, isWhitespace letter = true

theorem rdropWhile_append_blank {right : List Char} (blank : Blank right) (text : List Char) :
    (text ++ right).rdropWhile isWhitespace = text.rdropWhile isWhitespace := by
  have reversed : ∀ letter ∈ right.reverse, isWhitespace letter = true := by
    intro letter member
    exact blank letter (List.mem_reverse.mp member)
  rw [List.rdropWhile, List.reverse_append, List.dropWhile_append_of_pos reversed, ← List.rdropWhile]

theorem trim_eq_nil_iff (text : List Char) : trim text = [] ↔ Blank text := by
  rw [trim, List.rdropWhile_eq_nil_iff]
  constructor
  · intro rest letter member
    rw [← List.takeWhile_append_dropWhile (p := isWhitespace) (l := text), List.mem_append] at member
    obtain front | back := member
    · exact List.mem_takeWhile_imp front
    · exact rest letter back
  · intro blank letter member
    exact blank letter ((List.dropWhile_sublist _).subset member)

theorem trim_pad {left right : List Char} (blankLeft : Blank left) (blankRight : Blank right)
    (text : List Char) : trim (left ++ text ++ right) = trim text := by
  rw [List.append_assoc, trim, List.dropWhile_append_of_pos blankLeft, List.dropWhile_append]
  split
  next empty =>
    have nothing : text.dropWhile isWhitespace = [] := List.isEmpty_iff.mp empty
    have rest : right.dropWhile isWhitespace = [] := List.dropWhile_eq_nil_iff.mpr blankRight
    rw [trim, nothing, rest]
  next => rw [rdropWhile_append_blank blankRight, trim]

/-- `split_whitespace().next()`. -/
def firstWord (text : List Char) : Option (List Char) :=
  match (text.dropWhile isWhitespace).takeWhile (! isWhitespace ·) with
  | [] => none
  | word => some word

/-! ## File names -/

/-- A file name around its last dot: `Path::file_stem` and `Path::extension`.  A
    name without a dot or with a leading one only has no extension. -/
def splitAtLastDot (name : List Char) : Option (List Char × List Char) :=
  if name = "..".toList then none
  else
    match name.reverse.span (· ≠ '.') with
    | (_, []) => none
    | (_, [_]) => none
    | (after, _ :: before) => some (before.reverse, after.reverse)

theorem splitAtLastDot_eq {stem : List Char} (nonempty : stem ≠ []) {ext : List Char} (named : ext ≠ [])
    (noDot : '.' ∉ ext) : splitAtLastDot (stem ++ '.' :: ext) = some (stem, ext) := by
  have reversed : (stem ++ '.' :: ext).reverse = ext.reverse ++ '.' :: stem.reverse := by simp
  have stops : (ext.reverse ++ '.' :: stem.reverse).span (· ≠ '.') = (ext.reverse, '.' :: stem.reverse) := by
    apply span_stops
    · intro letter member
      simp only [ne_eq, decide_not, Bool.not_eq_true', decide_eq_false_iff_not]
      rintro rfl
      exact noDot (List.mem_reverse.mp member)
    · simp
  have ordinary : stem ++ '.' :: ext ≠ "..".toList := by
    intro dots
    obtain ⟨first, stem, rfl⟩ := List.exists_cons_of_ne_nil nonempty
    obtain ⟨letter, ext, rfl⟩ := List.exists_cons_of_ne_nil named
    have length := congrArg List.length dots
    simp at length
    omega
  rw [splitAtLastDot, if_neg ordinary, reversed, stops]
  cases back : stem.reverse with
  | nil => exact absurd (List.reverse_eq_nil_iff.mp back) nonempty
  | cons last rest => simp [← back]

/-! ## Numbers -/

def stripPlus : List Char → List Char
  | '+' :: rest => rest
  | text => text

/-- `str::parse::<u64>`: decimal digits behind an optional plus sign. -/
def parseU64 (text : List Char) : Option UInt64 :=
  let digits := stripPlus text
  let value := Nat.ofDigitChars 10 digits 0
  if digits ≠ [] ∧ digits.all Char.isDigit = true ∧ value < 2 ^ 64 then
    some (UInt64.ofNat value)
  else none

theorem parseU64_digits {digits : List Char} (nonempty : digits ≠ [])
    (allDigits : ∀ digit ∈ digits, digit.isDigit = true) :
    parseU64 digits = if Nat.ofDigitChars 10 digits 0 < 2 ^ 64 then
      some (UInt64.ofNat (Nat.ofDigitChars 10 digits 0)) else none := by
  have unsigned : stripPlus digits = digits := by
    unfold stripPlus
    split
    next rest => exact absurd (allDigits '+' List.mem_cons_self) (by decide)
    next => rfl
  simp only [parseU64, unsigned]
  congr 1
  exact propext ⟨fun parses => parses.2.2, fun fits => ⟨nonempty, List.all_eq_true.mpr allDigits, fits⟩⟩

theorem ofDigitChars_leftpad (width number : Nat) :
    Nat.ofDigitChars 10 ((Nat.toDigits 10 number).leftpad width '0') 0 = number := by
  rw [List.leftpad, Nat.ofDigitChars_append, Nat.ofDigitChars_replicate_zero, Nat.mul_zero,
    Nat.ofDigitChars_toDigits (by decide) (by decide)]

theorem isDigit_of_mem_leftpad {width number : Nat} {digit : Char}
    (member : digit ∈ (Nat.toDigits 10 number).leftpad width '0') : digit.isDigit = true := by
  obtain padding | written := List.mem_append.mp member
  · rw [(List.mem_replicate.mp padding).2]
    rfl
  · exact Nat.isDigit_of_mem_toDigits (by decide) (by decide) written

end Nendi.Lib
