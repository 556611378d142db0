import Nendi.Pgsql.Ddl

/-! # When reading a schema change panics

The keyword is searched in the upper-cased copy of a statement and the statement itself
is cut at the offset found.  That is a slice of the statement only where both have a
character that ends there (`SafeSlice`).
-/

namespace Nendi.Verified

open Nendi.Lib Nendi.Pgsql

/-- Where the first keyword of the upper-cased copy ends, a character of the statement ends too. -/
def SafeSlice (upper : Char → List Char) (keyword stmt : String) : Prop :=
  ∀ before, FirstOccurrence keyword.toList (stmt.toList.flatMap upper) before →
    ∃ front, front <+: stmt.toList ∧ utf8Length front = utf8Length (before ++ keyword.toList)

/-- Only statements of these four types are looked into. -/
def SafeMessage (upper : Char → List Char) (content : String) : Prop :=
  ∀ ddlType table stmt, splitn 3 '|' content = [ddlType, table, stmt] →
    (ddlType = "RENAME_TABLE" → SafeSlice upper "RENAME TO " stmt) ∧
      (ddlType ∈ ["ADD_COLUMN", "DROP_COLUMN", "ALTER_COLUMN"] → SafeSlice upper "COLUMN " stmt)

theorem map_ne_panic_iff {ε α β : Type} (result : Exec ε α) (f : α → β) :
    result.map f ≠ .error .panic ↔ result ≠ .error .panic := by
  cases result with
  | ok value => simp [Except.map]
  | error fault => simp [Except.map]

section Slices

variable (upper : Char → List Char)

theorem extractName_ne_panic_iff (keyword : String) (skip : Nat) (stmt : String) :
    extractName upper keyword skip stmt ≠ .error .panic ↔
      ∀ pos, findBytes keyword.toList (stmt.toList.flatMap upper) = some pos →
        (dropBytes (pos + skip) stmt.toList).isSome := by
  rw [extractName]
  cases findBytes keyword.toList (stmt.toList.flatMap upper) with
  | none => simp
  | some pos =>
    simp only [Option.some.injEq, forall_eq']
    cases dropBytes (pos + skip) stmt.toList with
    | none => simp
    | some after => simp

theorem safeSlice_iff {keyword : String} {skip : Nat} (whole : utf8Length keyword.toList = skip) (stmt : String) :
    extractName upper keyword skip stmt ≠ .error .panic ↔ SafeSlice upper keyword stmt := by
  subst whole
  simp only [extractName_ne_panic_iff, findBytes_eq_some_iff, dropBytes_isSome_iff]
  constructor
  · intro sliced before found
    rw [utf8Length_append]
    exact sliced (utf8Length before) ⟨before, found, rfl⟩
  · rintro safe _ ⟨before, found, rfl⟩
    rw [← utf8Length_append]
    exact safe before found

theorem extractNewName_ne_panic_iff (stmt : String) :
    extractNewName upper stmt ≠ .error .panic ↔ SafeSlice upper "RENAME TO " stmt :=
  safeSlice_iff upper (by decide) stmt

theorem extractColumnName_ne_panic_iff (stmt : String) :
    extractColumnName upper stmt ≠ .error .panic ↔ SafeSlice upper "COLUMN " stmt :=
  safeSlice_iff upper (by decide) stmt

theorem ddlKind_ne_panic_iff (ddlType stmt : String) : ddlKind upper ddlType stmt ≠ .error .panic ↔
    (ddlType = "RENAME_TABLE" → SafeSlice upper "RENAME TO " stmt) ∧
      (ddlType ∈ ["ADD_COLUMN", "DROP_COLUMN", "ALTER_COLUMN"] → SafeSlice upper "COLUMN " stmt) := by
  rw [ddlKind]
  split_ifs with altered dropped renamed added removed changed
  · simp [altered]
  · simp [dropped]
  · simp [renamed, map_ne_panic_iff, extractNewName_ne_panic_iff]
  · simp [added, map_ne_panic_iff, extractColumnName_ne_panic_iff]
  · simp [removed, map_ne_panic_iff, extractColumnName_ne_panic_iff]
  · simp [changed, map_ne_panic_iff, extractColumnName_ne_panic_iff]
  · simp [renamed, added, removed, changed]

/-- Reading a message panics exactly if a keyword of the copy ends where no character of the
    statement does. -/
theorem parse_ddl_message_never_panics_iff (content : String) :
    parseDdlMessage upper content ≠ .error .panic ↔ SafeMessage upper content := by
  rw [parseDdlMessage]
  split
  next ddlType table stmt parts =>
    rw [map_ne_panic_iff, ddlKind_ne_panic_iff]
    constructor
    · intro safe ddlType' table' stmt' parts'
      rw [parts] at parts'
      cases parts'
      exact safe
    · intro safe
      exact safe ddlType table stmt parts
  next otherwise =>
    -- fewer than three parts are refused with an error
    refine iff_of_true (by simp) ?_
    intro ddlType table stmt parts
    exact absurd parts (otherwise ddlType table stmt)

end Slices

/-! ## Which letters matter -/

theorem offsets_kept {upper : Char → List Char} {text : List Char}
    (keeps : ∀ letter ∈ text, ∃ capital, upper letter = [capital] ∧ capital.utf8Size = letter.utf8Size)
    {copied : List Char} (isFront : copied <+: text.flatMap upper) :
    ∃ front, front <+: text ∧ utf8Length front = utf8Length copied := by
  induction text generalizing copied with
  | nil =>
    rw [List.flatMap_nil, List.prefix_nil] at isFront
    exact ⟨[], List.nil_prefix, by rw [isFront]⟩
  | cons letter text inductionHypothesis =>
    rw [List.forall_mem_cons] at keeps
    obtain ⟨⟨capital, upperCase, size⟩, rest⟩ := keeps
    rw [List.flatMap_cons, upperCase, List.singleton_append] at isFront
    -- one letter of the copy for one of the text, and as long
    cases copied with
    | nil => exact ⟨[], List.nil_prefix, rfl⟩
    | cons head copied =>
      obtain ⟨rfl, isTail⟩ := List.cons_prefix_cons.mp isFront
      obtain ⟨front, isPrefix, length⟩ := inductionHypothesis rest isTail
      refine ⟨letter :: front, List.cons_prefix_cons.mpr ⟨rfl, isPrefix⟩, ?_⟩
      rw [utf8Length_cons, utf8Length_cons, size, length]

theorem safeSlice_of_same_size {upper : Char → List Char} {stmt : String}
    (keeps : ∀ letter ∈ stmt.toList, ∃ capital, upper letter = [capital] ∧ capital.utf8Size = letter.utf8Size)
    (keyword : String) : SafeSlice upper keyword stmt := by
  intro before found
  exact offsets_kept keeps found.1

/-- What is used of the Unicode mapping: ASCII letters, and one that becomes three. -/
structure UnicodeUpper (upper : Char → List Char) : Prop where
  ascii : ∀ letter : Char, letter.toNat < 128 → upper letter = [letter.toUpper]
  iota : upper '\u0390' = ['\u0399', '\u0308', '\u0301']

theorem toUpper_utf8Size {letter : Char} (ascii : letter.toNat < 128) : letter.toUpper.utf8Size = letter.utf8Size :=
  @ascii_forall (fun letter => letter.toUpper.utf8Size = letter.utf8Size) (by decide) letter ascii

/-- Messages in ASCII are read without a panic. -/
theorem ascii_message_safe {upper : Char → List Char} (unicode : UnicodeUpper upper) {content : String}
    (ascii : ∀ letter ∈ content.toList, letter.toNat < 128) : SafeMessage upper content := by
  intro ddlType table stmt parts
  have isPart : stmt ∈ splitn 3 '|' content := by simp [parts]
  have safe : ∀ keyword, SafeSlice upper keyword stmt := by
    apply safeSlice_of_same_size
    intro letter member
    have small := ascii letter (mem_splitn_subset isPart member)
    exact ⟨letter.toUpper, unicode.ascii letter small, toUpper_utf8Size small⟩
  exact ⟨fun _ => safe _, fun _ => safe _⟩

/-- The keyword ends at byte 13 of the copy, and the statement has nine bytes. -/
theorem growing_letter_panics :
    (∃ upper, UnicodeUpper upper) ∧
      ¬ ∃ upper, UnicodeUpper upper ∧
        parseDdlMessage upper "ADD_COLUMN|public.t|\u0390COLUMN " ≠ .error .panic := by
  constructor
  · refine ⟨fun letter => if letter = '\u0390' then ['\u0399', '\u0308', '\u0301'] else [letter.toUpper], ?_, rfl⟩
    intro letter ascii
    rw [if_neg]
    rintro rfl
    exact absurd ascii (by decide)
  · rintro ⟨upper, unicode, safe⟩
    apply safe
    have capital : ∀ letter ∈ "COLUMN ".toList, upper letter = [letter] := by
      intro letter member
      have plain : ("COLUMN ".toList.all fun letter => letter.toNat < 128 ∧ letter.toUpper = letter) = true := by
        decide
      obtain ⟨ascii, same⟩ := decide_eq_true_iff.mp (List.all_eq_true.mp plain letter member)
      rw [unicode.ascii letter ascii, same]
    have copy : "\u0390COLUMN ".toList.flatMap upper =
        '\u0399' :: '\u0308' :: '\u0301' :: "COLUMN ".toList := by
      have text : "\u0390COLUMN ".toList = '\u0390' :: "COLUMN ".toList := by decide
      have keyword : "COLUMN ".toList.flatMap upper = "COLUMN ".toList.flatMap fun letter => [letter] :=
        List.flatMap_congr capital
      rw [text, List.flatMap_cons, unicode.iota, keyword, List.flatMap_singleton']
      rfl
    have extracted : extractColumnName upper "\u0390COLUMN " = .error .panic := by
      rw [extractColumnName, extractName, copy]
      decide
    have written : "ADD_COLUMN|public.t|\u0390COLUMN " =
        "ADD_COLUMN" ++ "|" ++ "public.t" ++ "|" ++ "\u0390COLUMN " := by decide
    rw [written, parseDdlMessage_written upper (by decide) (by decide)]
    simp [ddlKind, extracted, Except.map]

end Nendi.Verified
