import Nendi.Lib.Words
import Nendi.Verified.DdlPanics
import Nendi.Verified.DdlProtocol

/-! # The column that a statement names

The column is the word behind the first `COLUMN` that a blank follows, in any case of
letters.  That is the column itself only if the statement has no optional clause, which
would stand between, and if the name of the table does not end in the keyword, which would
come first.
-/

namespace Nendi.Verified

open Nendi.Lib Nendi.Pgsql

inductive ColumnStatement where
  | add (ifNotExists : Bool) (type : String)
  | drop (ifExists : Bool)
  | alter (action : String)
deriving DecidableEq, Repr

namespace ColumnStatement

def verb : ColumnStatement → String
  | add _ _ => "ADD"
  | drop _ => "DROP"
  | alter _ => "ALTER"

def clause : ColumnStatement → String
  | add true _ => "IF NOT EXISTS "
  | drop true => "IF EXISTS "
  | _ => ""

def rest : ColumnStatement → String
  | add _ type => " " ++ type
  | drop _ => ""
  | alter action => " " ++ action

def text (statement : ColumnStatement) (table column : PlainName) : String :=
  "ALTER TABLE " ++ table.text ++ " " ++ statement.verb ++ " COLUMN " ++ statement.clause ++ column.text ++
    statement.rest

def tag : ColumnStatement → String
  | add _ _ => "ADD_COLUMN"
  | drop _ => "DROP_COLUMN"
  | alter _ => "ALTER_COLUMN"

def kind : ColumnStatement → String → DdlKind
  | add _ _ => .addColumn
  | drop _ => .dropColumn
  | alter _ => .alterColumn

end ColumnStatement

/-! ## Letters of words -/

/-- What is used of the letters that names and keywords are made of. -/
structure WordLetter (letter : Char) : Prop where
  ascii : letter.toNat < 128
  solid : isWhitespace letter = false
  noSemicolon : letter ≠ ';'
  noBlank : letter.toUpper ≠ ' '

theorem toNat_lt_of_le {letter high : Char} (le : letter.val ≤ high.val) (ascii : high.toNat < 128) :
    letter.toNat < 128 := Nat.lt_of_le_of_lt (UInt32.le_iff_toNat_le.mp le) ascii

theorem wordLetter {letter : Char}
    (alphanumeric : letter.isUpper ∨ letter.isLower ∨ letter.isDigit ∨ letter = '_') : WordLetter letter := by
  have ascii : letter.toNat < 128 := by
    rcases alphanumeric with upper | lower | digit | rfl
    · exact @toNat_lt_of_le letter 'Z' (of_decide_eq_true upper).2 (by decide)
    · exact @toNat_lt_of_le letter 'z' (of_decide_eq_true (Bool.and_eq_true_iff.mp lower).2) (by decide)
    · exact @toNat_lt_of_le letter '9' (of_decide_eq_true (Bool.and_eq_true_iff.mp digit).2) (by decide)
    · decide
  have facts := @ascii_forall (fun letter => letter.isUpper ∨ letter.isLower ∨ letter.isDigit ∨ letter = '_' →
    isWhitespace letter = false ∧ letter ≠ ';' ∧ letter.toUpper ≠ ' ') (by decide) letter ascii
  obtain ⟨solid, noSemicolon, noBlank⟩ := facts alphanumeric
  exact ⟨ascii, solid, noSemicolon, noBlank⟩

theorem PlainName.wordLetter (name : PlainName) {letter : Char} (member : letter ∈ name.text.toList) :
    WordLetter letter := Verified.wordLetter (.inr (name.plain letter member))

theorem PlainName.toLower_toUpper (name : PlainName) {letter : Char} (member : letter ∈ name.text.toList) :
    letter.isUpper = false ∧ letter.toUpper.toLower = letter := by
  have facts := @ascii_forall (fun letter => letter.isLower ∨ letter.isDigit ∨ letter = '_' →
    letter.isUpper = false ∧ letter.toUpper.toLower = letter) (by decide) letter (name.wordLetter member).ascii
  exact facts (name.plain letter member)

def upperCase (text : List Char) : List Char := text.map Char.toUpper

theorem flatMap_upper {upper : Char → List Char}
    (ascii : ∀ letter : Char, letter.toNat < 128 → upper letter = [letter.toUpper]) {text : List Char}
    (letters : ∀ letter ∈ text, letter.toNat < 128) : text.flatMap upper = upperCase text := by
  rw [upperCase, List.map_eq_flatMap]
  exact List.flatMap_congr fun letter member => ascii letter (letters letter member)

theorem utf8Length_upperCase {text : List Char} (letters : ∀ letter ∈ text, letter.toNat < 128) :
    utf8Length (upperCase text) = utf8Length text := by
  rw [utf8Length, utf8Length, upperCase, List.map_map]
  congr 1
  apply List.map_congr_left
  intro letter member
  exact toUpper_utf8Size (letters letter member)

theorem PlainName.suffix_upperCase (name : PlainName) :
    "COLUMN".toList <:+ upperCase name.text.toList ↔ "column".toList <:+ name.text.toList := by
  constructor
  · rintro ⟨before, same⟩
    obtain ⟨front, back, whole, _, upperBack⟩ := List.map_eq_append_iff.mp same.symm
    have lowered : back = (back.map Char.toUpper).map Char.toLower := by
      rw [List.map_map, List.map_congr_left, List.map_id]
      intro letter member
      exact (name.toLower_toUpper (whole ▸ List.mem_append_right front member)).2
    rw [lowered, upperBack] at whole
    exact ⟨front, whole.symm⟩
  · rintro ⟨front, same⟩
    exact ⟨front.map Char.toUpper, by rw [← same, upperCase, List.map_append]; rfl⟩

/-! ## Where the keyword is found -/

theorem findBytes_column {table verb : List Char} (clearTable : ' ' ∉ table) (clearVerb : ' ' ∉ verb)
    (otherVerb : ¬ "COLUMN".toList <:+ verb) (more : List Char) :
    findBytes "COLUMN ".toList ("ALTER TABLE ".toList ++ table ++ " ".toList ++ verb ++ " COLUMN ".toList ++ more) =
      some (if "COLUMN".toList <:+ table then 6 + utf8Length table else 14 + utf8Length table + utf8Length verb) := by
  have words : "ALTER TABLE ".toList ++ table ++ " ".toList ++ verb ++ " COLUMN ".toList ++ more =
      "ALTER".toList ++ ' ' :: ("TABLE".toList ++ ' ' :: (table ++ ' ' :: (verb ++ ' ' ::
        ("COLUMN".toList ++ ' ' :: more)))) := by
    simp
  have keyword : "COLUMN ".toList = "COLUMN".toList ++ [' '] := by decide
  have clearKey : ' ' ∉ "COLUMN".toList := by decide
  rw [words, keyword, findBytes_word clearKey (by decide), if_neg (by decide), findBytes_word clearKey (by decide),
    if_neg (by decide), findBytes_word clearKey clearTable, findBytes_word clearKey clearVerb, if_neg otherVerb,
    findBytes_word clearKey clearKey, if_pos List.suffix_rfl]
  have sizes : utf8Length "ALTER".toList = 5 ∧ utf8Length "TABLE".toList = 5 ∧ utf8Length "COLUMN".toList = 6 ∧
      ' '.utf8Size = 1 := by decide
  obtain ⟨alter, tableWord, column, blank⟩ := sizes
  rw [alter, tableWord, column, blank]
  split
  next suffix =>
    have longer := utf8Length_le_of_suffix suffix
    simp only [Option.map_some, Option.some.injEq]
    omega
  next =>
    simp only [Option.map_some, Option.some.injEq]
    omega

/-! ## What is extracted -/

structure Capitals (word : List Char) : Prop where
  nonempty : word ≠ []
  letters : word.all Char.isUpper = true

theorem Capitals.wordLetter {word : List Char} (capitals : Capitals word) {letter : Char} (member : letter ∈ word) :
    WordLetter letter := Verified.wordLetter (.inl (List.all_eq_true.mp capitals.letters letter member))

theorem Capitals.ne_name {word : List Char} (capitals : Capitals word) (name : PlainName) :
    String.ofList word ≠ name.text := by
  intro same
  have member := List.head_mem capitals.nonempty
  have upper := List.all_eq_true.mp capitals.letters _ member
  have inName : word.head capitals.nonempty ∈ name.text.toList := by rwa [← same, String.toList_ofList]
  rw [(name.toLower_toUpper inName).1] at upper
  cases upper

namespace ColumnStatement

def extracted (statement : ColumnStatement) (table column : PlainName) : List Char :=
  if "column".toList <:+ table.text.toList then statement.verb.toList
  else if statement.clause = "" then column.text.toList
  else "IF".toList

theorem verb_facts (statement : ColumnStatement) :
    Capitals statement.verb.toList ∧
      statement.verb.toList.all (fun letter => letter.toNat < 128 && letter.toUpper = letter) = true ∧
      ¬ "COLUMN".toList <:+ statement.verb.toList := by
  have checked : ∀ verb ∈ ["ADD", "DROP", "ALTER"], (verb.toList ≠ [] ∧ verb.toList.all Char.isUpper = true) ∧
      verb.toList.all (fun letter => letter.toNat < 128 && letter.toUpper = letter) = true ∧
        ¬ "COLUMN".toList <:+ verb.toList := by decide
  have facts := checked statement.verb (by cases statement <;> simp [verb])
  exact ⟨⟨facts.1.1, facts.1.2⟩, facts.2⟩

theorem rest_head (statement : ColumnStatement) :
    ∀ letter ∈ statement.rest.toList.head?, isWhitespace letter = true := by
  intro letter member
  cases statement with
  | add ifNotExists type =>
    simp only [rest, String.toList_append] at member
    cases member
    decide
  | drop ifExists => cases member
  | alter action =>
    simp only [rest, String.toList_append] at member
    cases member
    decide

theorem clause_cases (statement : ColumnStatement) :
    statement.clause = "" ∨ ∃ more, statement.clause.toList = "IF".toList ++ ' ' :: more := by
  rcases statement with (⟨_ | _, type⟩ | ⟨_ | _⟩ | action)
  · exact .inl rfl
  · exact .inr ⟨"NOT EXISTS ".toList, by simp [clause]⟩
  · exact .inl rfl
  · exact .inr ⟨"EXISTS ".toList, by simp [clause]⟩
  · exact .inl rfl

end ColumnStatement

theorem extractColumnName_eq {upper : Char → List Char} {stmt : String} {before word after : List Char}
    (text : stmt.toList = before ++ word ++ after)
    (found : findBytes "COLUMN ".toList (stmt.toList.flatMap upper) = some (utf8Length before - 7))
    (behind : 7 ≤ utf8Length before) (nonempty : word ≠ [])
    (solid : ∀ letter ∈ word, isWhitespace letter = false ∧ letter ≠ ';')
    (ends : ∀ letter ∈ after.head?, isWhitespace letter = true) :
    extractColumnName upper stmt = .ok (some (String.ofList word)) := by
  have first : firstWord (word ++ after) = some word :=
    firstWord_append nonempty (fun letter member => (solid letter member).1) ends
  have noSemicolon : word.rdropWhile (· = ';') = word := by
    rw [List.rdropWhile_eq_self_iff]
    intro _
    simpa using (solid _ (List.getLast_mem nonempty)).2
  rw [extractColumnName, extractName, found]
  simp only [Nat.sub_add_cancel behind]
  rw [text, List.append_assoc, dropBytes_append]
  simp only [first, Option.map_some, noSemicolon]

theorem ColumnStatement.text_toList (statement : ColumnStatement) (table column : PlainName) :
    (statement.text table column).toList = "ALTER TABLE ".toList ++ table.text.toList ++
      " ".toList ++ statement.verb.toList ++ " COLUMN ".toList ++
        (statement.clause.toList ++ column.text.toList ++ statement.rest.toList) := by
  unfold ColumnStatement.text
  simp only [String.toList_append, List.append_assoc]

section
variable {upper : Char → List Char}
  (ascii : ∀ letter : Char, letter.toNat < 128 → upper letter = [letter.toUpper])
include ascii

theorem flatMap_upper_self {text : List Char}
    (letters : text.all (fun letter => letter.toNat < 128 && letter.toUpper = letter) = true) :
    text.flatMap upper = text := by
  have each : ∀ letter ∈ text, upper letter = [letter] := by
    intro letter member
    have facts := List.all_eq_true.mp letters letter member
    rw [Bool.and_eq_true, decide_eq_true_eq, decide_eq_true_eq] at facts
    rw [ascii letter facts.1, facts.2]
  rw [List.flatMap_congr each, List.flatMap_singleton']

theorem findBytes_statement (statement : ColumnStatement) (table : PlainName) (tail : List Char) :
    findBytes "COLUMN ".toList (("ALTER TABLE ".toList ++ table.text.toList ++ " ".toList ++ statement.verb.toList ++
        " COLUMN ".toList ++ tail).flatMap upper) =
      some (if "column".toList <:+ table.text.toList then 6 + utf8Length table.text.toList
        else 14 + utf8Length table.text.toList + utf8Length statement.verb.toList) := by
  obtain ⟨capitals, copied, other⟩ := statement.verb_facts
  have tableLetters : ∀ letter ∈ table.text.toList, letter.toNat < 128 := fun _ member => (table.wordLetter member).ascii
  have clearTable : ' ' ∉ upperCase table.text.toList := by
    intro member
    obtain ⟨letter, inTable, blank⟩ := List.mem_map.mp member
    exact (table.wordLetter inTable).noBlank blank
  have clearVerb : ' ' ∉ statement.verb.toList := by
    intro member
    exact absurd (capitals.wordLetter member).solid (by decide)
  have copy : ("ALTER TABLE ".toList ++ table.text.toList ++ " ".toList ++ statement.verb.toList ++ " COLUMN ".toList ++
      tail).flatMap upper = "ALTER TABLE ".toList ++ upperCase table.text.toList ++ " ".toList ++ statement.verb.toList ++
        " COLUMN ".toList ++ tail.flatMap upper := by
    have alterTable := @flatMap_upper_self upper ascii "ALTER TABLE ".toList (by decide)
    have columnWord := @flatMap_upper_self upper ascii " COLUMN ".toList (by decide)
    have blank := @flatMap_upper_self upper ascii " ".toList (by decide)
    simp only [List.flatMap_append, alterTable, flatMap_upper ascii tableLetters, blank,
      flatMap_upper_self ascii copied, columnWord]
  rw [copy, findBytes_column clearTable clearVerb other, utf8Length_upperCase tableLetters]
  simp only [table.suffix_upperCase]

/-- If the name of the table ends in the keyword, what follows the table is taken for the column. -/
theorem extractColumnName_of_suffix (statement : ColumnStatement) {table : PlainName} (column : PlainName)
    (suffix : "column".toList <:+ table.text.toList) :
    extractColumnName upper (statement.text table column) = .ok (some (String.ofList statement.verb.toList)) := by
  have found := findBytes_statement ascii statement table
    (statement.clause.toList ++ column.text.toList ++ statement.rest.toList)
  rw [← statement.text_toList, if_pos suffix] at found
  have capitals := statement.verb_facts.1
  have sizes : utf8Length "ALTER TABLE ".toList = 12 ∧ utf8Length " ".toList = 1 := by decide
  have length : utf8Length ("ALTER TABLE ".toList ++ table.text.toList ++ " ".toList) =
      6 + utf8Length table.text.toList + 7 := by
    rw [utf8Length_append, utf8Length_append, sizes.1, sizes.2]
    omega
  apply @extractColumnName_eq upper _ ("ALTER TABLE ".toList ++ table.text.toList ++ " ".toList) _
    (" COLUMN ".toList ++ (statement.clause.toList ++ column.text.toList ++ statement.rest.toList))
  · rw [statement.text_toList, List.append_assoc]
  · rw [found, length, Nat.add_sub_cancel]
  · omega
  · exact capitals.nonempty
  · intro letter member
    exact ⟨(capitals.wordLetter member).solid, (capitals.wordLetter member).noSemicolon⟩
  · intro letter member
    cases member
    decide

theorem extractColumnName_of_not_suffix (statement : ColumnStatement) {table column : PlainName}
    (noSuffix : ¬ "column".toList <:+ table.text.toList) {word after : List Char}
    (follows : statement.clause.toList ++ column.text.toList ++ statement.rest.toList = word ++ after)
    (nonempty : word ≠ []) (letters : ∀ letter ∈ word, WordLetter letter)
    (ends : ∀ letter ∈ after.head?, isWhitespace letter = true) :
    extractColumnName upper (statement.text table column) = .ok (some (String.ofList word)) := by
  have found := findBytes_statement ascii statement table
    (statement.clause.toList ++ column.text.toList ++ statement.rest.toList)
  rw [← statement.text_toList, if_neg noSuffix] at found
  have sizes : utf8Length "ALTER TABLE ".toList = 12 ∧ utf8Length " ".toList = 1 ∧ utf8Length " COLUMN ".toList = 8 := by
    decide
  have length : utf8Length ("ALTER TABLE ".toList ++ table.text.toList ++ " ".toList ++ statement.verb.toList ++
      " COLUMN ".toList) = 14 + utf8Length table.text.toList + utf8Length statement.verb.toList + 7 := by
    rw [utf8Length_append, utf8Length_append, utf8Length_append, utf8Length_append, sizes.1, sizes.2.1, sizes.2.2]
    omega
  apply extractColumnName_eq _ _ _ nonempty _ ends
  · exact "ALTER TABLE ".toList ++ table.text.toList ++ " ".toList ++ statement.verb.toList ++ " COLUMN ".toList
  · rw [statement.text_toList, follows, List.append_assoc _ word after]
  · rw [found, length, Nat.add_sub_cancel]
  · omega
  · intro letter member
    exact ⟨(letters letter member).solid, (letters letter member).noSemicolon⟩

theorem extractColumnName_text (statement : ColumnStatement) (table column : PlainName) :
    extractColumnName upper (statement.text table column) =
      .ok (some (String.ofList (statement.extracted table column))) := by
  rw [ColumnStatement.extracted]
  split
  next suffix => exact extractColumnName_of_suffix ascii statement column suffix
  next noSuffix =>
    split
    next none =>
      have nonempty : column.text.toList ≠ [] := by
        intro empty
        exact column.nonempty (String.toList_eq_nil_iff.mp empty)
      apply extractColumnName_of_not_suffix ascii statement noSuffix _ nonempty (fun _ => column.wordLetter)
        statement.rest_head
      rw [none]
      rfl
    next clause =>
      obtain ⟨more, optional⟩ := statement.clause_cases.resolve_left clause
      have capitals : Capitals "IF".toList := ⟨by decide, by decide⟩
      have follows : statement.clause.toList ++ column.text.toList ++ statement.rest.toList =
          "IF".toList ++ ' ' :: (more ++ column.text.toList ++ statement.rest.toList) := by
        rw [optional, List.append_assoc, List.append_assoc, List.append_assoc]
        rfl
      apply extractColumnName_of_not_suffix ascii statement noSuffix follows capitals.nonempty
        (fun _ => capitals.wordLetter)
      intro letter member
      cases member
      decide

theorem parseDdlMessage_column {label : String} (plainLabel : '|' ∉ label.toList) (statement : ColumnStatement)
    (table column : PlainName) :
    parseDdlMessage upper (statement.tag ++ "|" ++ label ++ "|" ++ statement.text table column) =
      .ok ⟨label, statement.kind (String.ofList (statement.extracted table column)), statement.text table column⟩ := by
  have extracted := extractColumnName_text ascii statement table column
  have plainTag : '|' ∉ statement.tag.toList := by
    have checked : ∀ tag ∈ ["ADD_COLUMN", "DROP_COLUMN", "ALTER_COLUMN"], '|' ∉ tag.toList := by decide
    exact checked statement.tag (by cases statement <;> simp [ColumnStatement.tag])
  rw [parseDdlMessage_written upper plainTag plainLabel]
  cases statement with
  | add ifNotExists type => simp [ddlKind, ColumnStatement.tag, extracted, Except.map, ColumnStatement.kind]
  | drop ifExists => simp [ddlKind, ColumnStatement.tag, extracted, Except.map, ColumnStatement.kind]
  | alter action => simp [ddlKind, ColumnStatement.tag, extracted, Except.map, ColumnStatement.kind]

end

theorem ColumnStatement.kind_inj {statement : ColumnStatement} {first second : String}
    (same : statement.kind first = statement.kind second) : first = second := by
  cases statement with
  | add ifNotExists type => exact DdlKind.addColumn.inj same
  | drop ifExists => exact DdlKind.dropColumn.inj same
  | alter action => exact DdlKind.alterColumn.inj same

theorem ColumnStatement.extracted_eq_iff (statement : ColumnStatement) (table column : PlainName) :
    String.ofList (statement.extracted table column) = column.text ↔
      statement.clause = "" ∧ ¬ "column".toList <:+ table.text.toList := by
  unfold extracted
  split
  next suffix => exact iff_of_false (statement.verb_facts.1.ne_name column) (fun holds => holds.2 suffix)
  next noSuffix =>
    split
    next none => exact iff_of_true String.ofList_toList ⟨none, noSuffix⟩
    next clause =>
      have capitals : Capitals "IF".toList := ⟨by decide, by decide⟩
      exact iff_of_false (capitals.ne_name column) (fun holds => clause holds.1)

/-- The column of a statement is the one extracted exactly if no optional clause stands
    before it and the name of the table does not end in `column`. -/
theorem column_extracted_iff (upper : Char → List Char)
    (ascii : ∀ letter : Char, letter.toNat < 128 → upper letter = [letter.toUpper])
    (label : String) (plainLabel : '|' ∉ label.toList) (statement : ColumnStatement) (table column : PlainName) :
    parseDdlMessage upper (statement.tag ++ "|" ++ label ++ "|" ++ statement.text table column) =
        .ok ⟨label, statement.kind column.text, statement.text table column⟩ ↔
      statement.clause = "" ∧ ¬ "column".toList <:+ table.text.toList := by
  rw [parseDdlMessage_column ascii plainLabel, ← statement.extracted_eq_iff table column]
  constructor
  · intro same
    exact ColumnStatement.kind_inj (congrArg ParsedDdl.kind (Except.ok.inj same))
  · intro same
    rw [same]

def usersTable : PlainName := ⟨"users", by simp, by simp⟩

def emailColumn : PlainName := ⟨"email", by simp, by simp⟩

theorem column_extracted_iff_email :
    parseDdlMessage (fun letter => [letter.toUpper])
        "ADD_COLUMN|public.users|ALTER TABLE users ADD COLUMN email text" =
      .ok ⟨"public.users", .addColumn "email", "ALTER TABLE users ADD COLUMN email text"⟩ :=
  (column_extracted_iff (fun letter => [letter.toUpper]) (fun _ _ => rfl) "public.users" (by decide)
    (.add false "text") usersTable emailColumn).mpr ⟨rfl, by decide⟩

def auditColumnTable : PlainName := ⟨"audit_column", by simp, by simp⟩

/-- A clause is taken for the column, and so is what follows a table whose name ends in the keyword. -/
theorem other_words_extracted :
    (∃ upper : Char → List Char, ∀ letter : Char, letter.toNat < 128 → upper letter = [letter.toUpper]) ∧
    ¬ ∃ upper : Char → List Char, (∀ letter : Char, letter.toNat < 128 → upper letter = [letter.toUpper]) ∧
      (parseDdlMessage upper "DROP_COLUMN|public.users|ALTER TABLE users DROP COLUMN IF EXISTS email" ≠
          .ok ⟨"public.users", .dropColumn "IF", "ALTER TABLE users DROP COLUMN IF EXISTS email"⟩ ∨
        parseDdlMessage upper "ADD_COLUMN|public.audit_column|ALTER TABLE audit_column ADD COLUMN email text" ≠
          .ok ⟨"public.audit_column", .addColumn "ADD", "ALTER TABLE audit_column ADD COLUMN email text"⟩) := by
  refine ⟨⟨fun letter => [letter.toUpper], fun _ _ => rfl⟩, ?_⟩
  rintro ⟨upper, ascii, clause | keyword⟩
  · exact clause (parseDdlMessage_column ascii (by decide : '|' ∉ "public.users".toList) (.drop true) usersTable emailColumn)
  · exact keyword (parseDdlMessage_column ascii (by decide : '|' ∉ "public.audit_column".toList) (.add false "text")
      auditColumnTable emailColumn)

end Nendi.Verified
