import Mathlib.Data.Rat.Floor
import Nendi.Lib.Hex

/-! # JSON texts

The grammar of JSON, as relations between a text, the value that it begins with and what
is left of the text.  Strings and numbers are read by functions, since they have no structure
below them; whitespace is skipped before each token.  An object keeps its members as they
stand, equal names included.

The lemmas say what a text can be read as from its first letters on.  `readString_eq_self`
says which texts between quotes are read as themselves. -/

namespace Nendi.Lib

inductive Json where
  | null
  | bool (value : Bool)
  | num (value : ℚ)
  | str (text : String)
  | arr (items : List Json)
  | obj (members : List (String × Json))

def isSpace (letter : Char) : Bool := letter = ' ' || letter = '\t' || letter = '\n' || letter = '\r'

def skipSpace (text : List Char) : List Char := text.dropWhile isSpace

/-! ## Strings -/

inductive StringMode where
  | plain
  -- behind a backslash
  | escaped
  -- in the four digits behind `\u`, perhaps those of the second half of a surrogate pair
  | digits (missing value : Nat) (high : Option Nat)
  -- behind the first half of a pair, and then behind the backslash that follows it
  | lowEscape (high : Nat)
  | lowMark (high : Nat)
deriving DecidableEq, Repr

def simpleEscape (letter : Char) : Option Char :=
  match letter with
  | '"' => some '"'
  | '\\' => some '\\'
  | '/' => some '/'
  | 'b' => some '\x08'
  | 'f' => some '\x0c'
  | 'n' => some '\n'
  | 'r' => some '\r'
  | 't' => some '\t'
  | _ => none

/-- No character has the code of half a pair. -/
def scalar (code : Nat) : Option Char := if code.isValidChar then some (Char.ofNat code) else none

def emit (letter : Char) (result : Option (List Char × List Char)) : Option (List Char × List Char) :=
  result.map fun (text, rest) => (letter :: text, rest)

def readFrom : StringMode → List Char → Option (List Char × List Char)
  | _, [] => none
  | .plain, letter :: rest =>
    if letter = '"' then some ([], rest)
    else if letter = '\\' then readFrom .escaped rest
    -- control characters have to be escaped
    else if letter.toNat < 0x20 then none
    else emit letter (readFrom .plain rest)
  | .escaped, letter :: rest =>
    if letter = 'u' then readFrom (.digits 4 0 none) rest
    else (simpleEscape letter).bind fun meant => emit meant (readFrom .plain rest)
  | .digits missing value high, letter :: rest =>
    (hexValue letter).bind fun digit =>
      let code := 16 * value + digit
      if 1 < missing then readFrom (.digits (missing - 1) code high) rest
      else
        match high with
        | none =>
          if 0xD800 ≤ code ∧ code < 0xDC00 then readFrom (.lowEscape code) rest
          else (scalar code).bind fun meant => emit meant (readFrom .plain rest)
        | some high =>
          if 0xDC00 ≤ code ∧ code < 0xE000 then
            (scalar (0x10000 + (high - 0xD800) * 0x400 + (code - 0xDC00))).bind fun meant =>
              emit meant (readFrom .plain rest)
          else none
  | .lowEscape high, letter :: rest => if letter = '\\' then readFrom (.lowMark high) rest else none
  | .lowMark high, letter :: rest => if letter = 'u' then readFrom (.digits 4 0 (some high)) rest else none

def readString (text : List Char) : Option (List Char × List Char) := readFrom .plain text

example : readString "\\u0041\\ud83d\\ude00\\n\" ]".toList = some (['A', Char.ofNat 0x1F600, '\n'], " ]".toList) := by decide

/-! ## Numbers -/

def decimal (digits : List Char) : Nat := Nat.ofDigitChars 10 digits 0

def readFraction : List Char → Option (ℚ × List Char)
  | '.' :: text =>
    let (digits, rest) := text.span Char.isDigit
    if digits = [] then none else some ((decimal digits : ℚ) / 10 ^ digits.length, rest)
  | text => some (0, text)

def readSign : List Char → Int × List Char
  | '-' :: text => (-1, text)
  | '+' :: text => (1, text)
  | text => (1, text)

def readExponent (text : List Char) : Option (Int × List Char) :=
  match text with
  | letter :: more =>
    if letter = 'e' ∨ letter = 'E' then
      let (sign, unsigned) := readSign more
      let (digits, rest) := unsigned.span Char.isDigit
      if digits = [] then none else some (sign * decimal digits, rest)
    else some (0, text)
  | [] => some (0, text)

/-- Digits with no superfluous zero in front, a fraction and an exponent. -/
def readUnsigned (text : List Char) : Option (ℚ × List Char) :=
  let (digits, rest) := text.span Char.isDigit
  if digits = [] ∨ (digits.head? = some '0' ∧ digits ≠ ['0']) then none
  else
    (readFraction rest).bind fun (fraction, rest) =>
      (readExponent rest).map fun (exponent, rest) => ((decimal digits + fraction) * 10 ^ exponent, rest)

def readNumber : List Char → Option (ℚ × List Char)
  | '-' :: text => (readUnsigned text).map fun (value, rest) => (-value, rest)
  | text => readUnsigned text

/-! ## The grammar -/

mutual

inductive ReadsValue : List Char → Json → List Char → Prop where
  | null {text rest : List Char} (token : skipSpace text = 'n' :: 'u' :: 'l' :: 'l' :: rest) :
      ReadsValue text .null rest
  | true_ {text rest : List Char} (token : skipSpace text = 't' :: 'r' :: 'u' :: 'e' :: rest) :
      ReadsValue text (.bool true) rest
  | false_ {text rest : List Char} (token : skipSpace text = 'f' :: 'a' :: 'l' :: 's' :: 'e' :: rest) :
      ReadsValue text (.bool false) rest
  | number {text rest : List Char} {value : ℚ} (token : readNumber (skipSpace text) = some (value, rest)) :
      ReadsValue text (.num value) rest
  | string {text inner content rest : List Char} (token : skipSpace text = '"' :: inner)
      (read : readString inner = some (content, rest)) : ReadsValue text (.str (String.ofList content)) rest
  | emptyArray {text inner rest : List Char} (token : skipSpace text = '[' :: inner)
      (close : skipSpace inner = ']' :: rest) : ReadsValue text (.arr []) rest
  | array {text inner rest : List Char} {items : List Json} (token : skipSpace text = '[' :: inner)
      (read : ReadsItems inner items rest) : ReadsValue text (.arr items) rest
  | emptyObject {text inner rest : List Char} (token : skipSpace text = '\x7b' :: inner)
      (close : skipSpace inner = '\x7d' :: rest) : ReadsValue text (.obj []) rest
  | object {text inner rest : List Char} {members : List (String × Json)} (token : skipSpace text = '\x7b' :: inner)
      (read : ReadsMembers inner members rest) : ReadsValue text (.obj members) rest

/-- One item and what follows it, to the closing bracket. -/
inductive ReadsItems : List Char → List Json → List Char → Prop where
  | intro {text next rest : List Char} {item : Json} {items : List Json} (first : ReadsValue text item next)
      (others : ReadsMoreItems next items rest) : ReadsItems text (item :: items) rest

inductive ReadsMoreItems : List Char → List Json → List Char → Prop where
  | stop {text rest : List Char} (token : skipSpace text = ']' :: rest) : ReadsMoreItems text [] rest
  | more {text next rest : List Char} {items : List Json} (token : skipSpace text = ',' :: next)
      (others : ReadsItems next items rest) : ReadsMoreItems text items rest

/-- One member and what follows it, to the closing brace. -/
inductive ReadsMembers : List Char → List (String × Json) → List Char → Prop where
  | intro {text inner name colon valueText next rest : List Char} {value : Json} {members : List (String × Json)}
      (token : skipSpace text = '"' :: inner) (read : readString inner = some (name, colon))
      (separator : skipSpace colon = ':' :: valueText) (first : ReadsValue valueText value next)
      (others : ReadsMoreMembers next members rest) :
      ReadsMembers text ((String.ofList name, value) :: members) rest

inductive ReadsMoreMembers : List Char → List (String × Json) → List Char → Prop where
  | stop {text rest : List Char} (token : skipSpace text = '\x7d' :: rest) : ReadsMoreMembers text [] rest
  | more {text next rest : List Char} {members : List (String × Json)} (token : skipSpace text = ',' :: next)
      (others : ReadsMembers next members rest) : ReadsMoreMembers text members rest

end

def ReadsJson (text : String) (value : Json) : Prop :=
  ∃ rest, ReadsValue text.toList value rest ∧ skipSpace rest = []

/-! ## What a string is read as -/

def Unescaped (text : List Char) : Prop :=
  text.all (fun letter => letter ≠ '"' && letter ≠ '\\' && 0x20 ≤ letter.toNat) = true

instance (text : List Char) : Decidable (Unescaped text) := inferInstanceAs (Decidable (_ = true))

theorem unescaped_cons (letter : Char) (text : List Char) :
    Unescaped (letter :: text) ↔ (letter ≠ '"' ∧ letter ≠ '\\' ∧ 0x20 ≤ letter.toNat) ∧ Unescaped text := by
  simp [Unescaped, and_assoc]

theorem unescaped_append (first second : List Char) :
    Unescaped (first ++ second) ↔ Unescaped first ∧ Unescaped second := by
  simp [Unescaped]

theorem readString_unescaped {text : List Char} (unescaped : Unescaped text) (rest : List Char) :
    readString (text ++ '"' :: rest) = some (text, rest) := by
  induction text with
  | nil => rfl
  | cons letter text inductionHypothesis =>
    obtain ⟨⟨noQuote, noBackslash, noControl⟩, others⟩ := (unescaped_cons letter text).mp unescaped
    have read := inductionHypothesis others
    unfold readString at read ⊢
    rw [List.cons_append, readFrom, if_neg noQuote, if_neg noBackslash, if_neg (Nat.not_lt.mpr noControl), read]
    rfl

theorem emit_eq_some {letter : Char} {result : Option (List Char × List Char)} {content rest : List Char}
    (emitted : emit letter result = some (content, rest)) :
    ∃ tail, result = some (tail, rest) ∧ content = letter :: tail := by
  obtain ⟨⟨tail, rest'⟩, read, same⟩ := Option.map_eq_some_iff.mp emitted
  cases same
  exact ⟨tail, read, rfl⟩

theorem readFrom_escape_cons {mode : StringMode} (escape : mode ≠ .plain) {letter : Char}
    {text content rest : List Char} (read : readFrom mode (letter :: text) = some (content, rest)) :
    (∃ next, next ≠ .plain ∧ next ≠ .escaped ∧ readFrom next text = some (content, rest)) ∨
      ∃ meant tail, readFrom .plain text = some (tail, rest) ∧ content = meant :: tail := by
  cases mode with
  | plain => exact absurd rfl escape
  | escaped =>
    simp only [readFrom] at read
    split at read
    next => exact .inl ⟨_, by simp, by simp, read⟩
    next =>
      obtain ⟨meant, _, emitted⟩ := Option.bind_eq_some_iff.mp read
      exact .inr ⟨meant, emit_eq_some emitted⟩
  | digits missing value high =>
    simp only [readFrom] at read
    obtain ⟨digit, _, read⟩ := Option.bind_eq_some_iff.mp read
    split at read
    next => exact .inl ⟨_, by simp, by simp, read⟩
    next =>
      split at read
      next =>
        split at read
        next => exact .inl ⟨_, by simp, by simp, read⟩
        next =>
          obtain ⟨meant, _, emitted⟩ := Option.bind_eq_some_iff.mp read
          exact .inr ⟨meant, emit_eq_some emitted⟩
      next =>
        split at read
        next =>
          obtain ⟨meant, _, emitted⟩ := Option.bind_eq_some_iff.mp read
          exact .inr ⟨meant, emit_eq_some emitted⟩
        next => cases read
  | lowEscape high =>
    simp only [readFrom] at read
    split at read
    next => exact .inl ⟨_, by simp, by simp, read⟩
    next => cases read
  | lowMark high =>
    simp only [readFrom] at read
    split at read
    next => exact .inl ⟨_, by simp, by simp, read⟩
    next => cases read

theorem readFrom_escape_quote {mode : StringMode} (escape : mode ≠ .plain) {text content rest : List Char}
    (read : readFrom mode ('"' :: ',' :: '"' :: text) = some (content, rest)) :
    mode = .escaped ∧ content = ['"', ','] := by
  cases mode with
  | plain => exact absurd rfl escape
  | escaped =>
    have letters : readFrom .escaped ('"' :: ',' :: '"' :: text) = some (['"', ','], text) := rfl
    rw [letters] at read
    cases read
    exact ⟨rfl, rfl⟩
  | digits missing value high => cases read
  | lowEscape high => cases read
  | lowMark high => cases read

theorem getLast?_cons_of_some {α : Type} {list : List α} {last : α} (ends : list.getLast? = some last) (first : α) :
    (first :: list).getLast? = some last := by
  rw [List.getLast?_cons, ends]
  rfl

/-- What becomes of a text in front of `","`: it is read as itself, or cut off or contracted,
    or continued behind the quote by a backslash at its end. -/
inductive ReadAs (text more content rest : List Char) : Prop where
  | itself (unescaped : Unescaped text) (same : content = text) (behind : rest = ',' :: '"' :: more)
  | shorter (less : content.length < text.length)
  | continued (ends : text.getLast? = some '\\') (contentEnds : content.getLast? = some ',')

theorem ReadAs.ordinary {text more content rest : List Char} {letter : Char}
    (ordinary : letter ≠ '"' ∧ letter ≠ '\\' ∧ 0x20 ≤ letter.toNat) (readAs : ReadAs text more content rest) :
    ReadAs (letter :: text) more (letter :: content) rest := by
  cases readAs with
  | itself unescaped same behind =>
    exact .itself ((unescaped_cons letter text).mpr ⟨ordinary, unescaped⟩) (by rw [same]) behind
  | shorter less => exact .shorter (Nat.succ_lt_succ less)
  | continued ends contentEnds =>
    exact .continued (getLast?_cons_of_some ends letter) (getLast?_cons_of_some contentEnds letter)

/-- The same inside an escape, where the backslash has been read already. -/
inductive Contracted (mode : StringMode) (text content : List Char) : Prop where
  | shorter (le : content.length ≤ text.length)
  | continued (ends : text.getLast? = some '\\') (contentEnds : content.getLast? = some ',')
  | split (escaped : mode = .escaped) (empty : text = []) (contentEnds : content.getLast? = some ',')

theorem ReadAs.completed {text more content rest : List Char} (readAs : ReadAs text more content rest)
    (mode : StringMode) (letter meant : Char) : Contracted mode (letter :: text) (meant :: content) := by
  cases readAs with
  | itself unescaped same behind => exact .shorter (by rw [same]; exact Nat.le_refl _)
  | shorter less => exact .shorter (Nat.succ_le_succ (Nat.le_of_lt less))
  | continued ends contentEnds =>
    exact .continued (getLast?_cons_of_some ends letter) (getLast?_cons_of_some contentEnds meant)

theorem Contracted.consumed {next : StringMode} {text content : List Char} (contracted : Contracted next text content)
    (inside : next ≠ .escaped) (mode : StringMode) (letter : Char) : Contracted mode (letter :: text) content := by
  cases contracted with
  | shorter le => exact .shorter (Nat.le_succ_of_le le)
  | continued ends contentEnds => exact .continued (getLast?_cons_of_some ends letter) contentEnds
  | split escaped empty contentEnds => exact absurd escaped inside

theorem Contracted.backslash {text content : List Char} (contracted : Contracted .escaped text content)
    (more rest : List Char) : ReadAs ('\\' :: text) more content rest := by
  cases contracted with
  | shorter le => exact .shorter (Nat.lt_succ_of_le le)
  | continued ends contentEnds => exact .continued (getLast?_cons_of_some ends _) contentEnds
  | split escaped empty contentEnds => exact .continued (by rw [empty]; rfl) contentEnds

theorem readAs_of_readFrom {text more content rest : List Char} :
    (readFrom .plain (text ++ '"' :: ',' :: '"' :: more) = some (content, rest) → ReadAs text more content rest) ∧
      ∀ mode ≠ .plain, readFrom mode (text ++ '"' :: ',' :: '"' :: more) = some (content, rest) →
        Contracted mode text content := by
  -- both by induction over the text, as the reader goes from one mode to the other
  induction text generalizing content with
  | nil =>
    constructor
    · intro read
      cases read
      exact .itself rfl rfl rfl
    · intro mode escape read
      obtain ⟨escaped, same⟩ := readFrom_escape_quote escape read
      exact .split escaped rfl (by rw [same]; rfl)
  | cons letter text inductionHypothesis =>
    constructor
    · intro read
      rw [List.cons_append, readFrom] at read
      split_ifs at read with quote backslash control
      · cases read
        exact .shorter (Nat.succ_pos _)
      · subst backslash
        exact (inductionHypothesis.2 .escaped (by simp) read).backslash more rest
      · obtain ⟨tail, plainRead, rfl⟩ := emit_eq_some read
        exact (inductionHypothesis.1 plainRead).ordinary ⟨quote, backslash, Nat.le_of_not_lt control⟩
    · intro mode escape read
      rw [List.cons_append] at read
      obtain ⟨next, inside, notEscaped, nextRead⟩ | ⟨meant, tail, plainRead, rfl⟩ := readFrom_escape_cons escape read
      · exact (inductionHypothesis.2 next inside nextRead).consumed notEscaped mode letter
      · exact (inductionHypothesis.1 plainRead).completed mode letter meant

/-- Only a text in which nothing has to be escaped is read as itself. -/
theorem readString_eq_self {text more rest : List Char}
    (read : readString (text ++ '"' :: ',' :: '"' :: more) = some (text, rest)) :
    Unescaped text ∧ rest = ',' :: '"' :: more := by
  cases readAs_of_readFrom.1 read with
  | itself unescaped same behind => exact ⟨unescaped, behind⟩
  | shorter less => exact absurd less (Nat.lt_irrefl _)
  | continued ends contentEnds =>
    rw [ends] at contentEnds
    exact absurd (Option.some.inj contentEnds) (by decide)

/-! ## What numbers are read as -/

theorem head?_toDigits {number : Nat} (positive : 0 < number) : (Nat.toDigits 10 number).head? ≠ some '0' := by
  induction number using Nat.strongRecOn with
  | ind number inductionHypothesis =>
    by_cases small : number < 10
    · have checked : ∀ digit < 10, 0 < digit → [digit.digitChar].head? ≠ some '0' := by decide
      rw [Nat.toDigits_of_lt_base small]
      exact checked number small positive
    · have front := inductionHypothesis (number / 10) (by omega) (by omega)
      rw [Nat.toDigits_of_base_le (by omega) (by omega), List.head?_append_of_ne_nil _ Nat.toDigits_ne_nil]
      exact front

/-- A number ends in front of such a letter. -/
structure EndsNumber (letter : Char) : Prop where
  notDigit : letter.isDigit = false
  notPoint : letter ≠ '.'
  notExponent : ¬ (letter = 'e' ∨ letter = 'E')

theorem comma_endsNumber : EndsNumber ',' := ⟨by decide, by decide, by decide⟩

theorem brace_endsNumber : EndsNumber '\x7d' := ⟨by decide, by decide, by decide⟩

theorem readFraction_cons {letter : Char} (ends : EndsNumber letter) (rest : List Char) :
    readFraction (letter :: rest) = some (0, letter :: rest) := by
  unfold readFraction
  split
  next same =>
    cases same
    exact absurd rfl ends.notPoint
  next => rfl

theorem readUnsigned_toDigits (number : Nat) {letter : Char} (ends : EndsNumber letter) (rest : List Char) :
    readUnsigned (Nat.toDigits 10 number ++ letter :: rest) = some ((number : ℚ), letter :: rest) := by
  have digits : (Nat.toDigits 10 number ++ letter :: rest).span Char.isDigit =
      (Nat.toDigits 10 number, letter :: rest) := by
    apply span_stops rest _ ends.notDigit
    intro digit member
    exact Nat.isDigit_of_mem_toDigits (by decide) (by decide) member
  have canonical : ¬ (Nat.toDigits 10 number = [] ∨
      ((Nat.toDigits 10 number).head? = some '0' ∧ Nat.toDigits 10 number ≠ ['0'])) := by
    rintro (empty | ⟨zero, others⟩)
    · exact Nat.toDigits_ne_nil empty
    · obtain rfl | positive := Nat.eq_zero_or_pos number
      · exact others rfl
      · exact head?_toDigits positive zero
  simp only [readUnsigned, digits, if_neg canonical, readFraction_cons ends, readExponent, if_neg ends.notExponent,
    decimal, Nat.ofDigitChars_ten_toDigits, Option.bind_some, Option.map_some, add_zero, zpow_zero, mul_one]

theorem readNumber_nat (number : Nat) {letter : Char} (ends : EndsNumber letter) (rest : List Char) :
    readNumber (number.repr.toList ++ letter :: rest) = some ((number : ℚ), letter :: rest) := by
  rw [Nat.toList_repr, ← readUnsigned_toDigits number ends rest]
  unfold readNumber
  split
  next text same =>
    -- no digit is a minus sign
    have member : '-' ∈ Nat.toDigits 10 number := by
      obtain ⟨first, others, digits⟩ := List.exists_cons_of_ne_nil (@Nat.toDigits_ne_nil number 10)
      rw [digits, List.cons_append, List.cons.injEq] at same
      rw [digits, same.1]
      exact List.mem_cons_self
    exact absurd (Nat.isDigit_of_mem_toDigits (by decide) (by decide) member) (by decide)
  next => rfl

theorem readNumber_int (number : Int) {letter : Char} (ends : EndsNumber letter) (rest : List Char) :
    readNumber (number.repr.toList ++ letter :: rest) = some ((number : ℚ), letter :: rest) := by
  cases number with
  | ofNat number => exact readNumber_nat number ends rest
  | negSucc number =>
    have written : (Int.negSucc number).repr.toList = '-' :: Nat.toDigits 10 (number + 1) := by
      rw [← Nat.toList_repr]
      exact String.toList_append
    rw [written, List.cons_append, readNumber, readUnsigned_toDigits (number + 1) ends rest]
    simp

theorem readNumber_head {text rest : List Char} {value : ℚ} (read : readNumber text = some (value, rest)) :
    ∃ letter tail, text = letter :: tail ∧ (letter.isDigit = true ∨ letter = '-') := by
  cases text with
  | nil => cases read
  | cons letter tail =>
    refine ⟨letter, tail, rfl, ?_⟩
    by_contra neither
    obtain ⟨notDigit, notMinus⟩ := not_or.mp neither
    have none : (letter :: tail).span Char.isDigit = ([], letter :: tail) :=
      @span_stops Char Char.isDigit [] letter tail (by simp) (by simpa using notDigit)
    unfold readNumber at read
    split at read
    next same =>
      cases same
      exact notMinus rfl
    next =>
      simp only [readUnsigned, none, true_or, if_true] at read
      cases read

/-! ## What a text is read as from its first letter on -/

theorem skipSpace_cons {letter : Char} (solid : isSpace letter = false) (text : List Char) :
    skipSpace (letter :: text) = letter :: text := by
  rw [skipSpace, List.dropWhile_cons_of_neg]
  simp [solid]

theorem skipSpace_cons_inj {letter first : Char} {text tail : List Char} (solid : isSpace letter = false)
    (token : skipSpace (letter :: text) = first :: tail) : letter = first ∧ text = tail := by
  rwa [skipSpace_cons solid, List.cons.injEq] at token

/-- What items and members have in common: the end of a list, or a comma and more of it. -/
def ReadsMore {α : Type} (close : Char) (Reads : List Char → List α → List Char → Prop) (text : List Char)
    (others : List α) (rest : List Char) : Prop :=
  (skipSpace text = close :: rest ∧ others = []) ∨ ∃ next, skipSpace text = ',' :: next ∧ Reads next others rest

section
variable {α : Type} {close : Char} {Reads : List Char → List α → List Char → Prop} {text rest : List Char}
  {others : List α}

theorem readsMore_stop (solid : isSpace close = false) (different : close ≠ ',') :
    ReadsMore close Reads (close :: text) others rest ↔ others = [] ∧ rest = text := by
  constructor
  · rintro (⟨token, rfl⟩ | ⟨next, token, _⟩)
    · exact ⟨rfl, (skipSpace_cons_inj solid token).2.symm⟩
    · exact absurd (skipSpace_cons_inj solid token).1 different
  · rintro ⟨rfl, rfl⟩
    exact .inl ⟨skipSpace_cons solid _, rfl⟩

theorem readsMore_more (different : close ≠ ',') :
    ReadsMore close Reads (',' :: text) others rest ↔ Reads text others rest := by
  constructor
  · rintro (⟨token, _⟩ | ⟨next, token, reads⟩)
    · exact absurd (skipSpace_cons_inj rfl token).1.symm different
    · exact (skipSpace_cons_inj rfl token).2 ▸ reads
  · intro reads
    exact .inr ⟨text, skipSpace_cons rfl _, reads⟩

end

def Opens : Json → Char → Prop
  | .null, letter => letter = 'n'
  | .bool true, letter => letter = 't'
  | .bool false, letter => letter = 'f'
  | .num _, letter => letter.isDigit = true ∨ letter = '-'
  | .str _, letter => letter = '"'
  | .arr _, letter => letter = '['
  | .obj _, letter => letter = '\x7b'

theorem ReadsValue.opens {text rest : List Char} {value : Json} (reads : ReadsValue text value rest) :
    ∃ letter tail, skipSpace text = letter :: tail ∧ Opens value letter := by
  cases reads with
  | null token => exact ⟨_, _, token, rfl⟩
  | true_ token => exact ⟨_, _, token, rfl⟩
  | false_ token => exact ⟨_, _, token, rfl⟩
  | number token => exact readNumber_head token
  | string token _ => exact ⟨_, _, token, rfl⟩
  | emptyArray token _ => exact ⟨_, _, token, rfl⟩
  | array token _ => exact ⟨_, _, token, rfl⟩
  | emptyObject token _ => exact ⟨_, _, token, rfl⟩
  | object token _ => exact ⟨_, _, token, rfl⟩

theorem ReadsValue.opens_cons {letter : Char} {text rest : List Char} {value : Json} (solid : isSpace letter = false)
    (reads : ReadsValue (letter :: text) value rest) : Opens value letter := by
  obtain ⟨first, tail, token, opens⟩ := reads.opens
  rw [skipSpace_cons solid] at token
  cases token
  exact opens

theorem Opens.ne_close {value : Json} : ¬ Opens value ']' := by
  cases value with
  | bool value => cases value <;> simp [Opens]
  | _ => simp [Opens]

theorem solid_of_number {letter : Char} (starts : letter.isDigit = true ∨ letter = '-') : isSpace letter = false := by
  by_contra space
  rw [Bool.not_eq_false] at space
  have spaces : letter ∈ [' ', '\t', '\n', '\r'] := by simpa [isSpace, or_assoc] using space
  have checked : [' ', '\t', '\n', '\r'].all (fun letter => ! letter.isDigit && letter != '-') = true := by decide
  have neither := List.all_eq_true.mp checked letter spaces
  rcases starts with digit | rfl
  · simp [digit] at neither
  · cases neither

section
variable {text rest : List Char} {value : Json}

theorem readsValue_string :
    ReadsValue ('"' :: text) value rest ↔
      ∃ content, readString text = some (content, rest) ∧ value = .str (String.ofList content) := by
  constructor
  · intro reads
    have opens := reads.opens_cons rfl
    cases reads with
    | string token read =>
      obtain ⟨_, rfl⟩ := skipSpace_cons_inj rfl token
      exact ⟨_, read, rfl⟩
    | _ => simp [Opens] at opens
  · rintro ⟨content, read, rfl⟩
    exact .string (skipSpace_cons rfl _) read

theorem readsValue_number {number : ℚ} {next : List Char} (read : readNumber text = some (number, next)) :
    ReadsValue text value rest ↔ value = .num number ∧ rest = next := by
  obtain ⟨letter, tail, rfl, starts⟩ := readNumber_head read
  have solid := solid_of_number starts
  constructor
  · intro reads
    have opens := reads.opens_cons solid
    cases reads with
    | number token =>
      rw [skipSpace_cons solid, read] at token
      cases token
      exact ⟨rfl, rfl⟩
    | _ =>
      cases opens
      exact absurd starts (by decide)
  · rintro ⟨rfl, rfl⟩
    exact .number (by rw [skipSpace_cons solid, read])

theorem readsValue_object :
    ReadsValue ('\x7b' :: '"' :: text) value rest ↔
      ∃ members, ReadsMembers ('"' :: text) members rest ∧ value = .obj members := by
  constructor
  · intro reads
    have opens := reads.opens_cons rfl
    cases reads with
    | object token read =>
      obtain ⟨_, rfl⟩ := skipSpace_cons_inj rfl token
      exact ⟨_, read, rfl⟩
    | emptyObject token close =>
      obtain ⟨_, rfl⟩ := skipSpace_cons_inj rfl token
      exact absurd (skipSpace_cons_inj rfl close).1 (by decide)
    | _ => simp [Opens] at opens
  · rintro ⟨members, read, rfl⟩
    exact .object (skipSpace_cons rfl _) read

theorem readsItems_iff {items : List Json} :
    ReadsItems text items rest ↔
      ∃ item next others, ReadsValue text item next ∧ ReadsMoreItems next others rest ∧ items = item :: others := by
  constructor
  · intro reads
    cases reads with
    | intro first others => exact ⟨_, _, _, first, others, rfl⟩
  · rintro ⟨item, next, others, first, more, rfl⟩
    exact .intro first more

theorem readsValue_array :
    ReadsValue ('[' :: '\x7b' :: text) value rest ↔
      ∃ items, ReadsItems ('\x7b' :: text) items rest ∧ value = .arr items := by
  constructor
  · intro reads
    have opens := reads.opens_cons rfl
    cases reads with
    | array token read =>
      obtain ⟨_, rfl⟩ := skipSpace_cons_inj rfl token
      exact ⟨_, read, rfl⟩
    | emptyArray token close =>
      obtain ⟨_, rfl⟩ := skipSpace_cons_inj rfl token
      exact absurd (skipSpace_cons_inj rfl close).1 (by decide)
    | _ => simp [Opens] at opens
  · rintro ⟨items, read, rfl⟩
    exact .array (skipSpace_cons rfl _) read

theorem readsValue_emptyArray :
    ReadsValue ('[' :: ']' :: text) value rest ↔ value = .arr [] ∧ rest = text := by
  constructor
  · intro reads
    have opens := reads.opens_cons rfl
    cases reads with
    | emptyArray token close =>
      obtain ⟨_, rfl⟩ := skipSpace_cons_inj rfl token
      exact ⟨rfl, (skipSpace_cons_inj rfl close).2.symm⟩
    | array token read =>
      -- no item begins with the closing bracket
      obtain ⟨_, rfl⟩ := skipSpace_cons_inj rfl token
      obtain ⟨item, next, others, first, _⟩ := readsItems_iff.mp read
      exact absurd (first.opens_cons rfl) Opens.ne_close
    | _ => simp [Opens] at opens
  · rintro ⟨rfl, rfl⟩
    exact .emptyArray (skipSpace_cons rfl _) (skipSpace_cons rfl _)

theorem readsMoreItems_iff {items : List Json} :
    ReadsMoreItems text items rest ↔ ReadsMore ']' ReadsItems text items rest := by
  constructor
  · intro reads
    cases reads with
    | stop token => exact .inl ⟨token, rfl⟩
    | more token others => exact .inr ⟨_, token, others⟩
  · rintro (⟨token, rfl⟩ | ⟨next, token, others⟩)
    · exact .stop token
    · exact .more token others

theorem readsMoreMembers_iff {members : List (String × Json)} :
    ReadsMoreMembers text members rest ↔ ReadsMore '\x7d' ReadsMembers text members rest := by
  constructor
  · intro reads
    cases reads with
    | stop token => exact .inl ⟨token, rfl⟩
    | more token others => exact .inr ⟨_, token, others⟩
  · rintro (⟨token, rfl⟩ | ⟨next, token, others⟩)
    · exact .stop token
    · exact .more token others

theorem readsMoreItems_stop {items : List Json} :
    ReadsMoreItems (']' :: text) items rest ↔ items = [] ∧ rest = text :=
  readsMoreItems_iff.trans (readsMore_stop rfl (by decide))

theorem readsMoreItems_more {items : List Json} :
    ReadsMoreItems (',' :: text) items rest ↔ ReadsItems text items rest :=
  readsMoreItems_iff.trans (readsMore_more (by decide))

theorem readsMoreMembers_stop {members : List (String × Json)} :
    ReadsMoreMembers ('\x7d' :: text) members rest ↔ members = [] ∧ rest = text :=
  readsMoreMembers_iff.trans (readsMore_stop rfl (by decide))

theorem readsMoreMembers_more {members : List (String × Json)} :
    ReadsMoreMembers (',' :: text) members rest ↔ ReadsMembers text members rest :=
  readsMoreMembers_iff.trans (readsMore_more (by decide))

theorem readsMembers_iff {name : List Char} (unescaped : Unescaped name) {members : List (String × Json)} :
    ReadsMembers ('"' :: (name ++ '"' :: ':' :: text)) members rest ↔
      ∃ value next others, ReadsValue text value next ∧ ReadsMoreMembers next others rest ∧
        members = (String.ofList name, value) :: others := by
  constructor
  · intro reads
    cases reads with
    | intro token read separator first others =>
      obtain ⟨_, rfl⟩ := skipSpace_cons_inj rfl token
      rw [readString_unescaped unescaped] at read
      cases read
      obtain ⟨_, rfl⟩ := skipSpace_cons_inj rfl separator
      exact ⟨_, _, _, first, others, rfl⟩
  · rintro ⟨value, next, others, first, more, rfl⟩
    exact .intro (skipSpace_cons rfl _) (readString_unescaped unescaped _) (skipSpace_cons rfl _)
      first more

theorem readsMembers_value {name valueText next : List Char} (unescaped : Unescaped name)
    (only : ∀ other left, ReadsValue valueText other left ↔ other = value ∧ left = next)
    {members : List (String × Json)} :
    ReadsMembers ('"' :: (name ++ '"' :: ':' :: valueText)) members rest ↔
      ∃ others, ReadsMoreMembers next others rest ∧ members = (String.ofList name, value) :: others := by
  rw [readsMembers_iff unescaped]
  constructor
  · rintro ⟨_, _, others, first, more, rfl⟩
    obtain ⟨rfl, rfl⟩ := (only _ _).mp first
    exact ⟨others, more, rfl⟩
  · rintro ⟨others, more, rfl⟩
    exact ⟨_, _, others, (only _ _).mpr ⟨rfl, rfl⟩, more, rfl⟩

theorem readsValue_unescaped {content : List Char} (unescaped : Unescaped content) :
    ReadsValue ('"' :: (content ++ '"' :: text)) value rest ↔ value = .str (String.ofList content) ∧ rest = text := by
  rw [readsValue_string, readString_unescaped unescaped]
  constructor
  · rintro ⟨_, same, rfl⟩
    cases same
    exact ⟨rfl, rfl⟩
  · rintro ⟨rfl, rfl⟩
    exact ⟨content, rfl, rfl⟩

theorem readsMembers_number {name : List Char} (unescaped : Unescaped name) (number : Nat)
    {members : List (String × Json)} :
    ReadsMembers ('"' :: (name ++ '"' :: ':' :: (number.repr.toList ++ ',' :: text))) members rest ↔
      ∃ others, ReadsMembers text others rest ∧ members = (String.ofList name, .num number) :: others := by
  rw [readsMembers_value unescaped fun _ _ => readsValue_number (readNumber_nat number comma_endsNumber text)]
  simp only [readsMoreMembers_more]

theorem readsMembers_string {name content : List Char} (unescaped : Unescaped name) (plain : Unescaped content)
    {members : List (String × Json)} :
    ReadsMembers ('"' :: (name ++ '"' :: ':' :: '"' :: (content ++ '"' :: ',' :: text))) members rest ↔
      ∃ others, ReadsMembers text others rest ∧
        members = (String.ofList name, .str (String.ofList content)) :: others := by
  rw [readsMembers_value unescaped fun _ _ => readsValue_unescaped plain]
  simp only [readsMoreMembers_more]

theorem readsMembers_last {name : List Char} (unescaped : Unescaped name) (number : Int)
    {members : List (String × Json)} :
    ReadsMembers ('"' :: (name ++ '"' :: ':' :: (number.repr.toList ++ '\x7d' :: text))) members rest ↔
      members = [(String.ofList name, .num number)] ∧ rest = text := by
  rw [readsMembers_value unescaped fun _ _ => readsValue_number (readNumber_int number brace_endsNumber text)]
  simp only [readsMoreMembers_stop]
  constructor
  · rintro ⟨_, ⟨rfl, rfl⟩, rfl⟩
    exact ⟨rfl, rfl⟩
  · rintro ⟨rfl, rfl⟩
    exact ⟨[], ⟨rfl, rfl⟩, rfl⟩

end

end Nendi.Lib
