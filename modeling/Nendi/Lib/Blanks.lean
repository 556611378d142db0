import Nendi.Lib.Text

/-! # Pieces of text and the blanks between them

What `trim`, `splitOn` and `splitAround` leave of a text, and where a pattern without blanks
can stand in a text that is put together with blanks. -/

namespace Nendi.Lib

/-! ## Trimmed texts -/

theorem trim_eq_self_iff (text : List Char) : trim text = text ↔
    (∀ first ∈ text.head?, isWhitespace first = false) ∧ ∀ last ∈ text.getLast?, isWhitespace last = false := by
  cases text with
  | nil => simp [trim]
  | cons first rest =>
    have atFront : (first :: rest).dropWhile isWhitespace = first :: rest ↔ isWhitespace first = false := by
      rw [List.dropWhile_eq_self_iff]
      simp
    have atBack : (first :: rest).rdropWhile isWhitespace = first :: rest ↔
        isWhitespace ((first :: rest).getLast (List.cons_ne_nil _ _)) = false := by
      rw [List.rdropWhile_eq_self_iff]
      simp
    rw [List.head?_cons, List.getLast?_eq_getLast_of_ne_nil (List.cons_ne_nil _ _)]
    simp only [Option.mem_some_iff, forall_eq', ← atFront, ← atBack]
    constructor
    · intro trimmed
      have whole : (first :: rest).dropWhile isWhitespace = first :: rest := by
        apply (List.dropWhile_suffix _).eq_of_length_le
        have shorter := (List.rdropWhile_prefix isWhitespace ((first :: rest).dropWhile isWhitespace)).length_le
        rwa [← trim, trimmed] at shorter
      rw [trim, whole] at trimmed
      exact ⟨whole, trimmed⟩
    · intro ends
      rw [trim, ends.1, ends.2]

theorem trim_infixed (text : List Char) : trim text <:+: text :=
  (List.rdropWhile_prefix _ _).isInfix.trans (List.dropWhile_suffix _).isInfix

theorem head?_of_prefixed {front text : List Char} {first : Char} (begins : front <+: text)
    (isFirst : first ∈ front.head?) : text.head? = some first := by
  obtain ⟨rest, rfl⟩ := begins
  rw [Option.mem_def] at isFirst
  simp [isFirst]

theorem trim_trim (text : List Char) : trim (trim text) = trim text := by
  rw [trim_eq_self_iff]
  constructor
  · intro first isFirst
    have isHead := head?_of_prefixed (List.rdropWhile_prefix isWhitespace (text.dropWhile isWhitespace)) isFirst
    have stops := List.head?_dropWhile_not isWhitespace text
    rw [isHead] at stops
    simpa using stops
  · intro last isLast
    have nonempty : trim text ≠ [] := by
      intro empty
      simp [empty] at isLast
    have kept := List.rdropWhile_last_not isWhitespace _ nonempty
    rw [Option.mem_def, List.getLast?_eq_getLast_of_ne_nil nonempty, Option.some.injEq] at isLast
    rw [← isLast]
    exact Bool.eq_false_iff.mpr kept

theorem trim_prefixed {front text : List Char} (trimmed : trim text = text) (begins : front <+: text) :
    trim front <+: text := by
  cases front with
  | nil => exact List.nil_prefix
  | cons first rest =>
    have notBlank := ((trim_eq_self_iff text).mp trimmed).1 first (head?_of_prefixed begins rfl)
    have kept : (first :: rest).dropWhile isWhitespace = first :: rest := by simp [notBlank]
    rw [trim, kept]
    exact (List.rdropWhile_prefix _ _).trans begins

theorem trim_eq_self_of_solid {text : List Char} (solid : ∀ letter ∈ text, isWhitespace letter = false) :
    trim text = text := by
  rw [trim_eq_self_iff]
  exact ⟨fun first isFirst => solid first (List.mem_of_mem_head? isFirst),
    fun last isLast => solid last (List.mem_of_mem_getLast? isLast)⟩

/-! ## Parts between separators -/

theorem forall_mem_intercalate {Holds : Char → Prop} {separator : List Char} (between : ∀ letter ∈ separator, Holds letter)
    (parts : List (List Char)) (inside : ∀ part ∈ parts, ∀ letter ∈ part, Holds letter) :
    ∀ letter ∈ separator.intercalate parts, Holds letter := by
  induction parts with
  | nil => simp
  | cons part parts inductionHypothesis =>
    rw [List.forall_mem_cons] at inside
    cases parts with
    | nil => simpa using inside.1
    | cons other parts =>
      intro letter member
      rw [List.intercalate_cons_cons, List.mem_append, List.mem_append] at member
      rcases member with (inPart | inSeparator) | behind
      · exact inside.1 letter inPart
      · exact between letter inSeparator
      · exact inductionHypothesis inside.2 letter behind

theorem not_mem_of_mem_splitOn {separator : Char} {text part : List Char} (member : part ∈ text.splitOn separator) :
    separator ∉ part := by
  induction text generalizing part with
  | nil =>
    rw [List.splitOn_nil, List.mem_singleton] at member
    rw [member]
    exact List.not_mem_nil
  | cons letter text inductionHypothesis =>
    rw [List.splitOn_cons_eq_if_modifyHead] at member
    split at member
    next isSeparator =>
      rcases List.mem_cons.mp member with rfl | behind
      · exact List.not_mem_nil
      · exact inductionHypothesis behind
    next different =>
      cases parts : text.splitOn separator with
      | nil => exact absurd parts (List.splitOn_ne_nil _ _)
      | cons first others =>
        rw [parts] at inductionHypothesis
        rw [parts, List.modifyHead_cons, List.mem_cons] at member
        rcases member with rfl | behind
        · simp only [List.mem_cons, not_or]
          exact ⟨fun same => different (by simp [same]), inductionHypothesis List.mem_cons_self⟩
        · exact inductionHypothesis (List.mem_cons_of_mem _ behind)

theorem splitAround_eq_some {pattern text before after : List Char} (nonempty : pattern ≠ [])
    (found : splitAround pattern text = some (before, after)) :
    text = before ++ (pattern ++ after) ∧ ¬ pattern <:+: before := by
  induction text generalizing before with
  | nil => simp [splitAround, nonempty] at found
  | cons letter rest inductionHypothesis =>
    rw [splitAround] at found
    split at found
    next isMatch =>
      cases found
      obtain ⟨behind, whole⟩ := isMatch
      refine ⟨?_, by simpa using nonempty⟩
      rw [← whole, List.drop_left, List.nil_append]
    next noMatch =>
      obtain ⟨⟨front, back⟩, later, same⟩ := Option.map_eq_some_iff.mp found
      cases same
      obtain ⟨rfl, absent⟩ := inductionHypothesis later
      refine ⟨rfl, ?_⟩
      rw [List.infix_cons_iff, not_or]
      refine ⟨?_, absent⟩
      intro isMatch
      exact noMatch (isMatch.trans (List.prefix_append (letter :: front) _))

/-! ## Patterns without blanks -/

section Blanks

variable {pattern : List Char}

theorem prefix_append_blank (noBlank : ' ' ∉ pattern) (front back : List Char)
    (begins : pattern <+: front ++ ' ' :: back) : pattern <+: front := by
  induction front generalizing pattern with
  | nil =>
    cases pattern with
    | nil => exact List.nil_prefix
    | cons letter pattern =>
      have same := (List.cons_prefix_cons.mp begins).1
      simp [same] at noBlank
  | cons letter front inductionHypothesis =>
    cases pattern with
    | nil => exact List.nil_prefix
    | cons first pattern =>
      obtain ⟨rfl, behind⟩ := List.cons_prefix_cons.mp begins
      rw [List.mem_cons, not_or] at noBlank
      exact List.cons_prefix_cons.mpr ⟨rfl, inductionHypothesis noBlank.2 behind⟩

theorem infix_append_blank_iff (noBlank : ' ' ∉ pattern) (front back : List Char) :
    pattern <:+: front ++ ' ' :: back ↔ pattern <:+: front ∨ pattern <:+: back := by
  constructor
  · intro inside
    induction front with
    | nil =>
      rcases List.infix_cons_iff.mp inside with begins | behind
      · exact .inl (prefix_append_blank noBlank [] back begins).isInfix
      · exact .inr behind
    | cons letter front inductionHypothesis =>
      rcases List.infix_cons_iff.mp inside with begins | behind
      · exact .inl (prefix_append_blank noBlank (letter :: front) back begins).isInfix
      · exact (inductionHypothesis behind).imp_left fun inFront => List.infix_cons inFront
  · rintro (inFront | inBack)
    · exact inFront.trans (List.prefix_append _ _).isInfix
    · exact inBack.trans ((List.suffix_cons _ _).trans (List.suffix_append _ _)).isInfix

theorem clear_append_blank {front : List Char} (noBlank : ' ' ∉ pattern) (absent : ¬ pattern <:+: front) :
    Clear pattern (front ++ [' ']) := by
  intro tail isTail nonempty
  rw [List.mem_tails] at isTail
  constructor
  · intro begins
    have inside := begins.isInfix.trans isTail.isInfix
    rcases (infix_append_blank_iff noBlank front []).mp inside with inFront | empty
    · exact absent inFront
    · rw [List.infix_nil.mp empty] at absent
      exact absent List.nil_infix
  · intro isStart
    -- every tail ends with the blank
    have last := isTail.getLast nonempty
    rw [List.getLast_append_singleton] at last
    exact noBlank (isStart.subset (last ▸ List.getLast_mem nonempty))

end Blanks

/-! ## Pieces with a blank behind or in front of them -/

/-- A blank separates a piece from the next one, if there is a piece. -/
def padRight (text : List Char) : List Char := if text = [] then [] else text ++ [' ']

def padLeft (text : List Char) : List Char := if text = [] then [] else ' ' :: text

theorem blank_singleton : Blank [' '] := by simp [Blank, isWhitespace]

theorem blank_nil : Blank [] := by simp [Blank]

theorem trim_padRight (text : List Char) : trim (padRight text) = trim text := by
  rw [padRight]
  split
  next empty => rw [empty]
  next => simpa using trim_pad blank_nil blank_singleton text

theorem trim_padLeft (text : List Char) : trim (padLeft text) = trim text := by
  rw [padLeft]
  split
  next empty => rw [empty]
  next => simpa using trim_pad blank_singleton blank_nil text

theorem clear_padRight {pattern text : List Char} (noBlank : ' ' ∉ pattern) (absent : ¬ pattern <:+: text) :
    Clear pattern (padRight text) := by
  rw [padRight]
  split
  next =>
    intro tail isTail nonempty
    exact absurd (List.eq_nil_of_suffix_nil ((List.mem_tails _ _).mp isTail)) nonempty
  next => exact clear_append_blank noBlank absent

theorem not_infix_padded {pattern front middle back : List Char} (noBlank : ' ' ∉ pattern)
    (inFront : ¬ pattern <:+: front) (inMiddle : ¬ pattern <:+: middle) (inBack : ¬ pattern <:+: back) :
    ¬ pattern <:+: padRight front ++ (middle ++ padLeft back) := by
  have behind : ¬ pattern <:+: middle ++ padLeft back := by
    rw [padLeft]
    split
    next => simpa using inMiddle
    next => simp [infix_append_blank_iff noBlank, inMiddle, inBack]
  rw [padRight]
  split
  next => exact behind
  next => simp [infix_append_blank_iff noBlank, inFront, behind]

theorem trim_padded_eq {front middle back : List Char} (trimmedFront : trim front = front)
    (trimmedMiddle : trim middle = middle) (nonempty : middle ≠ []) (trimmedBack : trim back = back) :
    trim (padRight front ++ (middle ++ padLeft back)) = padRight front ++ (middle ++ padLeft back) := by
  rw [trim_eq_self_iff] at trimmedFront trimmedMiddle trimmedBack ⊢
  obtain ⟨letter, rest, rfl⟩ := List.exists_cons_of_ne_nil nonempty
  constructor
  · intro first isFirst
    cases front with
    | nil => exact trimmedMiddle.1 first (by simpa [padRight] using isFirst)
    | cons other front => exact trimmedFront.1 first (by simpa [padRight] using isFirst)
  · intro last isLast
    cases back with
    | nil => exact trimmedMiddle.2 last (by simpa [padLeft] using isLast)
    | cons other back =>
      have split : padRight front ++ (letter :: rest ++ padLeft (other :: back)) =
          (padRight front ++ (letter :: rest) ++ [' ']) ++ (other :: back) := by simp [padLeft]
      rw [split, List.getLast?_append_of_ne_nil _ (List.cons_ne_nil _ _)] at isLast
      exact trimmedBack.2 last isLast

end Nendi.Lib
