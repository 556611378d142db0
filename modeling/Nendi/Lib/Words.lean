import Nendi.Lib.Delimited
import Nendi.Lib.Text

/-! # Keywords among words

A keyword with its separator, as in `find("COLUMN ")`, is found behind every word that ends
in the keyword, and nowhere else (`findBytes_word`).  The text from the end of a match on is
`dropBytes_append`, its first word `firstWord_append`. -/

namespace Nendi.Lib

variable {separator : Char} {key word : List Char}

theorem keyword_prefix_iff (clearKey : separator ∉ key) (clearWord : separator ∉ word) (rest : List Char) :
    key ++ [separator] <+: word ++ separator :: rest ↔ key = word := by
  constructor
  · rintro ⟨more, same⟩
    rw [List.append_assoc, List.singleton_append] at same
    exact (split_first_unique clearKey clearWord same).1
  · rintro rfl
    exact ⟨rest, by simp⟩

theorem utf8Length_le_of_suffix (suffix : key <:+ word) : utf8Length key ≤ utf8Length word := by
  obtain ⟨front, rfl⟩ := suffix
  rw [utf8Length_append]
  omega

theorem findBytes_word (clearKey : separator ∉ key) (clearWord : separator ∉ word) (rest : List Char) :
    findBytes (key ++ [separator]) (word ++ separator :: rest) =
      if key <:+ word then some (utf8Length word - utf8Length key)
      else (findBytes (key ++ [separator]) rest).map (utf8Length word + separator.utf8Size + ·) := by
  induction word with
  | nil =>
    have atSeparator := keyword_prefix_iff clearKey List.not_mem_nil rest
    rw [List.nil_append] at atSeparator ⊢
    rw [findBytes]
    simp only [atSeparator, List.suffix_nil]
    split
    next empty => simp [empty]
    next => simp
  | cons letter word inductionHypothesis =>
    have atLetter := keyword_prefix_iff clearKey clearWord rest
    rw [List.cons_append] at atLetter ⊢
    rw [findBytes, inductionHypothesis fun member => clearWord (List.mem_cons_of_mem _ member)]
    simp only [atLetter, List.suffix_cons_iff]
    by_cases whole : key = letter :: word
    · simp [whole]
    · by_cases suffix : key <:+ word
      · have shorter := utf8Length_le_of_suffix suffix
        simp only [whole, suffix, or_true, if_true, if_false, Option.map_some, utf8Length_cons, Option.some.injEq]
        omega
      · simp only [whole, suffix, or_false, if_false, Option.map_map, utf8Length_cons]
        congr 1
        funext pos
        simp only [Function.comp_apply]
        omega

theorem dropBytes_append (front rest : List Char) : dropBytes (utf8Length front) (front ++ rest) = some rest := by
  induction front with
  | nil => simp [dropBytes]
  | cons letter front inductionHypothesis =>
    have positive := letter.utf8Size_pos
    obtain ⟨count, length⟩ : ∃ count, letter.utf8Size + utf8Length front = count + 1 :=
      Nat.exists_eq_succ_of_ne_zero (by omega)
    rw [utf8Length_cons, length, List.cons_append, dropBytes, if_pos (by omega), ← length, Nat.add_sub_cancel_left]
    exact inductionHypothesis

theorem firstWord_append (nonempty : word ≠ []) (solid : ∀ letter ∈ word, isWhitespace letter = false)
    {rest : List Char} (ends : ∀ letter ∈ rest.head?, isWhitespace letter = true) :
    firstWord (word ++ rest) = some word := by
  obtain ⟨first, more, rfl⟩ := List.exists_cons_of_ne_nil nonempty
  have starts : (first :: more ++ rest).dropWhile isWhitespace = first :: more ++ rest := by
    rw [List.cons_append, List.dropWhile_cons_of_neg]
    simp [solid first List.mem_cons_self]
  have stops : rest.takeWhile (! isWhitespace ·) = [] := by
    cases rest with
    | nil => rfl
    | cons letter rest => simp [ends letter rfl]
  rw [firstWord, starts, List.takeWhile_append_of_pos (by simpa using solid), stops, List.append_nil]

end Nendi.Lib
