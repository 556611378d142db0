import Mathlib.Data.List.Induction

/-! # Delimited entries

A list of entries of two fields, written one after the other: a bar before each
entry and a colon between its fields.  `delimited_injective_iff` says over which
alphabets of the two fields the writing can be taken apart in only one way.
-/

namespace Nendi.Lib

variable {α : Type} {bar colon : α} {inKeys inValues : α → Prop}

def delimited (bar colon : α) (entries : List (List α × List α)) : List α :=
  entries.flatMap fun (key, value) => bar :: (key ++ colon :: value)

def WrittenIn (inKeys inValues : α → Prop) (entries : List (List α × List α)) : Prop :=
  ∀ entry ∈ entries, (∀ letter ∈ entry.1, inKeys letter) ∧ ∀ letter ∈ entry.2, inValues letter

theorem delimited_cons (key value : List α) (entries : List (List α × List α)) :
    delimited bar colon ((key, value) :: entries) =
      bar :: (key ++ colon :: (value ++ delimited bar colon entries)) := by
  simp [delimited]

theorem delimited_concat (entries : List (List α × List α)) (key value : List α) :
    delimited bar colon (entries ++ [(key, value)]) =
      (delimited bar colon entries ++ bar :: key) ++ colon :: value := by
  simp [delimited]

theorem delimited_eq_nil_iff (entries : List (List α × List α)) :
    delimited bar colon entries = [] ↔ entries = [] := by
  cases entries with
  | nil => simp [delimited]
  | cons entry entries => simp [delimited]

/-! ## Splitting at a mark -/

theorem split_first_unique {mark : α} {front back front' back' : List α} (clear : mark ∉ front)
    (clear' : mark ∉ front') (same : front ++ mark :: back = front' ++ mark :: back') :
    front = front' ∧ back = back' := by
  rcases List.append_eq_append_iff.mp same with ⟨extra, rfl, rest⟩ | ⟨extra, rfl, rest⟩
  · cases extra with
    | nil => simpa using rest
    | cons letter extra =>
      obtain ⟨rfl, -⟩ := List.cons.inj rest
      simp at clear'
  · cases extra with
    | nil => simpa [eq_comm] using rest
    | cons letter extra =>
      obtain ⟨rfl, -⟩ := List.cons.inj rest
      simp at clear

theorem split_last_unique {mark : α} {front back front' back' : List α} (clear : mark ∉ back)
    (clear' : mark ∉ back') (same : front ++ mark :: back = front' ++ mark :: back') :
    front = front' ∧ back = back' := by
  have reversed := congrArg List.reverse same
  simp only [List.reverse_append, List.reverse_cons, List.append_assoc, List.singleton_append] at reversed
  have parts := split_first_unique (by simpa using clear) (by simpa using clear') reversed
  simpa [and_comm] using parts

theorem value_unique {value value' : List α} {entries entries' : List (List α × List α)}
    (clear : bar ∉ value) (clear' : bar ∉ value')
    (same : value ++ delimited bar colon entries = value' ++ delimited bar colon entries') :
    value = value' ∧ delimited bar colon entries = delimited bar colon entries' := by
  -- a field without the bar ends where the next entry begins
  -- with a bar behind it, what follows a field always begins with one
  have barNext : ∀ entries, ∃ rest, delimited bar colon entries ++ [bar] = bar :: rest := by
    intro entries
    cases entries with
    | nil => exact ⟨[], rfl⟩
    | cons entry entries => exact ⟨_, rfl⟩
  obtain ⟨rest, written⟩ := barNext entries
  obtain ⟨rest', written'⟩ := barNext entries'
  have closed := congrArg (· ++ [bar]) same
  simp only [List.append_assoc, written, written'] at closed
  obtain ⟨rfl, -⟩ := split_first_unique clear clear' closed
  exact ⟨rfl, List.append_cancel_left same⟩

/-! ## Reading back -/

theorem delimited_injective_of_front (noColon : ¬ inKeys colon) (noBar : ¬ inValues bar)
    {first second : List (List α × List α)} (firstWritten : WrittenIn inKeys inValues first)
    (secondWritten : WrittenIn inKeys inValues second)
    (same : delimited bar colon first = delimited bar colon second) : first = second := by
  -- from the front: keys without colons end at the first colon, values without bars at the next bar
  induction first generalizing second with
  | nil => exact ((delimited_eq_nil_iff second).mp same.symm).symm
  | cons entry first inductionHypothesis =>
    cases second with
    | nil => exact (delimited_eq_nil_iff _).mp same
    | cons entry' second =>
      obtain ⟨key, value⟩ := entry
      obtain ⟨key', value'⟩ := entry'
      rw [WrittenIn, List.forall_mem_cons] at firstWritten secondWritten
      rw [delimited_cons, delimited_cons, List.cons.injEq] at same
      -- the first colon ends the key, and the next bar ends the value
      obtain ⟨rfl, afterKey⟩ := split_first_unique (fun member => noColon (firstWritten.1.1 _ member))
        (fun member => noColon (secondWritten.1.1 _ member)) same.2
      obtain ⟨rfl, rest⟩ := value_unique (fun member => noBar (firstWritten.1.2 _ member))
        (fun member => noBar (secondWritten.1.2 _ member)) afterKey
      rw [inductionHypothesis firstWritten.2 secondWritten.2 rest]

theorem delimited_injective_of_back (noColon : ¬ inValues colon) (noBar : ¬ inKeys bar)
    {first second : List (List α × List α)} (firstWritten : WrittenIn inKeys inValues first)
    (secondWritten : WrittenIn inKeys inValues second)
    (same : delimited bar colon first = delimited bar colon second) : first = second := by
  -- from the back: values without colons begin behind the last colon, keys without bars behind the
  -- last bar before it
  induction first using List.reverseRecOn generalizing second with
  | nil => exact ((delimited_eq_nil_iff second).mp same.symm).symm
  | append_singleton first entry inductionHypothesis =>
    cases second using List.reverseRecOn with
    | nil => exact (delimited_eq_nil_iff _).mp same
    | append_singleton second entry' =>
      obtain ⟨key, value⟩ := entry
      obtain ⟨key', value'⟩ := entry'
      simp only [WrittenIn, List.forall_mem_append, List.forall_mem_singleton] at firstWritten secondWritten
      rw [delimited_concat, delimited_concat] at same
      -- the last colon begins the value, and the last bar before it begins the key
      obtain ⟨beforeColon, rfl⟩ := split_last_unique (fun member => noColon (firstWritten.2.2 _ member))
        (fun member => noColon (secondWritten.2.2 _ member)) same
      obtain ⟨rest, rfl⟩ := split_last_unique (fun member => noBar (firstWritten.2.1 _ member))
        (fun member => noBar (secondWritten.2.1 _ member)) beforeColon
      rw [inductionHypothesis firstWritten.1 secondWritten.1 rest]

/-- Entries are read back from either end, or not at all. -/
theorem delimited_injective_iff (bar colon : α) (inKeys inValues : α → Prop) :
    (∀ first second, WrittenIn inKeys inValues first → WrittenIn inKeys inValues second →
      delimited bar colon first = delimited bar colon second → first = second) ↔
      (¬ inValues colon ∧ ¬ inKeys bar) ∨ (¬ inKeys colon ∧ ¬ inValues bar) := by
  constructor
  · intro injective
    by_contra ambiguous
    rw [not_or, not_and_or, not_and_or, not_not, not_not, not_not, not_not] at ambiguous
    obtain ⟨colonValue | barKey, colonKey | barValue⟩ := ambiguous
    · -- a colon of the key or of the value
      have same := injective [([colon], [])] [([], [colon])] (by simp [WrittenIn, colonKey])
        (by simp [WrittenIn, colonValue]) rfl
      simp at same
    · -- a value that spells a second entry
      have same := injective [([], [bar, colon])] [([], []), ([], [])]
        (by simp [WrittenIn, colonValue, barValue]) (by simp [WrittenIn]) rfl
      simp at same
    · -- a key that spells a first entry
      have same := injective [([colon, bar], [])] [([], []), ([], [])]
        (by simp [WrittenIn, colonKey, barKey]) (by simp [WrittenIn]) rfl
      simp at same
    · -- a bar of the value or of the next key
      have same := injective [([], [bar]), ([], [])] [([], []), ([bar], [])]
        (by simp [WrittenIn, barValue]) (by simp [WrittenIn, barKey]) rfl
      simp at same
  · rintro (⟨noColon, noBar⟩ | ⟨noColon, noBar⟩) first second firstWritten secondWritten same
    · exact delimited_injective_of_back noColon noBar firstWritten secondWritten same
    · exact delimited_injective_of_front noColon noBar firstWritten secondWritten same

end Nendi.Lib
