import Nendi.Core.Ingestion

/-! # How a predicate is read

The parser looks for one operator after the other in the whole text, so it takes the
first of its list that stands anywhere in it.  A value that contains an operator which
comes earlier in the list than the intended one is cut there. -/

namespace Nendi.Verified

open Nendi.Lib Nendi.Core

structure PlainColumn (column : String) : Prop where
  trimmed : trim column.toList = column.toList
  nonempty : column ≠ ""
  plain : ∀ letter ∈ ['=', '!', '<', '>'], letter ∉ column.toList

def writtenPredicate (column sym value : String) : String := s!"{column} {sym} {value}"

/-- The operators that the parser looks for before it looks for this one. -/
def searchedBefore (op : PredicateOp) : List (String × PredicateOp) :=
  operators.takeWhile fun entry => entry.2 ≠ op

variable {column sym value : String} {op : PredicateOp}

/-! ## Where operators stand in a written predicate -/

theorem writtenPredicate_toList (column sym value : String) :
    (writtenPredicate column sym value).toList =
      (column.toList ++ [' ']) ++ (sym.toList ++ ' ' :: value.toList) := by
  simp [writtenPredicate, toString]

theorem clear_column (isColumn : PlainColumn column) (isOperator : (sym, op) ∈ operators) :
    Clear sym.toList (column.toList ++ [' ']) := by
  -- operators begin with letters that a column name does not have
  have spelled : ∀ entry ∈ operators, ∃ first ∈ ['=', '!', '<', '>'], ∃ rest, entry.1.toList = first :: rest := by
    simp [operators]
  obtain ⟨first, isSymbol, rest, same⟩ := spelled (sym, op) isOperator
  have absent : first ∉ column.toList ++ [' '] := by
    rw [List.mem_append, not_or]
    refine ⟨isColumn.plain first isSymbol, ?_⟩
    intro blank
    rw [List.mem_singleton.mp blank] at isSymbol
    exact absurd isSymbol (by decide)
  rw [same]
  exact clear_of_not_mem absent

theorem clear_operator {earlier : String × PredicateOp} (isOperator : (sym, op) ∈ operators)
    (isEarlier : earlier ∈ searchedBefore op) : Clear earlier.1.toList (sym.toList ++ [' ']) := by
  -- an operator that is searched for earlier does not begin inside the written one
  have all : ∀ entry ∈ operators, ∀ earlier ∈ searchedBefore entry.2,
      Clear earlier.1.toList (entry.1.toList ++ [' ']) := by decide
  exact all (sym, op) isOperator earlier isEarlier

theorem earlier_found_iff {earlier : String × PredicateOp} (isColumn : PlainColumn column)
    (isOperator : (sym, op) ∈ operators) (isEarlier : earlier ∈ searchedBefore op) :
    splitAround earlier.1.toList (writtenPredicate column sym value).toList = none ↔
      ¬ earlier.1.toList <:+: value.toList := by
  have listed : earlier ∈ operators := (List.takeWhile_sublist _).subset isEarlier
  have split : sym.toList ++ ' ' :: value.toList = sym.toList ++ [' '] ++ value.toList := by simp
  rw [writtenPredicate_toList, splitAround_clear (clear_column isColumn listed), split,
    splitAround_clear (clear_operator isOperator isEarlier), Option.map_map, Option.map_eq_none_iff,
    splitAround_eq_none_iff]

theorem operator_found (isColumn : PlainColumn column) (isOperator : (sym, op) ∈ operators) :
    splitAround sym.toList (writtenPredicate column sym value).toList =
      some (column.toList ++ [' '], ' ' :: value.toList) := by
  rw [writtenPredicate_toList, splitAround_clear (clear_column isColumn isOperator), splitAround_prefix]
  simp

/-! ## What is read -/

/-- What the parser makes of an operator that it finds. -/
def readAt (expr : String) (entry : String × PredicateOp) : Option ColumnPredicate :=
  (splitAround entry.1.toList expr.toList).map fun parts =>
    ⟨String.ofList (trim parts.1), entry.2, String.ofList (trim parts.2)⟩

theorem parsePredicate_eq (expr : String) : parsePredicate expr = operators.findSome? (readAt expr) := rfl

theorem readAt_operator (isColumn : PlainColumn column) (isOperator : (sym, op) ∈ operators)
    (trimmed : trim value.toList = value.toList) :
    readAt (writtenPredicate column sym value) (sym, op) = some ⟨column, op, value⟩ := by
  have blank : Blank [' '] := by simp [Blank, isWhitespace]
  have nothing : Blank [] := by simp [Blank]
  have before : trim (column.toList ++ [' ']) = column.toList := by
    have padded := trim_pad nothing blank column.toList
    rwa [List.nil_append, isColumn.trimmed] at padded
  have after : trim (' ' :: value.toList) = value.toList := by
    have padded := trim_pad blank nothing value.toList
    rwa [List.append_nil, List.singleton_append, trimmed] at padded
  rw [readAt, operator_found isColumn isOperator]
  simp [before, after]

theorem operators_split (isOperator : (sym, op) ∈ operators) :
    ∃ later, operators = searchedBefore op ++ (sym, op) :: later := by
  -- the parser comes to an operator once it has looked for those in front of it
  have all : ∀ entry ∈ operators, (searchedBefore entry.2 ++ [entry]) <+: operators := by decide
  obtain ⟨later, whole⟩ := all (sym, op) isOperator
  exact ⟨later, by simpa using whole.symm⟩

/-- A predicate is read back exactly if its value has no operator in it that is searched
    for before its own. -/
theorem parsePredicate_written_iff (column sym value : String) (op : PredicateOp)
    (isColumn : PlainColumn column) (isOperator : (sym, op) ∈ operators)
    (trimmed : trim value.toList = value.toList) :
    parsePredicate (writtenPredicate column sym value) = some ⟨column, op, value⟩ ↔
      ∀ earlier ∈ searchedBefore op, ¬ earlier.1.toList <:+: value.toList := by
  obtain ⟨later, split⟩ := operators_split isOperator
  rw [parsePredicate_eq, split, List.findSome?_append, List.findSome?_cons,
    readAt_operator isColumn isOperator trimmed]
  have unread : ∀ earlier ∈ searchedBefore op,
      (readAt (writtenPredicate column sym value) earlier = none ↔
        ¬ earlier.1.toList <:+: value.toList) := by
    intro earlier isEarlier
    rw [readAt, Option.map_eq_none_iff, earlier_found_iff isColumn isOperator isEarlier]
  cases found : (searchedBefore op).findSome? (readAt (writtenPredicate column sym value)) with
  | none =>
    rw [List.findSome?_eq_none_iff] at found
    refine ⟨fun _ earlier isEarlier => ?_, fun _ => rfl⟩
    exact (unread earlier isEarlier).mp (found earlier isEarlier)
  | some pred =>
    -- what was found has an operator from the front of the list
    obtain ⟨earlier, isEarlier, read⟩ := List.exists_of_findSome?_eq_some found
    have different : earlier.2 ≠ op := by
      have kept := List.mem_takeWhile_imp isEarlier
      simpa using kept
    have sameOp : pred.op = earlier.2 := by
      obtain ⟨parts, _, rfl⟩ := Option.map_eq_some_iff.mp read
      rfl
    constructor
    · intro same
      cases same
      exact absurd sameOp.symm different
    · intro absent
      rw [(unread earlier isEarlier).mpr (absent earlier isEarlier)] at read
      cases read

/-- A value with `!=` in it. -/
theorem value_cut_at_operator :
    parsePredicate (writtenPredicate "note" "==" "a!=b") = some ⟨"note == a", .neq, "b"⟩ := by
  decide

theorem parsePredicate_written_status :
    parsePredicate (writtenPredicate "status" "==" "done > paid") = some ⟨"status", .eq, "done > paid"⟩ :=
  (parsePredicate_written_iff "status" "==" "done > paid" .eq ⟨by decide, by decide, by simp⟩
    (by decide) (by decide)).mpr (by decide)

end Nendi.Verified
