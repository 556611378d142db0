import Mathlib.Data.Bool.AllAny
import Nendi.Lib.Blanks
import Nendi.Verified.FilterParsing
import Nendi.Verified.FilterRules

/-! # The rules that filter expressions can say

A rule of the ingestion filter is written as text, and not every rule has a text.  The rules
that have one are those whose predicates are `Writable`, and each of them is read back from
its normal form: one part for the operations, then the predicates with single blanks. -/

namespace Nendi.Verified

open Nendi.Lib Nendi.Shared Nendi.Core

/-! ## Writing a rule down -/

/-- The symbol of a comparison; the other operators have none. -/
def symbol (op : PredicateOp) : Option String :=
  (operators.find? fun entry => entry.2 = op).map Prod.fst

/-- The predicate has a symbol, and neither side has anything in it that the parser would
    take for something else. -/
structure Writable (pred : ColumnPredicate) (sym : String) : Prop where
  isOperator : (sym, pred.op) ∈ operators
  trimmedColumn : trim pred.column.toList = pred.column.toList
  trimmedValue : trim pred.value.toList = pred.value.toList
  column : ';' ∉ pred.column.toList
  value : ';' ∉ pred.value.toList
  notOps : ¬ "op:".toList <+: pred.column.toList
  first : ¬ sym.toList <:+: pred.column.toList
  earlier : ∀ entry ∈ searchedBefore pred.op,
    ¬ entry.1.toList <:+: pred.column.toList ∧ ¬ entry.1.toList <:+: pred.value.toList

def spelledPredicate (pred : ColumnPredicate) : List Char :=
  padRight pred.column.toList ++ (((symbol pred.op).getD "").toList ++ padLeft pred.value.toList)

def spelledOps (ops : List OpType) : List Char :=
  "op:".toList ++ [','].intercalate (ops.map fun op => op.asStr.toList)

def normalParts (rule : FilterRule) : List String :=
  (if rule.ops = [] then [] else [String.ofList (spelledOps rule.ops)]) ++
    rule.predicates.map fun pred => String.ofList (spelledPredicate pred)

def normalForm (rule : FilterRule) : String := ";".intercalate (normalParts rule)

/-! ## Reading it back -/

theorem symbol_eq {sym : String} {op : PredicateOp} (isOperator : (sym, op) ∈ operators) : symbol op = some sym := by
  have all : ∀ entry ∈ operators, symbol entry.2 = some entry.1 := by decide
  exact all (sym, op) isOperator

section Predicate

variable {pred : ColumnPredicate} {sym : String}

theorem operator_trimmed (isOperator : (sym, pred.op) ∈ operators) :
    ' ' ∉ sym.toList ∧ ';' ∉ sym.toList ∧ trim sym.toList = sym.toList ∧ sym.toList ≠ [] := by
  have all : ∀ entry ∈ operators, ' ' ∉ entry.1.toList ∧ ';' ∉ entry.1.toList ∧
      trim entry.1.toList = entry.1.toList ∧ entry.1.toList ≠ [] := by decide
  exact all (sym, pred.op) isOperator

theorem Writable.spelled_eq (writable : Writable pred sym) :
    spelledPredicate pred = padRight pred.column.toList ++ (sym.toList ++ padLeft pred.value.toList) := by
  rw [spelledPredicate, symbol_eq writable.isOperator, Option.getD_some]

theorem Writable.trim_spelled (writable : Writable pred sym) : trim (spelledPredicate pred) = spelledPredicate pred := by
  obtain ⟨_, _, trimmed, nonempty⟩ := operator_trimmed writable.isOperator
  rw [writable.spelled_eq]
  exact trim_padded_eq writable.trimmedColumn trimmed nonempty writable.trimmedValue

theorem Writable.readAt_eq (writable : Writable pred sym) :
    readAt (String.ofList (spelledPredicate pred)) (sym, pred.op) = some pred := by
  obtain ⟨noBlank, _, _, _⟩ := operator_trimmed writable.isOperator
  have clear := clear_padRight noBlank writable.first
  rw [readAt, String.toList_ofList, writable.spelled_eq, splitAround_clear clear, splitAround_prefix]
  simp [trim_padRight, trim_padLeft, writable.trimmedColumn, writable.trimmedValue]

theorem Writable.readAt_earlier (writable : Writable pred sym) {entry : String × PredicateOp}
    (isEarlier : entry ∈ searchedBefore pred.op) : readAt (String.ofList (spelledPredicate pred)) entry = none := by
  have all : ∀ operator ∈ operators, ∀ earlier ∈ searchedBefore operator.2,
      ' ' ∉ earlier.1.toList ∧ ¬ earlier.1.toList <:+: operator.1.toList := by decide
  obtain ⟨noBlank, notInOperator⟩ := all (sym, pred.op) writable.isOperator entry isEarlier
  obtain ⟨inColumn, inValue⟩ := writable.earlier entry isEarlier
  rw [readAt, String.toList_ofList, writable.spelled_eq, Option.map_eq_none_iff, splitAround_eq_none_iff]
  exact not_infix_padded noBlank inColumn notInOperator inValue

theorem Writable.parse_spelled (writable : Writable pred sym) :
    parsePredicate (String.ofList (spelledPredicate pred)) = some pred := by
  obtain ⟨later, split⟩ := operators_split writable.isOperator
  have nothing : (searchedBefore pred.op).findSome? (readAt (String.ofList (spelledPredicate pred))) = none :=
    List.findSome?_eq_none_iff.mpr fun entry isEarlier => writable.readAt_earlier isEarlier
  rw [parsePredicate_eq, split, List.findSome?_append, List.findSome?_cons, nothing, writable.readAt_eq]
  rfl

theorem Writable.not_ops (writable : Writable pred sym) : ¬ "op:".toList <+: spelledPredicate pred := by
  rw [writable.spelled_eq, padRight]
  split
  next =>
    have all : ∀ entry ∈ operators, ∀ back, ¬ "op:".toList <+: entry.1.toList ++ back := by simp [operators]
    exact all (sym, pred.op) writable.isOperator _
  next =>
    intro begins
    rw [List.append_assoc, List.singleton_append] at begins
    exact writable.notOps (prefix_append_blank (by decide) _ _ begins)

theorem Writable.part_eq (writable : Writable pred sym) :
    partOps (spelledPredicate pred) = [] ∧ partPredicate (spelledPredicate pred) = some pred := by
  have nonempty : spelledPredicate pred ≠ [] := by
    obtain ⟨_, _, _, nonempty⟩ := operator_trimmed writable.isOperator
    simp [writable.spelled_eq, nonempty]
  rw [partOps, partPredicate, writable.trim_spelled, if_neg writable.not_ops,
    if_neg (not_or.mpr ⟨nonempty, writable.not_ops⟩), writable.parse_spelled]
  exact ⟨rfl, rfl⟩

theorem Writable.no_separator (writable : Writable pred sym) : ';' ∉ spelledPredicate pred := by
  obtain ⟨_, inOperator, _, _⟩ := operator_trimmed writable.isOperator
  rw [writable.spelled_eq, padRight, padLeft]
  split <;> split <;> simp [inOperator, writable.column, writable.value]

end Predicate

theorem spelledOps_solid (ops : List OpType) :
    ∀ letter ∈ spelledOps ops, isWhitespace letter = false ∧ letter ≠ ';' := by
  have tags : ∀ op : OpType, ∀ letter ∈ op.asStr.toList, isWhitespace letter = false ∧ letter ≠ ';' := by
    intro op
    cases op <;> exact List.all_iff_forall_prop.mp (by decide)
  have comma : ∀ letter ∈ [','], isWhitespace letter = false ∧ letter ≠ ';' :=
    List.all_iff_forall_prop.mp (by decide)
  have keyword : ∀ letter ∈ "op:".toList, isWhitespace letter = false ∧ letter ≠ ';' :=
    List.all_iff_forall_prop.mp (by decide)
  have behind := forall_mem_intercalate comma (ops.map fun op => op.asStr.toList) (by simpa using fun op _ => tags op)
  intro letter member
  exact (List.mem_append.mp member).elim (keyword letter) (behind letter)

theorem parseOps_spelled {ops : List OpType} (nonempty : ops ≠ []) :
    parseOps ([','].intercalate (ops.map fun op => op.asStr.toList)) = ops := by
  have tags : ∀ op : OpType, ',' ∉ op.asStr.toList ∧ OpType.fromStrTag (String.ofList (trim op.asStr.toList)) = some op := by
    intro op
    cases op <;> decide
  have split : ([','].intercalate (ops.map fun op => op.asStr.toList)).splitOn ',' = ops.map fun op => op.asStr.toList := by
    refine List.splitOn_intercalate ',' ?_ (by simpa using nonempty)
    intro text member
    obtain ⟨op, _, rfl⟩ := List.mem_map.mp member
    exact (tags op).1
  rw [parseOps, split, List.filterMap_map]
  simp [tags]

theorem spelledOps_part {ops : List OpType} (nonempty : ops ≠ []) :
    partOps (spelledOps ops) = ops ∧ partPredicate (spelledOps ops) = none := by
  have trimmed := trim_eq_self_of_solid fun letter member => (spelledOps_solid ops letter member).1
  have isOps : "op:".toList <+: spelledOps ops := List.prefix_append _ _
  have behind : (spelledOps ops).drop 3 = [','].intercalate (ops.map fun op => op.asStr.toList) := rfl
  rw [partOps, partPredicate, trimmed, if_pos isOps, if_pos (.inr isOps), behind, parseOps_spelled nonempty]
  exact ⟨rfl, rfl⟩

theorem ruleOf_spelledPredicates {predicates : List ColumnPredicate}
    (writable : ∀ pred ∈ predicates, ∃ sym, Writable pred sym) :
    ruleOf (predicates.map fun pred => String.ofList (spelledPredicate pred)) = ⟨[], predicates⟩ := by
  induction predicates with
  | nil => rfl
  | cons pred predicates inductionHypothesis =>
    obtain ⟨⟨sym, first⟩, rest⟩ := List.forall_mem_cons.mp writable
    have later := inductionHypothesis rest
    simp only [ruleOf, FilterRule.mk.injEq] at later ⊢
    simp [first.part_eq, later]

theorem parse_normalForm {rule : FilterRule} (writable : ∀ pred ∈ rule.predicates, ∃ sym, Writable pred sym) :
    parseFilterExpr (normalForm rule) = some rule := by
  obtain ⟨ops, predicates⟩ := rule
  have spelled := ruleOf_spelledPredicates writable
  have separated : ∀ part ∈ normalParts ⟨ops, predicates⟩, ';' ∉ part.toList := by
    intro part member
    rcases List.mem_append.mp member with isOps | isPredicate
    · split at isOps
      · cases isOps
      · rw [List.mem_singleton.mp isOps, String.toList_ofList]
        exact fun inOps => (spelledOps_solid ops ';' inOps).2 rfl
    · obtain ⟨pred, listed, rfl⟩ := List.mem_map.mp isPredicate
      obtain ⟨sym, writable⟩ := writable pred listed
      rw [String.toList_ofList]
      exact writable.no_separator
  rw [normalForm, parse_joined separated]
  simp only [ruleOf, FilterRule.mk.injEq, normalParts] at spelled ⊢
  rw [List.flatMap_append, List.filterMap_append, spelled.1, spelled.2]
  by_cases none_ : ops = []
  · simp [none_]
  · simp [none_, spelledOps_part none_]

/-! ## What is read can be written -/

theorem takeWhile_prefixed {α : Type} {keep : α → Bool} {item : α} (stops : keep item = false) (front back : List α) :
    (front ++ item :: back).takeWhile keep <+: front := by
  induction front with
  | nil => simp [stops]
  | cons first front inductionHypothesis =>
    rw [List.cons_append, List.takeWhile_cons]
    split
    · exact List.cons_prefix_cons.mpr ⟨rfl, inductionHypothesis⟩
    · exact List.nil_prefix

theorem writable_of_part {part : List Char} {pred : ColumnPredicate} (plain : ';' ∉ part)
    (read : partPredicate part = some pred) : ∃ sym, Writable pred sym := by
  rw [partPredicate] at read
  split at read
  next => cases read
  next isPredicate =>
    rw [not_or] at isPredicate
    rw [parsePredicate_eq] at read
    obtain ⟨front, ⟨sym, op⟩, back, split, found, unfound⟩ := List.findSome?_eq_some_iff.mp read
    obtain ⟨⟨before, after⟩, around, rfl⟩ := Option.map_eq_some_iff.mp found
    have isOperator : (sym, op) ∈ operators := by simp [split]
    have nonempty : sym.toList ≠ [] := by
      have all : ∀ entry ∈ operators, entry.1.toList ≠ [] := by decide
      exact all (sym, op) isOperator
    rw [String.toList_ofList] at around
    obtain ⟨whole, first⟩ := splitAround_eq_some nonempty around
    have inBefore : trim before <:+: trim part :=
      (trim_infixed before).trans (by rw [whole]; exact (List.prefix_append _ _).isInfix)
    have inAfter : trim after <:+: trim part := by
      refine (trim_infixed after).trans ?_
      rw [whole]
      exact ((List.suffix_append _ _).trans (List.suffix_append _ _)).isInfix
    have inPart : ∀ {text : List Char}, text <:+: trim part → ';' ∉ text := fun inside member =>
      plain ((trim_infixed part).subset (inside.subset member))
    have begins : trim before <+: trim part :=
      trim_prefixed (trim_trim part) (by rw [whole]; exact List.prefix_append _ _)
    have column : (String.ofList (trim before)).toList = trim before := String.toList_ofList
    have value : (String.ofList (trim after)).toList = trim after := String.toList_ofList
    refine ⟨sym, ?_⟩
    constructor
    case isOperator => exact isOperator
    case trimmedColumn => rw [column, trim_trim]
    case trimmedValue => rw [value, trim_trim]
    case column => rw [column]; exact inPart inBefore
    case value => rw [value]; exact inPart inAfter
    case notOps => rw [column]; exact fun isOps => isPredicate.2 (isOps.trans begins)
    case first => rw [column]; exact fun inside => first (inside.trans (trim_infixed before))
    case earlier =>
      intro entry isEarlier
      have inFront : entry ∈ front := by
        rw [searchedBefore, split] at isEarlier
        exact (takeWhile_prefixed (by simp) front back).subset isEarlier
      have absent := unfound entry inFront
      rw [readAt, Option.map_eq_none_iff, splitAround_eq_none_iff, String.toList_ofList] at absent
      rw [column, value]
      exact ⟨fun inside => absent (inside.trans inBefore), fun inside => absent (inside.trans inAfter)⟩

/-- A rule is that of some expression exactly if its predicates can be written, and then
    its normal form is an expression for it. -/
theorem rule_expressible_iff (rule : FilterRule) :
    ((∃ expr, parseFilterExpr expr = some rule) ↔ ∀ pred ∈ rule.predicates, ∃ sym, Writable pred sym) ∧
      ((∃ expr, parseFilterExpr expr = some rule) ↔ parseFilterExpr (normalForm rule) = some rule) := by
  have written : (∃ expr, parseFilterExpr expr = some rule) → ∀ pred ∈ rule.predicates, ∃ sym, Writable pred sym := by
    rintro ⟨expr, parsed⟩ pred member
    rw [parseFilterExpr_eq] at parsed
    cases parsed
    obtain ⟨part, inExpr, read⟩ := List.mem_filterMap.mp member
    exact writable_of_part (not_mem_of_mem_splitOn inExpr) read
  exact ⟨⟨written, fun writable => ⟨_, parse_normalForm writable⟩⟩,
    ⟨fun parsed => parse_normalForm (written parsed), fun parsed => ⟨_, parsed⟩⟩⟩

example : normalForm ⟨[.insert, .update], [⟨"amount", .gte, "5"⟩, ⟨"", .eq, "x"⟩]⟩ =
    "op:insert,update;amount >= 5;== x" := by decide

end Nendi.Verified
