import Mathlib.Data.List.AList
import Nendi.Lib.BigEndian
import Nendi.Shared.Event

/-! # Filters in front of the store

`IngestionFilter` of `core/src/pipeline/ingestion.rs`, with its rules and their parser.
Strings are compared by their bytes.  Of the configuration only the filters are read. -/

namespace Nendi.Core

open Nendi.Lib Nendi.Shared

inductive PredicateOp where
  | eq
  | neq
  | gt
  | lt
  | gte
  | lte
  | contains
  | startsWith
  | isNull
  | isNotNull
deriving DecidableEq, Repr

structure ColumnPredicate where
  column : String
  op : PredicateOp
  value : String
deriving DecidableEq, Repr

/-- No operations means all of them; of the predicates each must hold. -/
structure FilterRule where
  ops : List OpType
  predicates : List ColumnPredicate
deriving DecidableEq, Repr

structure PipelineConfig where
  filters : AList fun _ : String => String

structure IngestionFilter where
  filters : AList fun _ : String => FilterRule

/-! ## Evaluation -/

def evaluatePredicate (actual : Option String) (op : PredicateOp) (expected : String) : Bool :=
  match op with
  | .isNull => actual.isNone
  | .isNotNull => actual.isSome
  | _ =>
    match actual with
    | none => false
    | some actual =>
      match op with
      | .eq => actual == expected
      | .neq => actual != expected
      | .gt => decide (utf8Bytes expected < utf8Bytes actual)
      | .lt => decide (utf8Bytes actual < utf8Bytes expected)
      | .gte => decide (utf8Bytes expected ≤ utf8Bytes actual)
      | .lte => decide (utf8Bytes actual ≤ utf8Bytes expected)
      | .contains => decide (expected.toList <:+: actual.toList)
      | .startsWith => decide (expected.toList <+: actual.toList)
      | _ => true

/-- What is left of `accept` once the rule is found. -/
def FilterRule.accept (rule : FilterRule) (event : ChangeEvent) : Bool :=
  if rule.ops ≠ [] ∧ event.op ∉ rule.ops then false
  else
    match event.after with
    | some row =>
      rule.predicates.all fun pred => evaluatePredicate (row.getText pred.column) pred.op pred.value
    -- without a new row there is nothing to look at
    | none => true

theorem FilterRule.accept_iff (rule : FilterRule) (event : ChangeEvent) :
    rule.accept event = true ↔ (rule.ops = [] ∨ event.op ∈ rule.ops) ∧
      ∀ row, event.after = some row → ∀ pred ∈ rule.predicates,
        evaluatePredicate (row.getText pred.column) pred.op pred.value = true := by
  rw [accept]
  by_cases listed : rule.ops = [] ∨ event.op ∈ rule.ops
  · rw [if_neg (by tauto)]
    cases event.after with
    | none => simp [listed]
    | some row => simp [listed]
  · rw [if_pos (by tauto)]
    simp [listed]

/-! ## Parsing -/

/-- In the order in which they are searched for. -/
def operators : List (String × PredicateOp) :=
  [("!=", .neq), (">=", .gte), ("<=", .lte), ("==", .eq), (">", .gt), ("<", .lt)]

def parsePredicate (expr : String) : Option ColumnPredicate :=
  operators.findSome? fun (sym, op) =>
    (splitAround sym.toList expr.toList).map fun (before, after) =>
      { column := String.ofList (trim before), op, value := String.ofList (trim after) }

/-- The operations in the text behind `op:`; names that are not known are dropped. -/
def parseOps (names : List Char) : List OpType :=
  (names.splitOn ',').filterMap fun name => OpType.fromStrTag (String.ofList (trim name))

/-- One round of the loop of `parse_filter_expr`. -/
def parsePart (rule : FilterRule) (part : List Char) : FilterRule :=
  let part := trim part
  if part = [] then rule
  else if "op:".toList <+: part then { rule with ops := rule.ops ++ parseOps (part.drop 3) }
  else
    match parsePredicate (String.ofList part) with
    | some pred => { rule with predicates := rule.predicates ++ [pred] }
    | none => rule

def parseFilterExpr (expr : String) : Option FilterRule :=
  some ((expr.toList.splitOn ';').foldl parsePart ⟨[], []⟩)

/-! ## The filter -/

namespace IngestionFilter

def new : IngestionFilter := ⟨∅⟩

def addRule (filter : IngestionFilter) (table : String) (rule : FilterRule) : IngestionFilter :=
  ⟨filter.filters.insert table rule⟩

def fromConfig (cfg : PipelineConfig) : IngestionFilter :=
  cfg.filters.entries.foldl (fun filter entry =>
    match parseFilterExpr entry.2 with
    | some rule => filter.addRule entry.1 rule
    | none => filter) new

def accept (filter : IngestionFilter) (event : ChangeEvent) : Bool :=
  match filter.filters.lookup event.table.qualified with
  | some rule => rule.accept event
  | none => true

theorem accept_addRule {event : ChangeEvent} (filter : IngestionFilter) (rule : FilterRule) :
    (filter.addRule event.table.qualified rule).accept event = rule.accept event := by
  simp [accept, addRule]

theorem accept_addRule_of_ne {event : ChangeEvent} {table : String} (other : event.table.qualified ≠ table)
    (filter : IngestionFilter) (rule : FilterRule) :
    (filter.addRule table rule).accept event = filter.accept event := by
  simp [accept, addRule, AList.lookup_insert_ne other]

theorem lookup_fromEntries (table : String) (entries : List (Sigma fun _ : String => String))
    (distinct : entries.NodupKeys) (filter : IngestionFilter) :
    (entries.foldl (fun filter entry =>
      match parseFilterExpr entry.2 with
      | some rule => filter.addRule entry.1 rule
      | none => filter) filter).filters.lookup table =
        ((entries.dlookup table).bind parseFilterExpr).or (filter.filters.lookup table) := by
  induction entries generalizing filter with
  | nil => simp
  | cons entry entries inductionHypothesis =>
    obtain ⟨other, expr⟩ := entry
    rw [List.nodupKeys_cons] at distinct
    rw [List.foldl_cons, inductionHypothesis distinct.2]
    by_cases same : table = other
    · subst same
      have absent : entries.dlookup table = none := List.dlookup_eq_none.mpr distinct.1
      simp [absent, parseFilterExpr, addRule]
    · rw [List.dlookup_cons_ne entries ⟨other, expr⟩ same]
      simp [parseFilterExpr, addRule, AList.lookup_insert_ne same]

theorem lookup_fromConfig (cfg : PipelineConfig) (table : String) :
    (fromConfig cfg).filters.lookup table = (cfg.filters.lookup table).bind parseFilterExpr := by
  have entries := lookup_fromEntries table cfg.filters.entries cfg.filters.nodupKeys new
  rw [fromConfig, entries]
  simp [new, AList.lookup]

end IngestionFilter

/-! ## What a part contributes -/

def partOps (part : List Char) : List OpType :=
  if "op:".toList <+: trim part then parseOps ((trim part).drop 3) else []

def partPredicate (part : List Char) : Option ColumnPredicate :=
  if trim part = [] ∨ "op:".toList <+: trim part then none else parsePredicate (String.ofList (trim part))

theorem parsePart_eq (rule : FilterRule) (part : List Char) :
    parsePart rule part =
      ⟨rule.ops ++ partOps part, rule.predicates ++ (partPredicate part).toList⟩ := by
  simp only [parsePart, partOps, partPredicate]
  by_cases empty : trim part = []
  · have noOp : ¬ "op:".toList <+: trim part := by simp [empty]
    rw [if_pos empty, if_neg noOp, if_pos (.inl empty)]
    simp
  · rw [if_neg empty]
    by_cases isOp : "op:".toList <+: trim part
    · rw [if_pos isOp, if_pos isOp, if_pos (.inr isOp)]
      simp
    · rw [if_neg isOp, if_neg isOp, if_neg (not_or.mpr ⟨empty, isOp⟩)]
      cases parsePredicate (String.ofList (trim part)) with
      | none => simp
      | some pred => simp

theorem foldl_parsePart (parts : List (List Char)) (rule : FilterRule) :
    parts.foldl parsePart rule =
      ⟨rule.ops ++ parts.flatMap partOps, rule.predicates ++ parts.filterMap partPredicate⟩ := by
  induction parts generalizing rule with
  | nil => simp
  | cons part parts inductionHypothesis =>
    rw [List.foldl_cons, inductionHypothesis, parsePart_eq, List.flatMap_cons, List.filterMap_cons]
    cases partPredicate part with
    | none => simp
    | some pred => simp

theorem parseFilterExpr_eq (expr : String) :
    parseFilterExpr expr = some
      ⟨(expr.toList.splitOn ';').flatMap partOps, (expr.toList.splitOn ';').filterMap partPredicate⟩ := by
  simp [parseFilterExpr, foldl_parsePart]

end Nendi.Core
