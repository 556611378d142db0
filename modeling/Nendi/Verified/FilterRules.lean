import Nendi.Core.Ingestion

/-! # What filter rules do

A rule is an unordered collection of operations and predicates, however its expression is
arranged.  Two things go wrong with rules: a list of operations of which none is known
means all operations, and the dot between the two names of a table may stand in either
name, so that tables share their rules. -/

namespace Nendi.Verified

open Nendi.Lib Nendi.Shared Nendi.Core

/-! ## Operations -/

/-- An `op:` part of the expression has a tag for this operation. -/
def Names (expr : String) (op : OpType) : Prop :=
  ∃ part ∈ expr.toList.splitOn ';', "op:".toList <+: trim part ∧
    ∃ name ∈ ((trim part).drop 3).splitOn ',', OpType.fromStrTag (String.ofList (trim name)) = some op

theorem mem_partOps_iff (part : List Char) (op : OpType) :
    op ∈ partOps part ↔ "op:".toList <+: trim part ∧
      ∃ name ∈ ((trim part).drop 3).splitOn ',', OpType.fromStrTag (String.ofList (trim name)) = some op := by
  rw [partOps]
  by_cases isOp : "op:".toList <+: trim part
  · rw [if_pos isOp, parseOps, List.mem_filterMap]
    exact ⟨fun named => ⟨isOp, named⟩, And.right⟩
  · rw [if_neg isOp]
    exact ⟨fun member => absurd member List.not_mem_nil, fun named => absurd named.1 isOp⟩

theorem mem_ops_iff {expr : String} {rule : FilterRule} (parsed : parseFilterExpr expr = some rule)
    (op : OpType) : op ∈ rule.ops ↔ Names expr op := by
  rw [parseFilterExpr_eq, Option.some.injEq] at parsed
  subst parsed
  simp only [List.mem_flatMap, mem_partOps_iff, Names]

def bareEvent (table : TableId) (op : OpType) : ChangeEvent where
  lsn := 0
  xid := 0
  op
  table
  schemaFingerprint := 0
  after := none
  before := none
  commitTimestampUs := 0

/-- Only named operations are admitted, exactly if one is named. -/
theorem only_named_ops_accepted_iff (cfg : PipelineConfig) (table : TableId) (expr : String)
    (configured : cfg.filters.lookup table.qualified = some expr) :
    (∀ event, event.table = table → (IngestionFilter.fromConfig cfg).accept event = true →
      Names expr event.op) ↔ ∃ op, Names expr op := by
  obtain ⟨rule, parsed⟩ : ∃ rule, parseFilterExpr expr = some rule := ⟨_, rfl⟩
  have accepts : ∀ event : ChangeEvent, event.table = table →
      (IngestionFilter.fromConfig cfg).accept event = rule.accept event := by
    rintro event rfl
    rw [IngestionFilter.accept, IngestionFilter.lookup_fromConfig, configured]
    simp [parsed]
  constructor
  · intro onlyNamed
    by_cases none_ : rule.ops = []
    · -- an event without a new row passes a rule without operations
      have accepted : rule.accept (bareEvent table .delete) = true := by
        simp [FilterRule.accept_iff, none_, bareEvent]
      exact ⟨.delete, onlyNamed (bareEvent table .delete) rfl ((accepts _ rfl).trans accepted)⟩
    · obtain ⟨op, listed⟩ := List.exists_mem_of_ne_nil _ none_
      exact ⟨op, (mem_ops_iff parsed op).mp listed⟩
  · rintro ⟨op, named⟩ event sameTable accepted
    rw [accepts event sameTable, FilterRule.accept_iff] at accepted
    obtain empty | listed := accepted.1
    · have member := (mem_ops_iff parsed op).mpr named
      rw [empty] at member
      cases member
    · exact (mem_ops_iff parsed event.op).mp listed

def configOf (table : TableId) (expr : String) : PipelineConfig :=
  ⟨(∅ : AList fun _ : String => String).insert table.qualified expr⟩

def ordersTableId : TableId := ⟨"public", "orders"⟩

/-- The only operation of `op:insrt` is misspelt, and deletes get through. -/
theorem misspelt_op_admits_delete :
    (∃ part ∈ "op:insrt".toList.splitOn ';', "op:".toList <+: trim part) ∧
      (IngestionFilter.fromConfig (configOf ordersTableId "op:insrt")).accept
        (bareEvent ordersTableId .delete) = true ∧
      ¬ Names "op:insrt" .delete := by
  refine ⟨by decide, by decide, ?_⟩
  obtain ⟨rule, parsed⟩ : ∃ rule, parseFilterExpr "op:insrt" = some rule := ⟨_, rfl⟩
  rw [← mem_ops_iff parsed]
  cases parsed
  decide

theorem only_named_ops_accepted_orders :
    (configOf ordersTableId "op:insrt, U").filters.lookup ordersTableId.qualified = some "op:insrt, U" ∧
      ∀ event, event.table = ordersTableId →
        (IngestionFilter.fromConfig (configOf ordersTableId "op:insrt, U")).accept event = true →
        Names "op:insrt, U" event.op := by
  have named : Names "op:insrt, U" .update :=
    ⟨"op:insrt, U".toList, by decide, by decide, " U".toList, by decide, by decide⟩
  have configured : (configOf ordersTableId "op:insrt, U").filters.lookup ordersTableId.qualified =
      some "op:insrt, U" := AList.lookup_insert _
  exact ⟨configured, (only_named_ops_accepted_iff (configOf ordersTableId "op:insrt, U") ordersTableId
    "op:insrt, U" configured).mpr ⟨.update, named⟩⟩

/-! ## Arrangement -/

def Padded (part text : String) : Prop :=
  ∃ left right : String, Blank left.toList ∧ Blank right.toList ∧ text = left ++ part ++ right

/-- The parts in the same order, each with whitespace around it, and empty parts in between. -/
inductive Respaced : List String → List String → Prop where
  | nil : Respaced [] []
  | part {part text : String} {parts texts : List String} (padded : Padded part text)
      (rest : Respaced parts texts) : Respaced (part :: parts) (text :: texts)
  | empty {text : String} {parts texts : List String} (blank : Blank text.toList)
      (rest : Respaced parts texts) : Respaced parts (text :: texts)

def ruleOf (parts : List String) : FilterRule :=
  ⟨parts.flatMap fun part => partOps part.toList, parts.filterMap fun part => partPredicate part.toList⟩

theorem partOps_blank {part : List Char} (blank : Blank part) : partOps part = [] := by
  simp [partOps, (trim_eq_nil_iff part).mpr blank]

theorem partPredicate_blank {part : List Char} (blank : Blank part) : partPredicate part = none :=
  if_pos (.inl ((trim_eq_nil_iff part).mpr blank))

theorem parse_joined {parts : List String} (plain : ∀ part ∈ parts, ';' ∉ part.toList) :
    parseFilterExpr (";".intercalate parts) = some (ruleOf parts) := by
  rw [parseFilterExpr_eq, String.toList_intercalate]
  by_cases none_ : parts = []
  · -- the empty text is one empty part
    subst none_
    have blank : Blank [] := by simp [Blank]
    simp [ruleOf, List.splitOn_nil, partOps_blank blank, partPredicate_blank blank]
  · have split : ([';'].intercalate (parts.map String.toList)).splitOn ';' = parts.map String.toList := by
      refine List.splitOn_intercalate ';' ?_ (by simpa using none_)
      intro text member
      obtain ⟨part, listed, rfl⟩ := List.mem_map.mp member
      exact plain part listed
    rw [show ";".toList = [';'] from rfl, split]
    simp [ruleOf, List.flatMap_map, List.filterMap_map]

theorem trim_padded {part text : String} (padded : Padded part text) : trim text.toList = trim part.toList := by
  obtain ⟨left, right, blankLeft, blankRight, rfl⟩ := padded
  rw [String.toList_append, String.toList_append, trim_pad blankLeft blankRight]

theorem Respaced.ruleOf_eq {parts texts : List String} (respaced : Respaced parts texts) :
    ruleOf texts = ruleOf parts := by
  induction respaced with
  | nil => rfl
  | part padded _ inductionHypothesis =>
    -- a part is trimmed before anything else is done with it
    have same := trim_padded padded
    simp only [ruleOf, FilterRule.mk.injEq, List.flatMap_cons, List.filterMap_cons, partOps, partPredicate,
      same] at inductionHypothesis ⊢
    rw [inductionHypothesis.1, inductionHypothesis.2]
    exact ⟨rfl, rfl⟩
  | empty blank _ inductionHypothesis =>
    simpa [ruleOf, partOps_blank blank, partPredicate_blank blank] using inductionHypothesis

theorem Respaced.plain {parts texts : List String} (respaced : Respaced parts texts)
    (plain : ∀ part ∈ parts, ';' ∉ part.toList) : ∀ text ∈ texts, ';' ∉ text.toList := by
  have noSeparator : ∀ {text : List Char}, Blank text → ';' ∉ text := by
    intro text blank member
    exact absurd (blank ';' member) (by decide)
  induction respaced with
  | nil => exact plain
  | part padded _ inductionHypothesis =>
    obtain ⟨left, right, blankLeft, blankRight, rfl⟩ := padded
    rw [List.forall_mem_cons] at plain ⊢
    refine ⟨?_, inductionHypothesis plain.2⟩
    simp [noSeparator blankLeft, noSeparator blankRight, plain.1]
  | empty blank _ inductionHypothesis =>
    rw [List.forall_mem_cons]
    exact ⟨noSeparator blank, inductionHypothesis plain⟩

theorem accept_eq_of_mem_iff {first second : FilterRule} (sameOps : ∀ op, op ∈ first.ops ↔ op ∈ second.ops)
    (samePredicates : ∀ pred, pred ∈ first.predicates ↔ pred ∈ second.predicates) (event : ChangeEvent) :
    first.accept event = second.accept event := by
  -- only which operations and predicates a rule has matters
  have sameEmpty : first.ops = [] ↔ second.ops = [] := by
    simp only [List.eq_nil_iff_forall_not_mem, sameOps]
  rw [Bool.eq_iff_iff, FilterRule.accept_iff, FilterRule.accept_iff]
  simp only [sameEmpty, sameOps, samePredicates]

/-- An expression may list its parts in any order, with spaces around and nothing between
    separators. -/
theorem rearranged_rules_accept_alike (parts permuted texts : List String)
    (plain : ∀ part ∈ parts, ';' ∉ part.toList) (perm : parts.Perm permuted)
    (respaced : Respaced permuted texts) :
    ∃ first second, parseFilterExpr (";".intercalate parts) = some first ∧
      parseFilterExpr (";".intercalate texts) = some second ∧
      ∀ (filter : IngestionFilter) (table : String) (event : ChangeEvent),
        (filter.addRule table first).accept event = (filter.addRule table second).accept event := by
  have permutedPlain : ∀ part ∈ permuted, ';' ∉ part.toList := fun part member =>
    plain part (perm.mem_iff.mpr member)
  refine ⟨_, _, parse_joined plain, parse_joined (respaced.plain permutedPlain), ?_⟩
  rw [respaced.ruleOf_eq]
  intro filter table event
  have alike : (ruleOf parts).accept event = (ruleOf permuted).accept event := by
    apply accept_eq_of_mem_iff
    · intro op
      exact (perm.flatMap_right _).mem_iff
    · intro pred
      exact (perm.filterMap _).mem_iff
  by_cases same : event.table.qualified = table
  · subst same
    rw [IngestionFilter.accept_addRule, IngestionFilter.accept_addRule, alike]
  · rw [IngestionFilter.accept_addRule_of_ne same, IngestionFilter.accept_addRule_of_ne same]

/-- Two parts the other way round, with blanks and an empty part. -/
theorem rearranged_rules_accept_alike_orders :
    ∃ first second, parseFilterExpr (";".intercalate ["op:insert", "id > 5"]) = some first ∧
      parseFilterExpr (";".intercalate [" id > 5", "", "op:insert "]) = some second ∧
      ∀ (filter : IngestionFilter) (table : String) (event : ChangeEvent),
        (filter.addRule table first).accept event = (filter.addRule table second).accept event := by
  have respaced : Respaced ["id > 5", "op:insert"] [" id > 5", "", "op:insert "] := by
    refine .part ⟨" ", "", ?_, ?_, rfl⟩ (.empty ?_ (.part ⟨"", " ", ?_, ?_, rfl⟩ .nil))
    all_goals
      apply List.all_eq_true.mp
      decide
  exact rearranged_rules_accept_alike ["op:insert", "id > 5"] ["id > 5", "op:insert"] _ (by decide)
    (List.Perm.swap _ _ _) respaced

/-! ## Tables -/

/-- The second table has its dot further behind than the first. -/
def DotsShifted (first second : TableId) : Prop :=
  ∃ middle : String, second.schema = first.schema ++ "." ++ middle ∧
    first.table = middle ++ "." ++ second.table

theorem qualified_eq_of_shifted {first second : TableId} (shifted : DotsShifted first second) :
    first.qualified = second.qualified := by
  obtain ⟨middle, schema, table⟩ := shifted
  apply String.toList_injective
  simp [TableId.qualified_toList, schema, table]

theorem shifted_of_qualified_eq {first second : TableId} (different : first ≠ second)
    (same : first.qualified = second.qualified) : DotsShifted first second ∨ DotsShifted second first := by
  -- different tables with one name have the dot in different places
  have shiftedOf : ∀ {first second : TableId}, first ≠ second → ∀ {extra : List Char},
      second.schema.toList = first.schema.toList ++ extra →
      '.' :: first.table.toList = extra ++ '.' :: second.table.toList → DotsShifted first second := by
    intro first second different extra schema table
    cases extra with
    | nil =>
      rw [List.append_nil] at schema
      rw [List.nil_append, List.cons.injEq] at table
      have equal : first = second := by
        cases first
        cases second
        simp only [TableId.mk.injEq]
        exact ⟨String.toList_injective schema.symm, String.toList_injective table.2⟩
      exact absurd equal different
    | cons dot middle =>
      rw [List.cons_append, List.cons.injEq] at table
      obtain ⟨rfl, table⟩ := table
      refine ⟨String.ofList middle, ?_, ?_⟩
      · apply String.toList_injective
        simp [schema]
      · apply String.toList_injective
        simp [table]
  have texts := congrArg String.toList same
  rw [TableId.qualified_toList, TableId.qualified_toList] at texts
  obtain ⟨extra, schema, table⟩ | ⟨extra, schema, table⟩ := List.append_eq_append_iff.mp texts
  · exact .inl (shiftedOf different schema table)
  · exact .inr (shiftedOf different.symm schema table)

/-- A rule does not reach a table exactly if it is not stored under the table's name. -/
theorem rule_stays_away_iff (name : String) (table : TableId) :
    (∀ filter rule event, event.table = table →
      (IngestionFilter.addRule filter name rule).accept event = filter.accept event) ↔
      name ≠ table.qualified := by
  constructor
  · rintro unchanged rfl
    -- a rule for inserts only turns away a delete
    have same := unchanged .new ⟨[.insert], []⟩ (bareEvent table .delete) rfl
    rw [show table.qualified = (bareEvent table .delete).table.qualified from rfl,
      IngestionFilter.accept_addRule] at same
    cases same
  · rintro away filter rule event rfl
    exact IngestionFilter.accept_addRule_of_ne away.symm filter rule

theorem fromQualified_qualified_iff (table : TableId) :
    TableId.fromQualified table.qualified = some table ↔ '.' ∉ table.schema.toList := by
  constructor
  · intro parsed
    obtain ⟨parts, split, rfl⟩ := Option.map_eq_some_iff.mp parsed
    exact (splitOnce_toList split).2
  · intro plain
    have written : table.qualified = table.schema ++ String.singleton '.' ++ table.table := by
      apply String.toList_injective
      simp [TableId.qualified_toList]
    rw [TableId.fromQualified, written, splitOnce_append plain]
    rfl

/-- A rule of one table leaves another alone, and its key is read back, unless the dots of their
    names can be mistaken. -/
theorem rules_kept_apart_iff (first second : TableId) (different : first ≠ second) :
    ((∀ filter rule event, event.table = second →
        (IngestionFilter.addRule filter first.qualified rule).accept event = filter.accept event) ∧
      TableId.fromQualified first.qualified = some first) ↔
      '.' ∉ first.schema.toList ∧ ¬ DotsShifted first second := by
  rw [rule_stays_away_iff, fromQualified_qualified_iff, and_comm, and_congr_right_iff]
  intro plain
  constructor
  · intro apart shifted
    exact apart (qualified_eq_of_shifted shifted)
  · intro notShifted same
    rcases shifted_of_qualified_eq different same with shifted | shifted
    · exact notShifted shifted
    · -- the first schema would have the second table's dot inside
      obtain ⟨middle, schema, -⟩ := shifted
      rw [schema] at plain
      simp at plain

theorem rules_kept_apart_orders :
    (∀ filter rule event, event.table = ⟨"public", "users"⟩ →
        (IngestionFilter.addRule filter ordersTableId.qualified rule).accept event = filter.accept event) ∧
      TableId.fromQualified ordersTableId.qualified = some ordersTableId := by
  refine (rules_kept_apart_iff ordersTableId ⟨"public", "users"⟩ (by decide)).mpr ⟨by decide, ?_⟩
  rintro ⟨middle, schema, -⟩
  have lengths := congrArg (fun text => text.toList.length) schema
  simp [ordersTableId] at lengths

/-- `"a"."b.c"` and `"a.b"."c"` have one name: a rule of the first table filters the second, and
    the second's key is read back as the first. -/
theorem dotted_names_share_a_rule :
    (⟨"a", "b.c"⟩ : TableId) ≠ ⟨"a.b", "c"⟩ ∧
      (IngestionFilter.new.addRule (TableId.qualified ⟨"a", "b.c"⟩) ⟨[.insert], []⟩).accept
        (bareEvent ⟨"a.b", "c"⟩ .delete) = false ∧
      IngestionFilter.new.accept (bareEvent ⟨"a.b", "c"⟩ .delete) = true ∧
      TableId.fromQualified (TableId.qualified ⟨"a.b", "c"⟩) = some ⟨"a", "b.c"⟩ := by
  decide

end Nendi.Verified
