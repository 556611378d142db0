import Nendi.Lib.Machine
import Nendi.Pgsql.EventTriggers
import Nendi.Verified.DdlChannel

/-! # Who installed the triggers

The triggers of a database come from the scripts or from `EventTriggerHandler`, and whoever
comes second finds the name taken.  The two do not install the same: the handler makes the
trigger for drops call `nendi_capture_ddl`.  Drops are therefore reported while that trigger
is the script's, and `check_triggers`, which could tell, panics as soon as there is one. -/

namespace Nendi.Verified

open Nendi.Lib Nendi.Pgsql

/-! ## Histories of a database -/

inductive CatalogueAction where
  | captureSql
  | ddlSql
  | dropSql
  | teardownSql
  | installTriggers
  | removeTriggers
  | statement (statement : SchemaStatement)

def changeCatalogue (catalogue : Catalogue) : CatalogueAction → Catalogue
  | .captureSql => catalogue.captureSql
  | .ddlSql => catalogue.ddlSql
  | .dropSql => catalogue.dropSql
  | .teardownSql => catalogue.teardownSql
  | .installTriggers => (EventTriggerHandler.installTriggers catalogue).2
  | .removeTriggers => EventTriggerHandler.removeTriggers catalogue
  | .statement _ => catalogue

def catalogueAfter (actions : List CatalogueAction) : Catalogue := actions.foldl changeCatalogue .empty

theorem catalogueAfter_snoc (past : List CatalogueAction) (action : CatalogueAction) :
    catalogueAfter (past ++ [action]) = changeCatalogue (catalogueAfter past) action := by
  simp [catalogueAfter]

inductive CatalogueAction.Removes : CatalogueAction → Prop where
  | teardownSql : Removes .teardownSql
  | removeTriggers : Removes .removeTriggers

theorem CatalogueAction.removes_iff (action : CatalogueAction) :
    action.Removes ↔ action = .teardownSql ∨ action = .removeTriggers := by
  constructor
  · intro removes
    cases removes with
    | teardownSql => exact Or.inl rfl
    | removeTriggers => exact Or.inr rfl
  · rintro (rfl | rfl)
    · exact .teardownSql
    · exact .removeTriggers

/-! ## The triggers of a name -/

def called (catalogue : Catalogue) (name : String) : List CaptureFunction :=
  (catalogue.triggers.filter fun trigger => decide (trigger.evtname = name)).map EventTrigger.evtfoid

section Called

variable (catalogue : Catalogue) (name : String)

theorem hasTrigger_iff : catalogue.hasTrigger name = true ↔ called catalogue name ≠ [] := by
  simp [Catalogue.hasTrigger, called]

@[simp] theorem called_createFunction (function : CaptureFunction) :
    called (catalogue.createFunction function) name = called catalogue name := rfl

@[simp] theorem mem_createFunction (function : CaptureFunction) :
    function ∈ (catalogue.createFunction function).functions := List.mem_insert_self

theorem called_dropEventTrigger (other : String) :
    called (catalogue.dropEventTrigger other) name = if name = other then [] else called catalogue name := by
  rw [called, Catalogue.dropEventTrigger, List.filter_filter]
  split
  · next same => simp [same]
  · next different =>
    have kept : ∀ trigger : EventTrigger,
        (decide (trigger.evtname = name) && decide (trigger.evtname ≠ other)) = decide (trigger.evtname = name) := by
      intro trigger
      by_cases named : trigger.evtname = name
      · simp [named, different]
      · simp [named]
    simp only [kept, called]

/-- A trigger is created if the name is free and the function is there. -/
def created (catalogue : Catalogue) (name event : String) (function : CaptureFunction) : Catalogue :=
  if called catalogue name = [] ∧ function ∈ catalogue.functions then
    { catalogue with triggers := catalogue.triggers ++ [⟨name, event, 'O', function⟩] }
  else catalogue

theorem attempt_create (event : String) (function : CaptureFunction) :
    catalogue.attempt (·.createEventTrigger name event function) = created catalogue name event function := by
  rw [Catalogue.attempt, Catalogue.createEventTrigger, created]
  by_cases free : called catalogue name = []
  · have absent : ¬ catalogue.hasTrigger name = true := by simp [hasTrigger_iff, free]
    by_cases there : function ∈ catalogue.functions
    · simp [free, absent, there]
    · simp [free, absent, there]
  · have present := (hasTrigger_iff catalogue name).mpr free
    simp [free, present]

theorem ensureTrigger_eq (event : String) (function : CaptureFunction) :
    EventTriggerHandler.ensureTrigger name event function catalogue =
      if called catalogue name = [] ∧ function ∉ catalogue.functions then .error (.noFunction function)
      else .ok (created catalogue name event function) := by
  -- a block of the handler fails only if there is nothing to call
  rw [EventTriggerHandler.ensureTrigger, Catalogue.createEventTrigger, created]
  by_cases free : called catalogue name = []
  · have absent : ¬ catalogue.hasTrigger name = true := by simp [hasTrigger_iff, free]
    by_cases there : function ∈ catalogue.functions
    · simp [free, absent, there]
    · simp [free, absent, there]
  · have present := (hasTrigger_iff catalogue name).mpr free
    simp [free, present]

@[simp] theorem created_functions (event : String) (function : CaptureFunction) :
    (created catalogue name event function).functions = catalogue.functions := by
  rw [created]
  split <;> rfl

theorem created_missing {function : CaptureFunction} (event : String) (missing : function ∉ catalogue.functions) :
    created catalogue name event function = catalogue := if_neg fun both => missing both.2

theorem called_created (other event : String) (function : CaptureFunction) :
    called (created catalogue other event function) name =
      if name = other ∧ called catalogue other = [] ∧ function ∈ catalogue.functions then [function]
      else called catalogue name := by
  by_cases creates : called catalogue other = [] ∧ function ∈ catalogue.functions
  · rw [created, if_pos creates]
    by_cases same : name = other
    · subst same
      have before := creates.1
      rw [if_pos ⟨rfl, creates⟩]
      rw [called] at before
      simp [called, before]
    · simp [same, called, Ne.symm same]
  · rw [created, if_neg creates, if_neg fun both => creates both.2]

end Called

/-! ## What the actions leave -/

section Actions

variable (catalogue : Catalogue)

theorem ddlSql_eq : catalogue.ddlSql = created catalogue "nendi_ddl_trigger" "ddl_command_end" .nendiCaptureDdl :=
  attempt_create _ _ _ _

theorem dropSql_eq : catalogue.dropSql =
    created (catalogue.createFunction .nendiCaptureDrop) "nendi_drop_trigger" "sql_drop" .nendiCaptureDrop :=
  attempt_create _ _ _ _

theorem installTriggers_eq : (EventTriggerHandler.installTriggers catalogue).2 =
    created (created catalogue "nendi_ddl_trigger" "ddl_command_end" .nendiCaptureDdl)
      "nendi_drop_trigger" "sql_drop" .nendiCaptureDdl := by
  -- also where the first block fails, since then the second one would change nothing
  rw [EventTriggerHandler.installTriggers]
  by_cases there : .nendiCaptureDdl ∈ catalogue.functions
  · simp [ensureTrigger_eq, there]
  · rw [created_missing _ _ _ there, created_missing _ _ _ there]
    simp only [ensureTrigger_eq, created_missing _ _ _ there]
    by_cases first : called catalogue "nendi_ddl_trigger" = []
    · simp [first, there]
    · by_cases second : called catalogue "nendi_drop_trigger" = []
      · simp [first, second, there]
      · simp [first, second, created_missing _ _ _ there]

theorem teardownSql_triggers :
    catalogue.teardownSql.triggers = (EventTriggerHandler.removeTriggers catalogue).triggers := by
  have kept : ∀ (catalogue : Catalogue) function, (catalogue.attempt (·.dropFunction function)).triggers =
      catalogue.triggers := by
    intro catalogue function
    rw [Catalogue.attempt, Catalogue.dropFunction]
    by_cases used : (catalogue.triggers.any fun trigger => decide (trigger.evtfoid = function)) = true
    · rw [if_pos used]
    · rw [if_neg used]
  rw [Catalogue.teardownSql, kept, kept]
  rfl

theorem dropCalled_change (action : CatalogueAction) :
    called (changeCatalogue catalogue action) "nendi_drop_trigger" =
      match action with
      | .dropSql =>
        if called catalogue "nendi_drop_trigger" = [] then [.nendiCaptureDrop]
        else called catalogue "nendi_drop_trigger"
      | .installTriggers =>
        if called catalogue "nendi_drop_trigger" = [] ∧ .nendiCaptureDdl ∈ catalogue.functions then [.nendiCaptureDdl]
        else called catalogue "nendi_drop_trigger"
      | .teardownSql | .removeTriggers => []
      | _ => called catalogue "nendi_drop_trigger" := by
  have removed : called (EventTriggerHandler.removeTriggers catalogue) "nendi_drop_trigger" = [] := by
    rw [EventTriggerHandler.removeTriggers, called_dropEventTrigger, if_pos rfl]
  cases action with
  | captureSql => rfl
  | ddlSql => simp [changeCatalogue, ddlSql_eq, called_created]
  | dropSql => simp [changeCatalogue, dropSql_eq, called_created]
  | teardownSql => simpa [changeCatalogue, called, teardownSql_triggers] using removed
  | installTriggers => simp [changeCatalogue, installTriggers_eq, called_created]
  | removeTriggers => exact removed
  | statement statement => rfl

end Actions

/-- The triggers are enabled and stand for the events that their names say, at most one for each. -/
structure Installed (catalogue : Catalogue) : Prop where
  rows : ∀ trigger ∈ catalogue.triggers,
    trigger = ⟨"nendi_ddl_trigger", "ddl_command_end", 'O', .nendiCaptureDdl⟩ ∨
      ∃ function, trigger = ⟨"nendi_drop_trigger", "sql_drop", 'O', function⟩
  single : ∀ name, (called catalogue name).length ≤ 1

namespace Installed

variable {catalogue : Catalogue}

theorem of_sublist {other : Catalogue} (installed : Installed catalogue)
    (fewer : other.triggers.Sublist catalogue.triggers) : Installed other where
  rows trigger member := installed.rows trigger (fewer.subset member)
  single name := ((fewer.filter _).map _).length_le.trans (installed.single name)

theorem created {name event : String} {function : CaptureFunction} (installed : Installed catalogue)
    (row : (⟨name, event, 'O', function⟩ : EventTrigger) =
        ⟨"nendi_ddl_trigger", "ddl_command_end", 'O', .nendiCaptureDdl⟩ ∨
      ∃ function', (⟨name, event, 'O', function⟩ : EventTrigger) = ⟨"nendi_drop_trigger", "sql_drop", 'O', function'⟩) :
    Installed (created catalogue name event function) where
  rows := by
    rw [Verified.created]
    split
    · exact List.forall_mem_append.mpr ⟨installed.rows, List.forall_mem_singleton.mpr row⟩
    · exact installed.rows
  single other := by
    rw [called_created]
    split
    · exact Nat.le_refl 1
    · exact installed.single other

theorem change (installed : Installed catalogue) (action : CatalogueAction) :
    Installed (changeCatalogue catalogue action) := by
  have removed : Installed (EventTriggerHandler.removeTriggers catalogue) :=
    installed.of_sublist (List.filter_sublist.trans List.filter_sublist)
  cases action with
  | captureSql => exact ⟨installed.rows, installed.single⟩
  | ddlSql =>
    rw [changeCatalogue, ddlSql_eq]
    exact installed.created (Or.inl rfl)
  | dropSql =>
    have same : Installed (catalogue.createFunction .nendiCaptureDrop) := ⟨installed.rows, installed.single⟩
    rw [changeCatalogue, dropSql_eq]
    exact same.created (Or.inr ⟨_, rfl⟩)
  | teardownSql => exact removed.of_sublist (by rw [changeCatalogue, teardownSql_triggers])
  | installTriggers =>
    rw [changeCatalogue, installTriggers_eq]
    exact (installed.created (Or.inl rfl)).created (Or.inr ⟨_, rfl⟩)
  | removeTriggers => exact removed
  | statement statement => exact installed

theorem after (past : List CatalogueAction) : Installed (catalogueAfter past) := by
  induction past using List.reverseRecOn with
  | nil => exact ⟨by simp [catalogueAfter, Catalogue.empty], by simp [catalogueAfter, Catalogue.empty, called]⟩
  | append_singleton past action inductionHypothesis =>
    rw [catalogueAfter_snoc]
    exact inductionHypothesis.change action

end Installed

/-! ## The messages of a statement -/

theorem called_cases {catalogue : Catalogue} (installed : Installed catalogue) (name : String) :
    called catalogue name = [] ∨ ∃ function, called catalogue name = [function] := by
  obtain none | one := Nat.le_one_iff_eq_zero_or_eq_one.mp (installed.single name)
  · exact Or.inl (List.length_eq_zero_iff.mp none)
  · exact Or.inr (List.length_eq_one_iff.mp one)

/-- The triggers that are enabled, in a session that is not a replica, and whose event occurs:
    `ddl_command_end` for every statement, `sql_drop` if something is dropped. -/
def fired (catalogue : Catalogue) (statement : SchemaStatement) : List EventTrigger :=
  catalogue.triggers.filter fun trigger => decide (trigger.evtenabled ∈ ['O', 'A'] ∧
    (trigger.evtevent = "ddl_command_end" ∨ trigger.evtevent = "sql_drop" ∧ statement.dropped ≠ []))

def emitted (statement : SchemaStatement) (trigger : EventTrigger) : List String :=
  match trigger.evtfoid with
  | .nendiCaptureDdl => nendiCaptureDdl statement.tgTag statement.currentQuery statement.commands
  | .nendiCaptureDrop => nendiCaptureDrop statement.dropped

/-- The function asks for what its event provides: the commands at their end, the dropped objects
    at a drop. -/
def Suits (trigger : EventTrigger) : Prop :=
  trigger.evtfoid = .nendiCaptureDdl ∧ trigger.evtevent = "ddl_command_end" ∨
    trigger.evtfoid = .nendiCaptureDrop ∧ trigger.evtevent = "sql_drop"

/-- The functions of the fired triggers were called, in some order. -/
def Called (catalogue : Catalogue) (statement : SchemaStatement) (messages : List String) : Prop :=
  ∃ order : List EventTrigger, order.Perm (fired catalogue statement) ∧ messages = order.flatMap (emitted statement)

/-- How the server fires triggers: their functions are called, unless an error takes the statement
    back with all its messages, which does not happen if every function suits its event.  Whether a
    function that does not suit its event raises an error is left open. -/
structure Firing where
  messages : Catalogue → SchemaStatement → List String
  calls : ∀ catalogue statement, messages catalogue statement = [] ∨
    Called catalogue statement (messages catalogue statement)
  stands : ∀ catalogue statement, (∀ trigger ∈ fired catalogue statement, Suits trigger) →
    Called catalogue statement (messages catalogue statement)

def dropCalls (triggers : List EventTrigger) : List EventTrigger :=
  triggers.filter fun trigger => decide (trigger.evtfoid = .nendiCaptureDrop)

theorem handle_emitted (upper : Char → List Char) {statement : SchemaStatement} (named : statement.WellNamed)
    {tables : List String} (oneDot : OneDot tables) (order : List EventTrigger) {handler : DdlHandler}
    (monitors : handler.monitoredTables = tables) :
    handleAll upper statement.lsn handler (order.flatMap (emitted statement)) =
      buffering handler ((dropCalls order).flatMap fun _ => statement.drops tables) := by
  induction order generalizing handler with
  | nil => simp [handleAll, dropCalls]
  | cons trigger order inductionHypothesis =>
    rw [List.flatMap_cons, handleAll_append]
    cases function : trigger.evtfoid with
    | nendiCaptureDdl =>
      have unheard : handleAll upper statement.lsn handler (emitted statement trigger) = handler := by
        rw [emitted, function]
        exact handle_alters upper _ _ monitors oneDot named.tag named.commands
      rw [unheard, inductionHypothesis monitors]
      simp [dropCalls, function]
    | nendiCaptureDrop =>
      have heard : handleAll upper statement.lsn handler (emitted statement trigger) =
          buffering handler (statement.drops tables) := by
        rw [emitted, function]
        exact handle_drops upper _ monitors named.dropped
      rw [heard, inductionHypothesis (buffering_monitors monitors _), buffering_buffering]
      simp [dropCalls, function]

theorem dropCalls_fired {catalogue : Catalogue} (installed : Installed catalogue) {statement : SchemaStatement}
    (drops : statement.dropped ≠ []) :
    (dropCalls (fired catalogue statement)).length =
      if called catalogue "nendi_drop_trigger" = [.nendiCaptureDrop] then 1 else 0 := by
  -- the function for drops is called by the trigger for drops
  have same : dropCalls (fired catalogue statement) = catalogue.triggers.filter fun trigger =>
      decide (trigger.evtname = "nendi_drop_trigger") && decide (trigger.evtfoid = .nendiCaptureDrop) := by
    rw [dropCalls, fired, List.filter_filter]
    apply List.filter_congr
    intro trigger member
    obtain rfl | ⟨function, rfl⟩ := installed.rows trigger member
    · simp
    · simp [drops]
  have counted : (dropCalls (fired catalogue statement)).length =
      (called catalogue "nendi_drop_trigger").count .nendiCaptureDrop := by
    rw [same, called, List.count, List.countP_map, List.countP_filter, List.countP_eq_length_filter]
    congr 1
    apply List.filter_congr
    intro trigger _
    exact Bool.and_comm _ _
  rw [counted]
  obtain free | ⟨function, taken⟩ := called_cases installed "nendi_drop_trigger"
  · simp [free]
  · cases function <;> simp [taken]

theorem suits_of_watched {catalogue : Catalogue} (installed : Installed catalogue)
    (watched : called catalogue "nendi_drop_trigger" = [.nendiCaptureDrop]) (statement : SchemaStatement) :
    ∀ trigger ∈ fired catalogue statement, Suits trigger := by
  intro trigger member
  have isTrigger := List.mem_of_mem_filter member
  obtain rfl | ⟨function, rfl⟩ := installed.rows trigger isTrigger
  · exact .inl ⟨rfl, rfl⟩
  · have listed : function ∈ called catalogue "nendi_drop_trigger" :=
      List.mem_map.mpr ⟨_, List.mem_filter.mpr ⟨isTrigger, by simp⟩, rfl⟩
    rw [watched, List.mem_singleton] at listed
    exact .inr ⟨listed, rfl⟩

/-- The handler learns of the drops if the trigger for drops is the script's, and of nothing otherwise. -/
theorem handle_fired (upper : Char → List Char) (firing : Firing) {catalogue : Catalogue}
    (installed : Installed catalogue) {statement : SchemaStatement} (named : statement.WellNamed)
    {tables : List String} (oneDot : OneDot tables) {handler : DdlHandler}
    (monitors : handler.monitoredTables = tables) :
    handleAll upper statement.lsn handler (firing.messages catalogue statement) =
      buffering handler
        (if called catalogue "nendi_drop_trigger" = [.nendiCaptureDrop] then statement.drops tables else []) := by
  have reported : Called catalogue statement (firing.messages catalogue statement) →
      handleAll upper statement.lsn handler (firing.messages catalogue statement) = buffering handler
        (if called catalogue "nendi_drop_trigger" = [.nendiCaptureDrop] then statement.drops tables else []) := by
    rintro ⟨order, isOrder, emits⟩
    rw [emits, handle_emitted upper named oneDot order monitors]
    congr 1
    by_cases empty : statement.dropped = []
    · -- there is nothing to report
      simp [SchemaStatement.drops, empty]
    · have count := (isOrder.filter _).length_eq.trans (dropCalls_fired installed empty)
      split
      · next watched =>
        rw [if_pos watched, ← dropCalls] at count
        obtain ⟨trigger, one⟩ := List.length_eq_one_iff.mp count
        simp [one]
      · next unwatched =>
        rw [if_neg unwatched, ← dropCalls] at count
        rw [List.length_eq_zero_iff.mp count, List.flatMap_nil]
  by_cases watched : called catalogue "nendi_drop_trigger" = [.nendiCaptureDrop]
  · exact reported (firing.stands catalogue statement (suits_of_watched installed watched statement))
  · obtain takenBack | calls := firing.calls catalogue statement
    · simp [takenBack, watched, handleAll]
    · exact reported calls

/-! ## Whole histories -/

def hear (upper : Char → List Char) (firing : Firing) (catalogue : Catalogue) (handler : DdlHandler) :
    CatalogueAction → DdlHandler
  | .statement statement => handleAll upper statement.lsn handler (firing.messages catalogue statement)
  | _ => handler

def channelStep (upper : Char → List Char) (firing : Firing) (system : Catalogue × DdlHandler)
    (action : CatalogueAction) : Catalogue × DdlHandler :=
  (changeCatalogue system.1 action, hear upper firing system.1 system.2 action)

/-- The statements among the actions, each with what has happened before it. -/
def statementsAfter (past : List CatalogueAction) : List CatalogueAction → List (List CatalogueAction × SchemaStatement)
  | [] => []
  | .statement statement :: actions => (past, statement) :: statementsAfter (past ++ [.statement statement]) actions
  | action :: actions => statementsAfter (past ++ [action]) actions

/-- Whether the trigger for drops calls the function for drops. -/
def dropsWatched (past : List CatalogueAction) : Bool :=
  decide (called (catalogueAfter past) "nendi_drop_trigger" = [.nendiCaptureDrop])

theorem dropsWatched_iff (past : List CatalogueAction) :
    dropsWatched past = true ↔ ∃ before after, past = before ++ .dropSql :: after ∧
      (catalogueAfter before).hasTrigger "nendi_drop_trigger" = false ∧ ∀ later ∈ after, ¬ later.Removes := by
  suffices since : dropsWatched past = true ↔ ∃ before action after, past = before ++ action :: after ∧
      (action = .dropSql ∧ (catalogueAfter before).hasTrigger "nendi_drop_trigger" = false) ∧
      ∀ later ∈ after, ¬ later.Removes by
    rw [since]
    constructor
    · rintro ⟨before, action, after, split, ⟨rfl, free⟩, kept⟩
      exact ⟨before, after, split, free, kept⟩
    · rintro ⟨before, after, split, free, kept⟩
      exact ⟨before, _, after, split, ⟨rfl, free⟩, kept⟩
  refine @holds_iff_since _ (fun past => dropsWatched past = true) (fun before action => action = .dropSql ∧
    (catalogueAfter before).hasTrigger "nendi_drop_trigger" = false) _ ?_ ?_ past
  · decide
  intro past action
  have free : (catalogueAfter past).hasTrigger "nendi_drop_trigger" = false ↔
      called (catalogueAfter past) "nendi_drop_trigger" = [] := by
    rw [← Bool.not_eq_true, hasTrigger_iff, not_not]
  rw [dropsWatched, dropsWatched, decide_eq_true_iff, decide_eq_true_iff, catalogueAfter_snoc, dropCalled_change, free]
  cases action with
  | teardownSql => simp [CatalogueAction.Removes.teardownSql]
  | removeTriggers => simp [CatalogueAction.Removes.removeTriggers]
  | captureSql => simp [CatalogueAction.removes_iff]
  | ddlSql => simp [CatalogueAction.removes_iff]
  | statement statement => simp [CatalogueAction.removes_iff]
  -- the two that install take the name only if it is free
  | dropSql =>
    by_cases unset : called (catalogueAfter past) "nendi_drop_trigger" = []
    · simp [unset]
    · simp [unset, CatalogueAction.removes_iff]
  | installTriggers =>
    by_cases unset : called (catalogueAfter past) "nendi_drop_trigger" = []
    · by_cases there : .nendiCaptureDdl ∈ (catalogueAfter past).functions
      · simp [unset, there]
      · simp [unset, there]
    · simp [unset, CatalogueAction.removes_iff]

/-- The handler has buffered the drops of monitored tables by statements that were run while
the trigger for drops was watching, and nothing else.  It watches if `drop.sql` was run when
no trigger had its name, be it the handler's, and none has been removed since. -/
theorem drops_reported_since_script (upper : Char → List Char) (firing : Firing) {tables : List String}
    (oneDot : OneDot tables) {actions : List CatalogueAction}
    (named : ∀ statement, .statement statement ∈ actions → statement.WellNamed) :
    (actions.foldl (channelStep upper firing) (.empty, .new tables)).2 =
        ⟨⟨(statementsAfter [] actions).flatMap fun entry =>
          if dropsWatched entry.1 then entry.2.drops tables else []⟩, tables⟩ ∧
      ∀ past, dropsWatched past = true ↔ ∃ before after, past = before ++ .dropSql :: after ∧
        (catalogueAfter before).hasTrigger "nendi_drop_trigger" = false ∧ ∀ later ∈ after, ¬ later.Removes := by
  refine ⟨?_, dropsWatched_iff⟩
  suffices general : ∀ past (handler : DdlHandler), handler.monitoredTables = tables →
      (actions.foldl (channelStep upper firing) (catalogueAfter past, handler)).2 =
        buffering handler ((statementsAfter past actions).flatMap fun entry =>
          if dropsWatched entry.1 then entry.2.drops tables else []) by
    exact general [] (.new tables) rfl
  induction actions with
  | nil => simp [statementsAfter]
  | cons action actions inductionHypothesis =>
    intro past handler monitors
    have rest := inductionHypothesis (fun statement member => named statement (List.mem_cons_of_mem _ member))
    rw [List.foldl_cons, channelStep, ← catalogueAfter_snoc]
    cases action with
    | statement statement =>
      have heard := handle_fired upper firing (Installed.after past) (named statement List.mem_cons_self)
        oneDot monitors
      rw [hear, heard, rest _ _ (buffering_monitors monitors _), buffering_buffering, statementsAfter, List.flatMap_cons]
      simp only [dropsWatched, decide_eq_true_iff]
    | captureSql => exact rest _ _ monitors
    | ddlSql => exact rest _ _ monitors
    | dropSql => exact rest _ _ monitors
    | teardownSql => exact rest _ _ monitors
    | installTriggers => exact rest _ _ monitors
    | removeTriggers => exact rest _ _ monitors

def dropOrders (lsn : UInt64) : SchemaStatement where
  lsn
  tgTag := "DROP TABLE"
  currentQuery := "DROP TABLE public.orders"
  commands := []
  dropped := [⟨"table", "public", "orders"⟩, ⟨"sequence", "public", "orders_id_seq"⟩]

/-- The triggers are called in the order of the catalogue, and no function raises an error. -/
def inCatalogueOrder : Firing where
  messages catalogue statement := (fired catalogue statement).flatMap (emitted statement)
  calls _ _ := .inr ⟨_, .refl _, rfl⟩
  stands _ _ _ := ⟨_, .refl _, rfl⟩

/-- The script comes too late for the first drop, and in time for the second. -/
theorem drops_reported_since_script_again :
    ∃ upper, ((([.captureSql, .installTriggers, .dropSql, .statement (dropOrders 5), .removeTriggers, .dropSql,
        .statement (dropOrders 9)] : List CatalogueAction).foldl (channelStep upper inCatalogueOrder)
          (.empty, .new ["public.orders"])).2).buffer.pending =
      [⟨9, "public.orders", .dropTable, "DROP TABLE"⟩] := by
  refine ⟨fun letter => [letter], ?_⟩
  have oneDot : OneDot ["public.orders"] := by simp [OneDot]
  have wellNamed : ∀ lsn, (dropOrders lsn).WellNamed := by
    intro lsn
    exact ⟨by simp [dropOrders], by simp [dropOrders], by simp [dropOrders]⟩
  have named : ∀ statement, .statement statement ∈ ([.captureSql, .installTriggers, .dropSql,
      .statement (dropOrders 5), .removeTriggers, .dropSql, .statement (dropOrders 9)] : List CatalogueAction) →
      statement.WellNamed := by
    intro statement member
    simp only [List.mem_cons, List.not_mem_nil, reduceCtorEq, CatalogueAction.statement.injEq, false_or,
      or_false] at member
    rcases member with rfl | rfl
    · exact wellNamed 5
    · exact wellNamed 9
  rw [(drops_reported_since_script _ inCatalogueOrder oneDot named).1]
  decide

/-! ## The status of the triggers -/

/-- The actions that leave a trigger behind, whether it is new or not. -/
def Installs (catalogue : Catalogue) (action : CatalogueAction) : Prop :=
  action = .dropSql ∨ (action = .ddlSql ∨ action = .installTriggers) ∧ .nendiCaptureDdl ∈ catalogue.functions

theorem created_triggers_eq_nil (catalogue : Catalogue) (name event : String) (function : CaptureFunction) :
    (created catalogue name event function).triggers = [] ↔
      function ∉ catalogue.functions ∧ catalogue.triggers = [] := by
  by_cases there : function ∈ catalogue.functions
  · by_cases free : called catalogue name = []
    · simp [created, there, free]
    · have some : catalogue.triggers ≠ [] := by
        intro none
        simp [called, none] at free
      simp [created, there, free, some]
  · simp [created_missing _ _ _ there, there]

theorem triggers_change {catalogue : Catalogue} (installed : Installed catalogue) (action : CatalogueAction) :
    (changeCatalogue catalogue action).triggers ≠ [] ↔
      Installs catalogue action ∨ catalogue.triggers ≠ [] ∧ ¬ action.Removes := by
  have removed : (EventTriggerHandler.removeTriggers catalogue).triggers = [] := by
    simp only [EventTriggerHandler.removeTriggers, Catalogue.dropEventTrigger, List.filter_filter,
      List.filter_eq_nil_iff]
    intro trigger member
    obtain rfl | ⟨function, rfl⟩ := installed.rows trigger member
    · simp
    · simp
  cases action with
  | captureSql => simp [changeCatalogue, Catalogue.captureSql, Catalogue.createFunction, Installs,
      CatalogueAction.removes_iff]
  | ddlSql =>
    simp [changeCatalogue, ddlSql_eq, created_triggers_eq_nil, Installs, CatalogueAction.removes_iff,
      imp_iff_not_or]
  | dropSql => simp [changeCatalogue, dropSql_eq, created_triggers_eq_nil, Installs]
  | teardownSql => simp [changeCatalogue, teardownSql_triggers, removed, Installs, CatalogueAction.removes_iff]
  | installTriggers =>
    simp [changeCatalogue, installTriggers_eq, created_triggers_eq_nil, Installs, CatalogueAction.removes_iff,
      imp_iff_not_or]
  | removeTriggers => simp [changeCatalogue, removed, Installs, CatalogueAction.removes_iff]
  | statement statement => simp [changeCatalogue, Installs, CatalogueAction.removes_iff]

theorem checkTriggers_eq (driver : Driver) {catalogue : Catalogue} (installed : Installed catalogue) :
    EventTriggerHandler.checkTriggers driver catalogue = if catalogue.triggers = [] then .ok [] else .error .panic := by
  -- `evtenabled` cannot be read into a `String`
  have all : (catalogue.triggers.filter fun trigger => EventTriggerHandler.likeNendi trigger.evtname) =
      catalogue.triggers := by
    rw [List.filter_eq_self]
    intro trigger member
    obtain rfl | ⟨function, rfl⟩ := installed.rows trigger member
    · decide
    · exact (by decide : EventTriggerHandler.likeNendi "nendi_drop_trigger" = true)
  rw [EventTriggerHandler.checkTriggers, all]
  cases catalogue.triggers with
  | nil => rfl
  | cons trigger triggers =>
    have panics : EventTriggerHandler.triggerStatus driver trigger = .error .panic := by
      simp [EventTriggerHandler.triggerStatus, EventTriggerHandler.get, driver.reads, driver.refuses, bind, Except.bind]
    rw [List.mapM_cons, if_neg (List.cons_ne_nil _ _), panics]
    rfl

/-- `check_triggers` can report that there is no trigger and nothing else: it panics from the
first installation, by whomever, until the triggers are removed. -/
theorem check_confirms_no_trigger (driver : Driver) (past : List CatalogueAction) :
    (∀ statuses, EventTriggerHandler.checkTriggers driver (catalogueAfter past) = .ok statuses → statuses = []) ∧
      (EventTriggerHandler.checkTriggers driver (catalogueAfter past) = .error .panic ↔
        ∃ before action after, past = before ++ action :: after ∧ Installs (catalogueAfter before) action ∧
          ∀ later ∈ after, ¬ later.Removes) := by
  have since := @holds_iff_since _ (fun past => (catalogueAfter past).triggers ≠ [])
    (fun before action => Installs (catalogueAfter before) action) CatalogueAction.Removes (by decide)
    (fun past action => by rw [catalogueAfter_snoc]; exact triggers_change (Installed.after past) action) past
  rw [← since, checkTriggers_eq driver (Installed.after past)]
  by_cases none : (catalogueAfter past).triggers = []
  · simp [none]
  · simp [none]

end Nendi.Verified
