import Nendi.Pgsql.Slot
import Nendi.Pgsql.SqlFunctions

/-! # Event triggers

`EventTriggerHandler` of `services/pgsql/src/trigger/event/handler.rs`, and the scripts under
`sql/pgsql` that create and drop the same triggers and their functions.  A statement of a
script that fails changes nothing, and the script goes on.  When a trigger fires and what comes of
it is up to the server. -/

namespace Nendi.Pgsql

open Nendi.Lib

/-! ## The catalogue -/

inductive CaptureFunction where
  | nendiCaptureDdl
  | nendiCaptureDrop
deriving DecidableEq, Repr

def CaptureFunction.name : CaptureFunction → String
  | .nendiCaptureDdl => "nendi_capture_ddl"
  | .nendiCaptureDrop => "nendi_capture_drop"

/-- A row of `pg_event_trigger`. -/
structure EventTrigger where
  evtname : String
  evtevent : String
  evtenabled : Char
  evtfoid : CaptureFunction
deriving DecidableEq, Repr

structure Catalogue where
  functions : List CaptureFunction
  triggers : List EventTrigger
deriving DecidableEq, Repr

inductive CatalogueError where
  | triggerExists (name : String)
  | noFunction (function : CaptureFunction)
  -- a trigger depends on the function
  | functionInUse (function : CaptureFunction)
deriving DecidableEq, Repr

namespace Catalogue

def empty : Catalogue := ⟨[], []⟩

def hasTrigger (catalogue : Catalogue) (name : String) : Bool :=
  catalogue.triggers.any fun trigger => decide (trigger.evtname = name)

/-- `CREATE OR REPLACE FUNCTION`. -/
def createFunction (catalogue : Catalogue) (function : CaptureFunction) : Catalogue :=
  { catalogue with functions := catalogue.functions.insert function }

/-- `CREATE EVENT TRIGGER`; a new trigger is enabled. -/
def createEventTrigger (catalogue : Catalogue) (name event : String) (function : CaptureFunction) :
    Except CatalogueError Catalogue :=
  if catalogue.hasTrigger name then .error (.triggerExists name)
  else if function ∈ catalogue.functions then
    .ok { catalogue with triggers := catalogue.triggers ++ [⟨name, event, 'O', function⟩] }
  else .error (.noFunction function)

/-- `DROP EVENT TRIGGER IF EXISTS`. -/
def dropEventTrigger (catalogue : Catalogue) (name : String) : Catalogue :=
  { catalogue with triggers := catalogue.triggers.filter fun trigger => decide (trigger.evtname ≠ name) }

/-- `DROP FUNCTION IF EXISTS`. -/
def dropFunction (catalogue : Catalogue) (function : CaptureFunction) : Except CatalogueError Catalogue :=
  if catalogue.triggers.any fun trigger => decide (trigger.evtfoid = function) then
    .error (.functionInUse function)
  else .ok { catalogue with functions := catalogue.functions.erase function }

def attempt (catalogue : Catalogue) (statement : Catalogue → Except CatalogueError Catalogue) : Catalogue :=
  match statement catalogue with
  | .ok changed => changed
  | .error _ => catalogue

/-! ## Scripts -/

/-- `sql/pgsql/function/capture.sql` -/
def captureSql (catalogue : Catalogue) : Catalogue := catalogue.createFunction .nendiCaptureDdl

/-- `sql/pgsql/trigger/ddl.sql` -/
def ddlSql (catalogue : Catalogue) : Catalogue :=
  catalogue.attempt (·.createEventTrigger "nendi_ddl_trigger" "ddl_command_end" .nendiCaptureDdl)

/-- `sql/pgsql/trigger/drop.sql` -/
def dropSql (catalogue : Catalogue) : Catalogue :=
  (catalogue.createFunction .nendiCaptureDrop).attempt
    (·.createEventTrigger "nendi_drop_trigger" "sql_drop" .nendiCaptureDrop)

/-- What `sql/pgsql/teardown/slot.sql` does to triggers and their functions. -/
def teardownSql (catalogue : Catalogue) : Catalogue :=
  let bare := (catalogue.dropEventTrigger "nendi_ddl_trigger").dropEventTrigger "nendi_drop_trigger"
  (bare.attempt (·.dropFunction .nendiCaptureDdl)).attempt (·.dropFunction .nendiCaptureDrop)

end Catalogue

/-! ## The handler -/

inductive EventTriggerKind where
  | ddlCommand
  | sqlDrop
  | tableRewrite
deriving DecidableEq, Repr

structure EventTriggerStatus where
  name : String
  kind : EventTriggerKind
  enabled : Bool
  functionName : String
deriving DecidableEq, Repr

namespace EventTriggerHandler

/-- The block that creates a trigger `IF NOT EXISTS`. -/
def ensureTrigger (name event : String) (function : CaptureFunction) (catalogue : Catalogue) :
    Except CatalogueError Catalogue :=
  if catalogue.hasTrigger name then .ok catalogue else catalogue.createEventTrigger name event function

def installTriggers (catalogue : Catalogue) : Except CatalogueError Unit × Catalogue :=
  -- both triggers call `nendi_capture_ddl`, the one for drops too
  match ensureTrigger "nendi_ddl_trigger" "ddl_command_end" .nendiCaptureDdl catalogue with
  | .error fault => (.error fault, catalogue)
  | .ok catalogue =>
    match ensureTrigger "nendi_drop_trigger" "sql_drop" .nendiCaptureDdl catalogue with
    | .error fault => (.error fault, catalogue)
    | .ok catalogue => (.ok (), catalogue)

/-- `LIKE 'nendi_%'`, where the underscore stands for any character. -/
def likeNendi (name : String) : Bool := "nendi".toList.isPrefixOf name.toList && decide (6 ≤ name.toList.length)

def get (driver : Driver) (cell : Cell) : Exec CatalogueError String :=
  match driver.getStr cell with
  | some text => .ok text
  | none => .error .panic

def triggerStatus (driver : Driver) (trigger : EventTrigger) : Exec CatalogueError EventTriggerStatus := do
  -- the columns are of the types `name`, `name`, `"char"` and `text`
  let name ← get driver ⟨.name, trigger.evtname⟩
  let event ← get driver ⟨.name, trigger.evtevent⟩
  let enabled ← get driver ⟨.char, trigger.evtenabled.toString⟩
  let func ← get driver ⟨.text, trigger.evtfoid.name⟩
  let kind :=
    if event = "ddl_command_end" then EventTriggerKind.ddlCommand
    else if event = "sql_drop" then .sqlDrop
    else if event = "table_rewrite" then .tableRewrite
    else .ddlCommand
  return { name, kind, enabled := enabled != "D", functionName := func }

def checkTriggers (driver : Driver) (catalogue : Catalogue) : Exec CatalogueError (List EventTriggerStatus) :=
  (catalogue.triggers.filter fun trigger => likeNendi trigger.evtname).mapM (triggerStatus driver)

def removeTriggers (catalogue : Catalogue) : Catalogue :=
  (catalogue.dropEventTrigger "nendi_ddl_trigger").dropEventTrigger "nendi_drop_trigger"

end EventTriggerHandler

end Nendi.Pgsql
