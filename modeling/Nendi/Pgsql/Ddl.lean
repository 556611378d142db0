import Mathlib.Data.List.DropRight
import Nendi.Lib.Cursor
import Nendi.Lib.Text

/-! # Changes of the schema

The event trigger function of `sql/pgsql/function/capture.sql`, which writes a text
message for every table a DDL statement touches, and its reader: `parse_ddl_message`
and `DdlHandler` of `services/pgsql/src/trigger/ddl` over the `DdlBuffer` of
`services/pgsql/src/schema/buffer.rs`.

`str::to_uppercase` is the Unicode mapping of the standard library, character by
character; the reader is parametric in it (`upper`). -/

namespace Nendi.Pgsql

open Nendi.Lib

/-! ## The trigger -/

/-- A row of `pg_event_trigger_ddl_commands()`. -/
structure DdlCommand where
  objectType : String
  schemaName : String
  objectIdentity : String
deriving DecidableEq, Repr

/-- The messages that `nendi_capture_ddl` emits under the prefix `nendi_ddl`. -/
def nendiCaptureDdl (tgTag currentQuery : String) (commands : List DdlCommand) : List String :=
  commands.filterMap fun obj =>
    if obj.objectType ∈ ["table", "table column"] then
      let tblName := obj.schemaName ++ "." ++ obj.objectIdentity
      some (tgTag ++ "|" ++ tblName ++ "|" ++ currentQuery)
    else none

/-! ## The parser -/

inductive DdlKind where
  | alterTable
  | dropTable
  | renameTable (newName : String)
  | addColumn (column : String)
  | dropColumn (column : String)
  | alterColumn (column : String)
  | other
deriving DecidableEq, Repr

structure ParsedDdl where
  table : String
  kind : DdlKind
  statement : String
deriving DecidableEq, Repr

section Parser

variable (upper : Char → List Char)

/-- The common body of `extract_new_name` and `extract_column_name`.  The offset is one
    of the upper-cased copy and the slice is of the statement itself. -/
def extractName (keyword : String) (skip : Nat) (stmt : String) : Exec String (Option String) :=
  match findBytes keyword.toList (stmt.toList.flatMap upper) with
  | none => .ok none
  | some pos =>
    match dropBytes (pos + skip) stmt.toList with
    -- past the end, or not at the start of a character
    | none => .error .panic
    | some after =>
      .ok ((firstWord after).map fun name => String.ofList (name.rdropWhile (· = ';')))

def extractNewName (stmt : String) : Exec String (Option String) :=
  extractName upper "RENAME TO " 10 stmt

def extractColumnName (stmt : String) : Exec String (Option String) :=
  extractName upper "COLUMN " 7 stmt

def ddlKind (ddlType statement : String) : Exec String DdlKind :=
  if ddlType = "ALTER_TABLE" then .ok .alterTable
  else if ddlType = "DROP_TABLE" then .ok .dropTable
  else if ddlType = "RENAME_TABLE" then
    (extractNewName upper statement).map fun name => .renameTable (name.getD "")
  else if ddlType = "ADD_COLUMN" then
    (extractColumnName upper statement).map fun col => .addColumn (col.getD "")
  else if ddlType = "DROP_COLUMN" then
    (extractColumnName upper statement).map fun col => .dropColumn (col.getD "")
  else if ddlType = "ALTER_COLUMN" then
    (extractColumnName upper statement).map fun col => .alterColumn (col.getD "")
  -- every other tag is accepted, and its statement is not looked at
  else .ok .other

def parseDdlMessage (content : String) : Exec String ParsedDdl :=
  match splitn 3 '|' content with
  | [ddlType, table, statement] =>
    (ddlKind upper ddlType statement).map fun kind => { table, kind, statement }
  | _ => .error (.err s!"invalid DDL message format: {content}")

theorem parseDdlMessage_written {ddlType table : String} (plainType : '|' ∉ ddlType.toList)
    (plainTable : '|' ∉ table.toList) (statement : String) :
    parseDdlMessage upper (ddlType ++ "|" ++ table ++ "|" ++ statement) =
      (ddlKind upper ddlType statement).map fun kind => { table, kind, statement } := by
  have written : ddlType ++ "|" ++ table ++ "|" ++ statement =
      ddlType ++ String.singleton '|' ++ (table ++ String.singleton '|' ++ statement) := by
    simp only [String.append_assoc]
    rfl
  have parts : splitn 3 '|' (ddlType ++ "|" ++ table ++ "|" ++ statement) =
      [ddlType, table, statement] := by
    rw [written, splitn_append plainType, splitn_append plainTable, splitn]
  simp only [parseDdlMessage, parts]

end Parser

/-! ## The buffer -/

structure DdlChange where
  lsn : UInt64
  table : String
  kind : DdlKind
  statement : String
deriving DecidableEq, Repr

structure DdlBuffer where
  pending : List DdlChange
deriving DecidableEq, Repr

namespace DdlBuffer

def new : DdlBuffer := ⟨[]⟩

def push (buffer : DdlBuffer) (change : DdlChange) : DdlBuffer := ⟨buffer.pending ++ [change]⟩

def drainUpTo (buffer : DdlBuffer) (lsn : UInt64) : List DdlChange × DdlBuffer :=
  let (ready, remaining) := buffer.pending.partition (·.lsn ≤ lsn)
  (ready, ⟨remaining⟩)

end DdlBuffer

/-! ## The handler -/

structure DdlHandler where
  buffer : DdlBuffer
  monitoredTables : List String
deriving DecidableEq, Repr

namespace DdlHandler

def new (monitoredTables : List String) : DdlHandler := ⟨.new, monitoredTables⟩

def isMonitored (handler : DdlHandler) (table : String) : Bool :=
  handler.monitoredTables.any (· == table)

def handleDdlMessage (upper : Char → List Char) (handler : DdlHandler) (lsn : UInt64) (content : String) :
    Exec String Unit × DdlHandler :=
  match parseDdlMessage upper content with
  | .error fault => (.error fault, handler)
  | .ok parsed =>
    if handler.isMonitored parsed.table then
      (.ok (), { handler with
        buffer := handler.buffer.push ⟨lsn, parsed.table, parsed.kind, parsed.statement⟩ })
    else (.ok (), handler)

def drainUpTo (handler : DdlHandler) (lsn : UInt64) : List DdlChange × DdlHandler :=
  let (ready, buffer) := handler.buffer.drainUpTo lsn
  (ready, { handler with buffer })

def setMonitoredTables (handler : DdlHandler) (tables : List String) : DdlHandler :=
  { handler with monitoredTables := tables }

end DdlHandler

end Nendi.Pgsql
