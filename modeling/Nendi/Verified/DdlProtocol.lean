import Nendi.Pgsql.Ddl
import Nendi.Shared.Event

/-! # The DDL messages and their reader

The trigger writes `ALTER TABLE|s.s.t|…` for a statement on the table `s.t`: its tag has
a blank where the reader expects an underscore, and the identity it qualifies with the
schema is qualified already.  The reader finds neither a kind it knows nor a table that
is monitored. -/

namespace Nendi.Verified

open Nendi.Lib Nendi.Shared Nendi.Pgsql

/-- A lower-case identifier that needs no quotes. -/
structure PlainName where
  text : String
  nonempty : text ≠ ""
  plain : ∀ letter ∈ text.toList, letter.isLower ∨ letter.isDigit ∨ letter = '_'

def tableOf (schema table : PlainName) : TableId := ⟨schema.text, table.text⟩

/-- How PostgreSQL reports an altered table. -/
def alteredTable (schema table : PlainName) : DdlCommand where
  objectType := "table"
  schemaName := schema.text
  objectIdentity := (tableOf schema table).qualified

/-- The message for a statement on the table makes the handler buffer one change of this
    table, of a kind it knows. -/
def Captures (upper : Char → List Char) (handler : DdlHandler) (lsn : UInt64) (schema table : PlainName)
    (stmt : String) : Prop :=
  ∃ message kind, nendiCaptureDdl "ALTER TABLE" stmt [alteredTable schema table] = [message] ∧
    kind ≠ .other ∧
    handler.handleDdlMessage upper lsn message =
      (.ok (), { handler with buffer := handler.buffer.push ⟨lsn, (tableOf schema table).qualified, kind, stmt⟩ })

/-! ## What is written and what is read -/

theorem PlainName.no_bar (name : PlainName) : '|' ∉ name.text.toList := by
  intro member
  have plain := name.plain '|' member
  simp at plain

def writtenName (schema table : PlainName) : String := schema.text ++ "." ++ (tableOf schema table).qualified

theorem captured_message (schema table : PlainName) (stmt : String) :
    nendiCaptureDdl "ALTER TABLE" stmt [alteredTable schema table] =
      ["ALTER TABLE" ++ "|" ++ writtenName schema table ++ "|" ++ stmt] := rfl

theorem parse_captured (upper : Char → List Char) (schema table : PlainName) (stmt : String) :
    parseDdlMessage upper ("ALTER TABLE" ++ "|" ++ writtenName schema table ++ "|" ++ stmt) =
      .ok ⟨writtenName schema table, .other, stmt⟩ := by
  have plain : '|' ∉ (writtenName schema table).toList := by
    simp [writtenName, TableId.qualified_toList, tableOf, schema.no_bar, table.no_bar]
  rw [parseDdlMessage_written upper (by decide) plain]
  rfl

theorem handle_captured (upper : Char → List Char) (handler : DdlHandler) (lsn : UInt64)
    (schema table : PlainName) (stmt : String) :
    handler.handleDdlMessage upper lsn
        ("ALTER TABLE" ++ "|" ++ writtenName schema table ++ "|" ++ stmt) =
      (.ok (), if handler.isMonitored (writtenName schema table) then
        { handler with buffer := handler.buffer.push ⟨lsn, writtenName schema table, .other, stmt⟩ }
      else handler) := by
  simp only [DdlHandler.handleDdlMessage, parse_captured]
  split <;> rfl

theorem push_ne (buffer : DdlBuffer) (change : DdlChange) : buffer.push change ≠ buffer := by
  intro same
  have length := congrArg (fun buffer => buffer.pending.length) same
  simp [DdlBuffer.push] at length

theorem push_inj {buffer : DdlBuffer} {first second : DdlChange}
    (same : buffer.push first = buffer.push second) : first = second := by
  simpa [DdlBuffer.push] using same

/-- No statement on any table is captured, whatever the handler monitors. -/
theorem alter_table_never_captured (upper : Char → List Char) (handler : DdlHandler) (lsn : UInt64)
    (schema table : PlainName) (stmt : String) : ¬ Captures upper handler lsn schema table stmt := by
  rintro ⟨message, kind, emitted, known, handled⟩
  rw [captured_message, List.cons.injEq] at emitted
  rw [← emitted.1, handle_captured, Prod.mk.injEq] at handled
  have buffers := congrArg DdlHandler.buffer handled.2
  -- a change of unknown kind has been pushed, or none at all
  split at buffers
  next monitored => exact known (congrArg DdlChange.kind (push_inj buffers)).symm
  next ignored => exact push_ne _ _ buffers.symm

def publicSchema : PlainName := ⟨"public", by simp, by simp⟩

def ordersTable : PlainName := ⟨"orders", by simp, by simp⟩

/-- A new column of `public.orders` is not noticed by a handler that monitors the table. -/
theorem new_column_is_not_captured :
    (DdlHandler.new ["public.orders"]).isMonitored "public.orders" = true ∧
      ¬ ∃ upper, Captures upper (DdlHandler.new ["public.orders"]) 7 publicSchema ordersTable
        "ALTER TABLE public.orders ADD COLUMN status text" := by
  refine ⟨by decide, ?_⟩
  rintro ⟨upper, message, kind, emitted, _, handled⟩
  rw [captured_message, List.cons.injEq] at emitted
  rw [← emitted.1, handle_captured, Prod.mk.injEq] at handled
  exact push_ne _ _ (congrArg DdlHandler.buffer handled.2).symm

end Nendi.Verified
