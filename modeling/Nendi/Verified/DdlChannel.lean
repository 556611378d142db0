import Nendi.Pgsql.SqlFunctions

/-! # What the handler learns of schema changes

Every statement on the schema fires the two event triggers of `sql/pgsql/trigger`, in whichever
order, and their messages reach `DdlHandler` at the LSN of the statement.  The message about a dropped table
names it as the publication does.  The one about an altered table qualifies the name twice,
so it is about no monitored table.  Over a whole history the handler therefore buffers the
drops of monitored tables and nothing else. -/

namespace Nendi.Verified

open Nendi.Lib Nendi.Pgsql

/-! ## Statements and their messages -/

def dropOf (tables : List String) (lsn : UInt64) (obj : DroppedObject) : Option DdlChange :=
  let table := obj.schemaName ++ "." ++ obj.objectName
  if obj.objectType = "table" ∧ table ∈ tables then some ⟨lsn, table, .dropTable, "DROP TABLE"⟩ else none

/-- A statement, with what the functions of the two triggers find out about it. -/
structure SchemaStatement where
  lsn : UInt64
  tgTag : String
  currentQuery : String
  commands : List DdlCommand
  dropped : List DroppedObject

namespace SchemaStatement

/-- What the two functions emit about the statement, one after the other. -/
def Emits (statement : SchemaStatement) (messages : List String) : Prop :=
  let drops := nendiCaptureDrop statement.dropped
  let commands := nendiCaptureDdl statement.tgTag statement.currentQuery statement.commands
  messages = drops ++ commands ∨ messages = commands ++ drops

/-- No name has the separator of the messages in it, and an identity begins with the schema. -/
structure WellNamed (statement : SchemaStatement) : Prop where
  tag : '|' ∉ statement.tgTag.toList
  commands : ∀ obj ∈ statement.commands,
    '|' ∉ obj.schemaName.toList ∧ '|' ∉ obj.objectIdentity.toList ∧ '.' ∈ obj.objectIdentity.toList
  dropped : ∀ obj ∈ statement.dropped, '|' ∉ obj.schemaName.toList ∧ '|' ∉ obj.objectName.toList

/-- The drops of monitored tables among the objects that the statement drops. -/
def drops (tables : List String) (statement : SchemaStatement) : List DdlChange :=
  statement.dropped.filterMap (dropOf tables statement.lsn)

end SchemaStatement

def handleAll (upper : Char → List Char) (lsn : UInt64) (handler : DdlHandler) (messages : List String) : DdlHandler :=
  messages.foldl (fun handler message => (handler.handleDdlMessage upper lsn message).2) handler

def observe (upper : Char → List Char) (handler : DdlHandler) (history : List (SchemaStatement × List String)) :
    DdlHandler :=
  history.foldl (fun handler entry => handleAll upper entry.1.lsn handler entry.2) handler

def buffering (handler : DdlHandler) (changes : List DdlChange) : DdlHandler :=
  { handler with buffer := ⟨handler.buffer.pending ++ changes⟩ }

@[simp] theorem buffering_nil (handler : DdlHandler) : buffering handler [] = handler := by
  simp [buffering]

@[simp] theorem buffering_buffering (handler : DdlHandler) (first second : List DdlChange) :
    buffering (buffering handler first) second = buffering handler (first ++ second) := by
  simp [buffering]

theorem buffering_monitors {handler : DdlHandler} {tables : List String} (monitors : handler.monitoredTables = tables)
    (changes : List DdlChange) : (buffering handler changes).monitoredTables = tables := monitors

/-! ## One message -/

section Message

variable (upper : Char → List Char) (handler : DdlHandler) (lsn : UInt64)

theorem handle_written {tag table query : String} {kind : DdlKind} (plainTag : '|' ∉ tag.toList)
    (plainTable : '|' ∉ table.toList) (known : ddlKind upper tag query = .ok kind) :
    (handler.handleDdlMessage upper lsn (tag ++ "|" ++ table ++ "|" ++ query)).2 =
      buffering handler (if table ∈ handler.monitoredTables then [⟨lsn, table, kind, query⟩] else []) := by
  rw [DdlHandler.handleDdlMessage, parseDdlMessage_written upper plainTag plainTable, known]
  by_cases monitored : table ∈ handler.monitoredTables
  · simp [Except.map, DdlHandler.isMonitored, monitored, buffering, DdlBuffer.push]
  · simp [Except.map, DdlHandler.isMonitored, monitored]

theorem handle_unmonitored {tag table : String} (plainTag : '|' ∉ tag.toList) (plainTable : '|' ∉ table.toList)
    (absent : table ∉ handler.monitoredTables) (query : String) :
    (handler.handleDdlMessage upper lsn (tag ++ "|" ++ table ++ "|" ++ query)).2 = handler := by
  cases kind : ddlKind upper tag query with
  | ok kind => rw [handle_written upper handler lsn plainTag plainTable kind, if_neg absent, buffering_nil]
  | error fault =>
    rw [DdlHandler.handleDdlMessage, parseDdlMessage_written upper plainTag plainTable, kind]
    rfl

theorem filterMap_cons_toList {α β : Type} (f : α → Option β) (item : α) (items : List α) :
    (item :: items).filterMap f = (f item).toList ++ items.filterMap f := by
  cases found : f item with
  | none => simp [found]
  | some value => simp [found]

theorem handleAll_append (handler : DdlHandler) (first second : List String) :
    handleAll upper lsn handler (first ++ second) = handleAll upper lsn (handleAll upper lsn handler first) second :=
  List.foldl_append

theorem handleAll_filterMap {α : Type} {tables : List String} {message : α → Option String}
    {change : α → Option DdlChange} {objects : List α} {handler : DdlHandler}
    (handled : ∀ obj ∈ objects, ∀ handler : DdlHandler, handler.monitoredTables = tables →
      handleAll upper lsn handler (message obj).toList = buffering handler (change obj).toList)
    (monitors : handler.monitoredTables = tables) :
    handleAll upper lsn handler (objects.filterMap message) = buffering handler (objects.filterMap change) := by
  induction objects generalizing handler with
  | nil => simp [handleAll]
  | cons obj objects inductionHypothesis =>
    obtain ⟨first, rest⟩ := List.forall_mem_cons.mp handled
    have here := first handler monitors
    have later := inductionHypothesis rest (buffering_monitors monitors (change obj).toList)
    rw [filterMap_cons_toList, filterMap_cons_toList, handleAll_append, here, later, buffering_buffering]

end Message

/-! ## One statement -/

/-- A monitored table as the publication lists it: none of its two names has a dot. -/
def OneDot (tables : List String) : Prop := ∀ table ∈ tables, table.toList.count '.' = 1

section Statement

variable (upper : Char → List Char) {tables : List String} {handler : DdlHandler}

theorem handle_drops (lsn : UInt64) {objects : List DroppedObject} (monitors : handler.monitoredTables = tables)
    (plain : ∀ obj ∈ objects, '|' ∉ obj.schemaName.toList ∧ '|' ∉ obj.objectName.toList) :
    handleAll upper lsn handler (nendiCaptureDrop objects) =
      buffering handler (objects.filterMap (dropOf tables lsn)) := by
  refine handleAll_filterMap upper lsn ?_ monitors
  intro obj member handler monitors
  obtain ⟨plainSchema, plainName⟩ := plain obj member
  have plainTable : '|' ∉ (obj.schemaName ++ "." ++ obj.objectName).toList := by simp [plainSchema, plainName]
  have written : "DROP_TABLE|" ++ obj.schemaName ++ "." ++ obj.objectName ++ "|DROP TABLE" =
      "DROP_TABLE" ++ "|" ++ (obj.schemaName ++ "." ++ obj.objectName) ++ "|" ++ "DROP TABLE" := by
    simp only [String.append_assoc]
    rfl
  have handled := handle_written upper handler lsn (by decide : '|' ∉ "DROP_TABLE".toList) plainTable
    (rfl : ddlKind upper "DROP_TABLE" "DROP TABLE" = .ok .dropTable)
  rw [monitors] at handled
  by_cases isTable : obj.objectType = "table"
  · rw [if_pos isTable, Option.toList_some, written, handleAll, List.foldl_cons, handled, dropOf]
    split <;> simp_all
  · simp [isTable, handleAll, dropOf]

theorem handle_alters (lsn : UInt64) {tag : String} (query : String) {commands : List DdlCommand}
    (monitors : handler.monitoredTables = tables) (oneDot : OneDot tables) (plainTag : '|' ∉ tag.toList)
    (named : ∀ obj ∈ commands,
      '|' ∉ obj.schemaName.toList ∧ '|' ∉ obj.objectIdentity.toList ∧ '.' ∈ obj.objectIdentity.toList) :
    handleAll upper lsn handler (nendiCaptureDdl tag query commands) = handler := by
  -- a name that is qualified twice is not monitored
  have ignored : handleAll upper lsn handler (nendiCaptureDdl tag query commands) =
      buffering handler (commands.filterMap fun _ => none) := by
    refine handleAll_filterMap upper lsn ?_ monitors
    intro obj member handler monitors
    obtain ⟨plainSchema, plainIdentity, qualified⟩ := named obj member
    have plainTable : '|' ∉ (obj.schemaName ++ "." ++ obj.objectIdentity).toList := by
      simp [plainSchema, plainIdentity]
    -- the dot in the identity, and the one the function puts in front of it
    have twoDots : 2 ≤ (obj.schemaName ++ "." ++ obj.objectIdentity).toList.count '.' := by
      have inside := List.count_pos_iff.mpr qualified
      simp
      omega
    have absent : obj.schemaName ++ "." ++ obj.objectIdentity ∉ handler.monitoredTables := by
      intro monitored
      rw [monitors] at monitored
      have one := oneDot _ monitored
      omega
    have unheard := handle_unmonitored upper handler lsn plainTag plainTable absent query
    split
    · simpa [handleAll] using unheard
    · simp [handleAll]
  simpa using ignored

theorem handle_statement {statement : SchemaStatement} {messages : List String} (emits : statement.Emits messages)
    (named : statement.WellNamed) (oneDot : OneDot tables) (monitors : handler.monitoredTables = tables) :
    handleAll upper statement.lsn handler messages = buffering handler (statement.drops tables) := by
  obtain rfl | rfl := emits
  · rw [handleAll_append, handle_drops upper _ monitors named.dropped,
      handle_alters upper _ _ (buffering_monitors monitors _) oneDot named.tag named.commands]
    rfl
  · rw [handleAll_append, handle_alters upper _ _ monitors oneDot named.tag named.commands,
      handle_drops upper _ monitors named.dropped]
    rfl

end Statement

/-! ## Whole histories -/

/-- The handler has buffered the drops of monitored tables, in their order and at their LSNs,
    and it has learnt of no other change. -/
theorem only_drops_reported (upper : Char → List Char) {tables : List String} (oneDot : OneDot tables)
    {history : List (SchemaStatement × List String)}
    (emits : ∀ entry ∈ history, entry.1.Emits entry.2) (named : ∀ entry ∈ history, entry.1.WellNamed) :
    observe upper (.new tables) history = ⟨⟨history.flatMap fun entry => entry.1.drops tables⟩, tables⟩ := by
  suffices general : ∀ handler : DdlHandler, handler.monitoredTables = tables →
      observe upper handler history = buffering handler (history.flatMap fun entry => entry.1.drops tables) by
    rw [general (.new tables) rfl]
    rfl
  induction history with
  | nil => simp [observe]
  | cons entry history inductionHypothesis =>
    obtain ⟨firstEmits, restEmit⟩ := List.forall_mem_cons.mp emits
    obtain ⟨first, rest⟩ := List.forall_mem_cons.mp named
    intro handler monitors
    have here := handle_statement upper firstEmits first oneDot monitors
    have later := inductionHypothesis restEmit rest _ (buffering_monitors monitors (entry.1.drops tables))
    rw [observe] at later ⊢
    rw [List.foldl_cons, here, later, buffering_buffering, List.flatMap_cons]

/-- `ALTER TABLE public.orders ADD COLUMN status text`, then `DROP TABLE public.orders` with
    its sequence. -/
def ordersHistory : List (SchemaStatement × List String) := [
  ({ lsn := 5, tgTag := "ALTER TABLE", currentQuery := "ALTER TABLE public.orders ADD COLUMN status text"
     commands := [⟨"table", "public", "public.orders"⟩], dropped := [] },
    ["ALTER TABLE|public.public.orders|ALTER TABLE public.orders ADD COLUMN status text"]),
  ({ lsn := 9, tgTag := "DROP TABLE", currentQuery := "DROP TABLE public.orders"
     commands := []
     dropped := [⟨"table", "public", "orders"⟩, ⟨"sequence", "public", "orders_id_seq"⟩] },
    ["DROP_TABLE|public.orders|DROP TABLE"])]

theorem only_drops_reported_orders :
    ∃ upper, (observe upper (.new ["public.orders"]) ordersHistory).buffer.pending =
      [⟨9, "public.orders", .dropTable, "DROP TABLE"⟩] := by
  refine ⟨fun letter => [letter], ?_⟩
  have oneDot : OneDot ["public.orders"] := by simp [OneDot]
  have emits : ∀ entry ∈ ordersHistory, entry.1.Emits entry.2 := by
    intro entry member
    simp only [ordersHistory, List.mem_cons, List.not_mem_nil, or_false] at member
    rcases member with rfl | rfl
    · exact .inl (by decide)
    · exact .inl (by decide)
  have named : ∀ entry ∈ ordersHistory, entry.1.WellNamed := by
    intro entry member
    simp only [ordersHistory, List.mem_cons, List.not_mem_nil, or_false] at member
    rcases member with rfl | rfl
    · exact ⟨by simp, by simp, by simp⟩
    · exact ⟨by simp, by simp, by simp⟩
  rw [only_drops_reported _ oneDot emits named]
  decide

end Nendi.Verified
