import Nendi.Http.Webhook
import Nendi.Lib.Json

/-! # Webhook payloads as JSON texts

The payload is put together without escaping.  The value behind `table` is read back as the
name of the table only if the name has no quote, no backslash and no control character; any
other name makes the receiver read something else, or nothing at all.
-/

namespace Nendi.Verified

open Nendi.Lib Nendi.Shared Nendi.Http

/-- The object has a member of this name, and all members of this name have this value. -/
def HasMember (members : List (String × Json)) (name : String) (value : Json) : Prop :=
  (name, value) ∈ members ∧ ∀ other, (name, other) ∈ members → other = value

/-- An object with the members of an event. -/
inductive ObjectOf : Json → ChangeEvent → Prop where
  | object {members : List (String × Json)} {event : ChangeEvent}
      (lsn : HasMember members "lsn" (.num event.lsn.toNat))
      (xid : HasMember members "xid" (.num event.xid.toNat))
      (op : HasMember members "op" (.str event.op.asStr))
      (table : HasMember members "table" (.str event.table.qualified))
      (ts : HasMember members "ts" (.num event.commitTimestampUs.toInt)) : ObjectOf (.obj members) event

/-- A JSON text whose value is an array with an object for each event, in their order. -/
def FaithfulPayload (payload : String) (events : List ChangeEvent) : Prop :=
  (∃ value, ReadsJson payload value) ∧
    ∀ value, ReadsJson payload value → ∃ items, value = .arr items ∧ List.Forall₂ ObjectOf items events

/-! ## One event -/

def afterTable (event : ChangeEvent) (tail : List Char) : List Char :=
  "ts".toList ++ '"' :: ':' :: (event.commitTimestampUs.toInt.repr.toList ++ '\x7d' :: tail)

theorem eventJson_toList (event : ChangeEvent) (tail : List Char) :
    (eventJson event).toList ++ tail =
      '\x7b' :: '"' :: ("lsn".toList ++ '"' :: ':' :: (event.lsn.toNat.repr.toList ++ ',' ::
        '"' :: ("xid".toList ++ '"' :: ':' :: (event.xid.toNat.repr.toList ++ ',' ::
        '"' :: ("op".toList ++ '"' :: ':' :: '"' :: (event.op.asStr.toList ++ '"' :: ',' ::
        '"' :: ("table".toList ++ '"' :: ':' :: '"' :: (event.table.qualified.toList ++ '"' :: ',' ::
        '"' :: afterTable event tail)))))))) := by
  have lsn : ∀ text, "\x7b\"lsn\":".toList ++ text = '\x7b' :: '"' :: ("lsn".toList ++ '"' :: ':' :: text) := fun _ => rfl
  have xid : ∀ text, ",\"xid\":".toList ++ text = ',' :: '"' :: ("xid".toList ++ '"' :: ':' :: text) := fun _ => rfl
  have op : ∀ text, ",\"op\":\"".toList ++ text = ',' :: '"' :: ("op".toList ++ '"' :: ':' :: '"' :: text) := fun _ => rfl
  have table : ∀ text, "\",\"table\":\"".toList ++ text =
      '"' :: ',' :: '"' :: ("table".toList ++ '"' :: ':' :: '"' :: text) := fun _ => rfl
  have ts : ∀ text, "\",\"ts\":".toList ++ text = '"' :: ',' :: '"' :: ("ts".toList ++ '"' :: ':' :: text) := fun _ => rfl
  have close : "\x7d".toList ++ tail = '\x7d' :: tail := rfl
  unfold eventJson afterTable
  rw [String.toList_append, String.toList_append, String.toList_append, String.toList_append, String.toList_append,
    String.toList_append, String.toList_append, String.toList_append, String.toList_append, String.toList_append]
  simp only [List.append_assoc]
  rw [lsn, xid, op, table, ts, close]

theorem asStr_unescaped (op : OpType) : Unescaped op.asStr.toList := by
  cases op <;> decide

theorem readsValue_event (event : ChangeEvent) (tail : List Char) {value : Json} {rest : List Char} :
    ReadsValue ((eventJson event).toList ++ tail) value rest ↔
      ∃ content next others,
        readString (event.table.qualified.toList ++ '"' :: ',' :: '"' :: afterTable event tail) = some (content, next) ∧
        ReadsMoreMembers next others rest ∧
        value = .obj (("lsn", .num event.lsn.toNat) :: ("xid", .num event.xid.toNat) ::
          ("op", .str event.op.asStr) :: ("table", .str (String.ofList content)) :: others) := by
  rw [eventJson_toList, readsValue_object]
  constructor
  · rintro ⟨members, reads, rfl⟩
    obtain ⟨_, readsXid, rfl⟩ := (readsMembers_number (by decide) _).mp reads
    obtain ⟨_, readsOp, rfl⟩ := (readsMembers_number (by decide) _).mp readsXid
    obtain ⟨_, readsTable, rfl⟩ := (readsMembers_string (by decide) (asStr_unescaped event.op)).mp readsOp
    obtain ⟨_, next, others, first, more, rfl⟩ := (readsMembers_iff (by decide)).mp readsTable
    obtain ⟨content, read, rfl⟩ := readsValue_string.mp first
    exact ⟨content, next, others, read, more, by simp only [String.ofList_toList]⟩
  · rintro ⟨content, next, others, read, more, rfl⟩
    have table : ReadsValue ('"' :: (event.table.qualified.toList ++ '"' :: ',' :: '"' :: afterTable event tail))
        (.str (String.ofList content)) next := readsValue_string.mpr ⟨content, read, rfl⟩
    refine ⟨_, (readsMembers_number (by decide) _).mpr ⟨_, (readsMembers_number (by decide) _).mpr ⟨_,
      (readsMembers_string (by decide) (asStr_unescaped event.op)).mpr ⟨_,
        (readsMembers_iff (by decide)).mpr ⟨_, next, others, table, more, rfl⟩, rfl⟩, rfl⟩, rfl⟩, ?_⟩
    simp only [String.ofList_toList]

/-- The object that an event is meant to be read as. -/
def eventObject (event : ChangeEvent) : Json :=
  .obj [("lsn", .num event.lsn.toNat), ("xid", .num event.xid.toNat), ("op", .str event.op.asStr),
    ("table", .str event.table.qualified), ("ts", .num event.commitTimestampUs.toInt)]

theorem readsMore_afterTable (event : ChangeEvent) (tail : List Char) {others : List (String × Json)}
    {rest : List Char} :
    ReadsMoreMembers (',' :: '"' :: afterTable event tail) others rest ↔
      others = [("ts", .num event.commitTimestampUs.toInt)] ∧ rest = tail := by
  rw [readsMoreMembers_more, afterTable, readsMembers_last (by decide), String.ofList_toList]

theorem readsValue_event_of_unescaped {event : ChangeEvent} (unescaped : Unescaped event.table.qualified.toList)
    (tail : List Char) {value : Json} {rest : List Char} :
    ReadsValue ((eventJson event).toList ++ tail) value rest ↔ value = eventObject event ∧ rest = tail := by
  have read := readString_unescaped unescaped (',' :: '"' :: afterTable event tail)
  rw [readsValue_event]
  constructor
  · rintro ⟨content, next, others, read', more, rfl⟩
    rw [read] at read'
    cases read'
    obtain ⟨rfl, rfl⟩ := (readsMore_afterTable event tail).mp more
    exact ⟨by rw [String.ofList_toList, eventObject], rfl⟩
  · rintro ⟨rfl, rfl⟩
    refine ⟨_, _, _, read, (readsMore_afterTable event rest).mpr ⟨rfl, rfl⟩, ?_⟩
    rw [String.ofList_toList, eventObject]

theorem unescaped_of_objectOf {event : ChangeEvent} {tail : List Char} {value : Json} {rest : List Char}
    (reads : ReadsValue ((eventJson event).toList ++ tail) value rest) (object : ObjectOf value event) :
    Unescaped event.table.qualified.toList := by
  -- an object that describes the event has been read from a plain name, to its end
  obtain ⟨content, next, others, read, _, rfl⟩ := (readsValue_event event tail).mp reads
  cases object with
  | object _ _ _ table _ =>
    have same := table.2 (.str (String.ofList content)) (by simp)
    have text : content = event.table.qualified.toList := by
      rw [← Json.str.inj same, String.toList_ofList]
    rw [text] at read
    exact (readString_eq_self read).1

theorem objectOf_eventObject (event : ChangeEvent) : ObjectOf (eventObject event) event := by
  constructor <;> simp [HasMember]

/-! ## All events -/

def moreText : List ChangeEvent → List Char
  | [] => [']']
  | event :: events => ',' :: ((eventJson event).toList ++ moreText events)

theorem intercalate_toList (event : ChangeEvent) (events : List ChangeEvent) :
    (",".intercalate ((event :: events).map eventJson)).toList ++ [']'] =
      (eventJson event).toList ++ moreText events := by
  induction events generalizing event with
  | nil => simp [moreText]
  | cons next events inductionHypothesis =>
    have comma : ∀ text, ",".toList ++ text = ',' :: text := fun _ => rfl
    have rest := inductionHypothesis next
    rw [List.map_cons] at rest
    rw [List.map_cons, List.map_cons, String.intercalate_cons_cons, String.toList_append, String.toList_append,
      List.append_assoc, List.append_assoc, rest, comma, moreText]

theorem buildPayload_toList (event : ChangeEvent) (events : List ChangeEvent) :
    (WebhookDispatcher.buildPayload (event :: events)).toList =
      '[' :: ((eventJson event).toList ++ moreText events) := by
  have bracket : ∀ text, "[".toList ++ text = '[' :: text := fun _ => rfl
  have close : "]".toList = [']'] := rfl
  rw [WebhookDispatcher.buildPayload, String.toList_append, String.toList_append, List.append_assoc, close,
    intercalate_toList, bracket]

theorem readsMoreItems_moreText {events : List ChangeEvent}
    (unescaped : ∀ event ∈ events, Unescaped event.table.qualified.toList) {items : List Json} {rest : List Char} :
    ReadsMoreItems (moreText events) items rest ↔ items = events.map eventObject ∧ rest = [] := by
  induction events generalizing items with
  | nil => exact readsMoreItems_stop
  | cons event events inductionHypothesis =>
    obtain ⟨first, others⟩ := List.forall_mem_cons.mp unescaped
    rw [moreText, readsMoreItems_more, readsItems_iff]
    constructor
    · rintro ⟨item, next, more, reads, readsMore, rfl⟩
      obtain ⟨rfl, rfl⟩ := (readsValue_event_of_unescaped first _).mp reads
      obtain ⟨rfl, rfl⟩ := (inductionHypothesis others).mp readsMore
      exact ⟨rfl, rfl⟩
    · rintro ⟨rfl, rfl⟩
      exact ⟨_, _, _, (readsValue_event_of_unescaped first _).mpr ⟨rfl, rfl⟩,
        (inductionHypothesis others).mpr ⟨rfl, rfl⟩, rfl⟩

theorem unescaped_of_readsMoreItems {events : List ChangeEvent} {items : List Json} {rest : List Char}
    (reads : ReadsMoreItems (moreText events) items rest) (objects : List.Forall₂ ObjectOf items events) :
    ∀ event ∈ events, Unescaped event.table.qualified.toList := by
  induction events generalizing items with
  | nil => simp
  | cons event events inductionHypothesis =>
    rw [moreText, readsMoreItems_more, readsItems_iff] at reads
    obtain ⟨item, next, more, first, readsMore, rfl⟩ := reads
    obtain ⟨object, others⟩ := List.forall₂_cons.mp objects
    have unescaped := unescaped_of_objectOf first object
    -- an event that is read to its end leaves the others as they are
    obtain ⟨_, rfl⟩ := (readsValue_event_of_unescaped unescaped _).mp first
    exact List.forall_mem_cons.mpr ⟨unescaped, inductionHypothesis readsMore others⟩

/-! ## Payloads -/

theorem readsValue_payload (event : ChangeEvent) (events : List ChangeEvent) {value : Json} {rest : List Char} :
    ReadsValue (WebhookDispatcher.buildPayload (event :: events)).toList value rest ↔
      ∃ items, ReadsMoreItems (moreText (event :: events)) items rest ∧ value = .arr items := by
  rw [buildPayload_toList, moreText, eventJson_toList, readsValue_array]
  simp only [readsMoreItems_more]

theorem unescaped_qualified (table : TableId) :
    Unescaped table.qualified.toList ↔ Unescaped table.schema.toList ∧ Unescaped table.table.toList := by
  have dot : '.' ≠ '"' ∧ '.' ≠ '\\' ∧ 0x20 ≤ '.'.toNat := by decide
  rw [table.qualified_toList, unescaped_append, unescaped_cons]
  exact and_congr_right fun _ => and_iff_right dot

theorem faithful_of_unescaped {events : List ChangeEvent}
    (unescaped : ∀ event ∈ events, Unescaped event.table.qualified.toList) :
    FaithfulPayload (WebhookDispatcher.buildPayload events) events := by
  have readings : ∀ value rest, ReadsValue (WebhookDispatcher.buildPayload events).toList value rest ↔
      value = .arr (events.map eventObject) ∧ rest = [] := by
    intro value rest
    cases events with
    | nil => exact readsValue_emptyArray
    | cons event events =>
      rw [readsValue_payload]
      constructor
      · rintro ⟨items, reads, rfl⟩
        obtain ⟨rfl, rfl⟩ := (readsMoreItems_moreText unescaped).mp reads
        exact ⟨rfl, rfl⟩
      · rintro ⟨rfl, rfl⟩
        exact ⟨_, (readsMoreItems_moreText unescaped).mpr ⟨rfl, rfl⟩, rfl⟩
  constructor
  · exact ⟨_, [], (readings _ _).mpr ⟨rfl, rfl⟩, rfl⟩
  · rintro value ⟨rest, reads, _⟩
    obtain ⟨rfl, _⟩ := (readings value rest).mp reads
    refine ⟨_, rfl, ?_⟩
    rw [List.forall₂_map_left_iff]
    exact List.forall₂_same.mpr fun event _ => objectOf_eventObject event

theorem unescaped_of_faithful {events : List ChangeEvent}
    (faithful : FaithfulPayload (WebhookDispatcher.buildPayload events) events) :
    ∀ event ∈ events, Unescaped event.table.qualified.toList := by
  obtain ⟨⟨value, reads⟩, all⟩ := faithful
  obtain ⟨items, rfl, objects⟩ := all value reads
  obtain ⟨rest, reads, _⟩ := reads
  cases events with
  | nil => simp
  | cons event events =>
    obtain ⟨items', readsItems, same⟩ := (readsValue_payload event events).mp reads
    cases same
    exact unescaped_of_readsMoreItems readsItems objects

/-- A payload is a faithful JSON text exactly if nothing in the names of the tables has to be escaped. -/
theorem payload_faithful_iff (events : List ChangeEvent) :
    FaithfulPayload (WebhookDispatcher.buildPayload events) events ↔
      ∀ event ∈ events, Unescaped event.table.schema.toList ∧ Unescaped event.table.table.toList := by
  simp only [← unescaped_qualified]
  exact ⟨unescaped_of_faithful, faithful_of_unescaped⟩

def publicEvent (lsn : UInt64) (xid : UInt32) (op : OpType) (table : String) : ChangeEvent where
  lsn
  xid
  op
  table := { schema := "public", table }
  schemaFingerprint := 0
  after := none
  before := none
  commitTimestampUs := 5

/-- A name that ends its own object and begins another. -/
def forgingName : String :=
  "orders\",\"ts\":5\x7d,\x7b\"lsn\":1,\"xid\":1,\"op\":\"delete\",\"table\":\"public.accounts"

/-- The receiver cannot tell an insert into the table of that name from two events of other tables. -/
theorem forged_payload :
    WebhookDispatcher.buildPayload [publicEvent 4096 7 .insert forgingName] =
        WebhookDispatcher.buildPayload [publicEvent 4096 7 .insert "orders", publicEvent 1 1 .delete "accounts"] ∧
      ¬ FaithfulPayload (WebhookDispatcher.buildPayload [publicEvent 4096 7 .insert forgingName])
        [publicEvent 4096 7 .insert forgingName] := by
  constructor
  · decide +kernel
  · intro faithful
    have unescaped := unescaped_of_faithful faithful _ List.mem_cons_self
    exact absurd ((unescaped_qualified _).mp unescaped).2 (by decide)

end Nendi.Verified
