import Nendi.Lib.Delimited
import Nendi.Pgsql.Schema

/-! # What a fingerprint tells apart

A replaced byte always shows in the fingerprint.  Two column lists can still have one
fingerprint when the separators occur in their names: the bytes that are hashed are
then the same.
-/

namespace Nendi.Verified

open Nendi.Lib Nendi.Pgsql

/-! ## Replaced bytes -/

def ByteReplaced (old new : List UInt8) : Prop :=
  ∃ before after first second, first ≠ second ∧ old = before ++ first :: after ∧ new = before ++ second :: after

theorem ByteReplaced.within {old new : List UInt8} (replaced : ByteReplaced old new)
    (front back : List UInt8) : ByteReplaced (front ++ (old ++ back)) (front ++ (new ++ back)) := by
  obtain ⟨before, after, first, second, different, rfl, rfl⟩ := replaced
  exact ⟨front ++ before, after ++ back, first, second, different, by simp, by simp⟩

theorem ByteReplaced.fnv_ne {old new : List UInt8} (replaced : ByteReplaced old new) (hash : UInt64) :
    fnvFrom hash new ≠ fnvFrom hash old := by
  obtain ⟨before, after, first, second, different, rfl, rfl⟩ := replaced
  exact fnvFrom_replace_ne hash before after different.symm

structure Described where
  schema : String
  table : String
  columns : List ColumnSchema

def Described.input (described : Described) : List UInt8 :=
  computeInput described.schema described.table described.columns

inductive OneByteChange : Described → Described → Prop where
  | schema {old new table : String} {columns : List ColumnSchema}
      (replaced : ByteReplaced (utf8Bytes old) (utf8Bytes new)) :
      OneByteChange ⟨old, table, columns⟩ ⟨new, table, columns⟩
  | table {schema old new : String} {columns : List ColumnSchema}
      (replaced : ByteReplaced (utf8Bytes old) (utf8Bytes new)) :
      OneByteChange ⟨schema, old, columns⟩ ⟨schema, new, columns⟩
  | columnName {schema table new : String} {before after : List ColumnSchema} {column : ColumnSchema}
      (replaced : ByteReplaced (utf8Bytes column.name) (utf8Bytes new)) :
      OneByteChange ⟨schema, table, before ++ column :: after⟩
        ⟨schema, table, before ++ { column with name := new } :: after⟩
  | typeName {schema table new : String} {before after : List ColumnSchema} {column : ColumnSchema}
      (replaced : ByteReplaced (utf8Bytes column.typeName) (utf8Bytes new)) :
      OneByteChange ⟨schema, table, before ++ column :: after⟩
        ⟨schema, table, before ++ { column with typeName := new } :: after⟩

theorem ByteReplaced.of_column {old new : ColumnSchema} (replaced : ByteReplaced (columnInput old) (columnInput new))
    (schema table : String) (before after : List ColumnSchema) :
    ByteReplaced (computeInput schema table (before ++ old :: after))
      (computeInput schema table (before ++ new :: after)) := by
  have framed := replaced.within
    (utf8Bytes schema ++ '.'.toUInt8 :: (utf8Bytes table ++ before.flatMap columnInput)) (after.flatMap columnInput)
  simpa [computeInput] using framed

theorem OneByteChange.input_replaced {old new : Described} (change : OneByteChange old new) :
    ByteReplaced old.input new.input := by
  cases change with
  | schema replaced => exact replaced.within [] _
  | @table schema _ _ columns replaced =>
    have framed := replaced.within (utf8Bytes schema ++ ['.'.toUInt8]) (columns.flatMap columnInput)
    simpa [Described.input, computeInput] using framed
  | @columnName schema table new before after column replaced =>
    have framed : ByteReplaced (columnInput column) (columnInput { column with name := new }) :=
      replaced.within ['|'.toUInt8] (':'.toUInt8 :: utf8Bytes column.typeName)
    exact framed.of_column schema table before after
  | @typeName schema table new before after column replaced =>
    have framed : ByteReplaced (columnInput column) (columnInput { column with typeName := new }) := by
      have behind := replaced.within ('|'.toUInt8 :: (utf8Bytes column.name ++ [':'.toUInt8])) []
      simpa [columnInput, typedInput] using behind
    exact framed.of_column schema table before after

/-- Every change of one byte changes the fingerprint. -/
theorem one_byte_change_detected (old new : Described) (change : OneByteChange old new) :
    compute new.schema new.table new.columns ≠ compute old.schema old.table old.columns := by
  rw [compute_eq_fnv, compute_eq_fnv]
  exact change.input_replaced.fnv_ne fnvOffset

def plainColumn (name typeName : String) : ColumnSchema := ⟨name, 23, typeName, false, false, 1⟩

/-- A column that becomes an `int8`. -/
theorem wider_column_detected :
    OneByteChange ⟨"public", "users", [plainColumn "id" "int4"]⟩ ⟨"public", "users", [plainColumn "id" "int8"]⟩ ∧
      compute "public" "users" [plainColumn "id" "int8"] ≠ compute "public" "users" [plainColumn "id" "int4"] := by
  have change : OneByteChange ⟨"public", "users", [plainColumn "id" "int4"]⟩
      ⟨"public", "users", [plainColumn "id" "int8"]⟩ :=
    @OneByteChange.typeName "public" "users" "int8" [] [] (plainColumn "id" "int4")
      ⟨utf8Bytes "int", [], 52, 56, by decide, by decide, by decide⟩
  have detected := one_byte_change_detected ⟨"public", "users", [plainColumn "id" "int4"]⟩
    ⟨"public", "users", [plainColumn "id" "int8"]⟩ change
  exact ⟨change, detected⟩

/-! ## Separators in names -/

def namesAndTypes (columns : List ColumnSchema) : List (String × String) :=
  columns.map fun column => (column.name, column.typeName)

def NamedIn (inNames inTypes : Char → Prop) (columns : List ColumnSchema) : Prop :=
  ∀ column ∈ columns, (∀ letter ∈ column.name.toList, inNames letter) ∧
    ∀ letter ∈ column.typeName.toList, inTypes letter

def columnEntries (columns : List ColumnSchema) : List (List Char × List Char) :=
  columns.map fun column => (column.name.toList, column.typeName.toList)

theorem columns_input_eq (columns : List ColumnSchema) :
    columns.flatMap columnInput = utf8Bytes (String.ofList (delimited '|' ':' (columnEntries columns))) := by
  induction columns with
  | nil => rfl
  | cons column columns inductionHypothesis =>
    have written : String.ofList (delimited '|' ':' (columnEntries (column :: columns))) =
        "|" ++ column.name ++ ":" ++ column.typeName ++ String.ofList (delimited '|' ':' (columnEntries columns)) := by
      apply String.toList_injective
      simp [columnEntries, delimited_cons]
    -- both separators are ASCII, so each is the one byte that `compute` mixes in
    rw [written, List.flatMap_cons, inductionHypothesis]
    simp only [utf8Bytes_append, columnInput, typedInput]
    simp [utf8Bytes]
    rfl

theorem computeInput_eq_iff (schema table : String) (first second : List ColumnSchema) :
    computeInput schema table first = computeInput schema table second ↔
      delimited '|' ':' (columnEntries first) = delimited '|' ':' (columnEntries second) := by
  simp only [computeInput, columns_input_eq, List.append_cancel_left_eq, List.cons.injEq, true_and]
  constructor
  · intro same
    exact String.ofList_injective (utf8Bytes_injective same)
  · intro same
    rw [same]

theorem columnEntries_eq_iff (first second : List ColumnSchema) :
    columnEntries first = columnEntries second ↔ namesAndTypes first = namesAndTypes second := by
  have injective : Function.Injective fun pair : String × String => (pair.1.toList, pair.2.toList) := by
    intro pair pair' same
    exact Prod.ext (String.toList_injective (Prod.mk.inj same).1) (String.toList_injective (Prod.mk.inj same).2)
  have mapped : ∀ columns, columnEntries columns =
      (namesAndTypes columns).map fun pair => (pair.1.toList, pair.2.toList) := by
    intro columns
    simp [columnEntries, namesAndTypes]
  rw [mapped, mapped, injective.list_map.eq_iff]

def columnsOf (fields : List (List Char × List Char)) : List ColumnSchema :=
  fields.map fun field => plainColumn (String.ofList field.1) (String.ofList field.2)

theorem columnEntries_columnsOf (fields : List (List Char × List Char)) : columnEntries (columnsOf fields) = fields := by
  simp [columnEntries, columnsOf, plainColumn, Function.comp_def]

theorem namedIn_iff (inNames inTypes : Char → Prop) (columns : List ColumnSchema) :
    NamedIn inNames inTypes columns ↔ WrittenIn inNames inTypes (columnEntries columns) := by
  simp [NamedIn, WrittenIn, columnEntries]

/-- Over which characters of names and types different column lists are hashed from different
    bytes. -/
theorem fingerprint_input_unambiguous_iff (inNames inTypes : Char → Prop) :
    (∀ schema table first second, NamedIn inNames inTypes first → NamedIn inNames inTypes second →
      namesAndTypes first ≠ namesAndTypes second →
      computeInput schema table first ≠ computeInput schema table second) ↔
      (¬ inTypes ':' ∧ ¬ inNames '|') ∨ (¬ inNames ':' ∧ ¬ inTypes '|') := by
  rw [← delimited_injective_iff]
  simp only [namedIn_iff, ne_eq, computeInput_eq_iff, ← columnEntries_eq_iff]
  constructor
  · intro unambiguous first second firstWritten secondWritten same
    -- every list of fields is the list of some columns
    have apart := unambiguous "" "" (columnsOf first) (columnsOf second)
    simp only [columnEntries_columnsOf] at apart
    exact Decidable.not_not.mp fun different => apart firstWritten secondWritten different same
  · intro injective schema table first second firstWritten secondWritten different same
    exact different (injective _ _ firstWritten secondWritten same)

/-- A type that spells a second column. -/
theorem spelt_column_same_input :
    namesAndTypes [plainColumn "a" "b|c:d"] ≠ namesAndTypes [plainColumn "a" "b", plainColumn "c" "d"] ∧
      computeInput "public" "t" [plainColumn "a" "b|c:d"] =
        computeInput "public" "t" [plainColumn "a" "b", plainColumn "c" "d"] ∧
      compute "public" "t" [plainColumn "a" "b|c:d"] =
        compute "public" "t" [plainColumn "a" "b", plainColumn "c" "d"] := by
  decide

end Nendi.Verified
