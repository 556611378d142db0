import Nendi.Lib.Grammar
import Nendi.Verified.PgOutputStream

/-! # What the row readers let through

Insert, Update and Delete check different tags: only the Insert's tuple tag is compared,
an Update looks at its first tag only to tell whether an old tuple follows, and a column
tag nobody knows stands for NULL.  `RawRow` is a row message with whatever tags the
readers let through; a message is decoded exactly if it begins with one, and keeps to the
grammar exactly if that one has proper tags. -/

namespace Nendi.Verified

open Nendi.Lib Nendi.Shared Nendi.Pgsql Nendi.Pgsql.Protocol
open Nendi.Lib.CursorM

/-! ## Row messages with any tags -/

inductive RawColumn where
  | bare (tag : UInt8) (noBody : tag ≠ 't'.toUInt8 ∧ tag ≠ 'b'.toUInt8)
  | text (body : List UInt8) (short : body.length < 2 ^ 32)
  | binary (body : List UInt8) (short : body.length < 2 ^ 32)

namespace RawColumn

def serialise : RawColumn → List UInt8
  | .bare tag _ => [tag]
  | .text body _ => 't'.toUInt8 :: counted body
  | .binary body _ => 'b'.toUInt8 :: counted body

def Tagged : RawColumn → Prop
  | .bare tag _ => tag = 'n'.toUInt8 ∨ tag = 'u'.toUInt8
  | .text _ _ => True
  | .binary _ _ => True

def Utf8 : RawColumn → Prop
  | .text body _ => (fromUtf8 body).isSome
  | .bare _ _ => True
  | .binary _ _ => True

end RawColumn

structure RawTuple where
  columns : List RawColumn
  counted : columns.length < 2 ^ 16

namespace RawTuple

def serialise (tuple : RawTuple) : List UInt8 :=
  (UInt16.ofNat tuple.columns.length).toBeBytes ++ tuple.columns.flatMap RawColumn.serialise

def Tagged (tuple : RawTuple) : Prop := ∀ column ∈ tuple.columns, column.Tagged

def Utf8 (tuple : RawTuple) : Prop := ∀ column ∈ tuple.columns, column.Utf8

end RawTuple

inductive RowKind where
  | insert
  | update
  | delete

def RowKind.byte : RowKind → UInt8
  | .insert => 'I'.toUInt8
  | .update => 'U'.toUInt8
  | .delete => 'D'.toUInt8

/-- An update without an old tuple shows it by its first tag. -/
inductive RawRow where
  | insert (oid : UInt32) (new : RawTuple)
  | update (oid : UInt32) (tag : OldTag) (old : RawTuple) (newTag : UInt8) (new : RawTuple)
  | updateNew (oid : UInt32) (newTag : UInt8) (noOld : newTag ≠ 'K'.toUInt8 ∧ newTag ≠ 'O'.toUInt8)
      (new : RawTuple)
  | delete (oid : UInt32) (oldTag : UInt8) (old : RawTuple)

namespace RawRow

def kind : RawRow → RowKind
  | .insert _ _ => .insert
  | .update _ _ _ _ _ => .update
  | .updateNew _ _ _ _ => .update
  | .delete _ _ _ => .delete

def oid : RawRow → UInt32
  | .insert oid _ => oid
  | .update oid _ _ _ _ => oid
  | .updateNew oid _ _ _ => oid
  | .delete oid _ _ => oid

def tuples : RawRow → List UInt8
  | .insert _ new => 'N'.toUInt8 :: new.serialise
  | .update _ tag old newTag new => tag.byte :: (old.serialise ++ newTag :: new.serialise)
  | .updateNew _ newTag _ new => newTag :: new.serialise
  | .delete _ oldTag old => oldTag :: old.serialise

def body (row : RawRow) : List UInt8 := row.oid.toBeBytes ++ row.tuples

def serialise (row : RawRow) : List UInt8 := row.kind.byte :: row.body

def Tagged : RawRow → Prop
  | .insert _ new => new.Tagged
  | .update _ _ old newTag new => old.Tagged ∧ newTag = 'N'.toUInt8 ∧ new.Tagged
  | .updateNew _ newTag _ new => newTag = 'N'.toUInt8 ∧ new.Tagged
  | .delete _ oldTag old => (oldTag = 'K'.toUInt8 ∨ oldTag = 'O'.toUInt8) ∧ old.Tagged

def Utf8 : RawRow → Prop
  | .insert _ new => new.Utf8
  | .update _ _ old _ new => old.Utf8 ∧ new.Utf8
  | .updateNew _ _ _ new => new.Utf8
  | .delete _ _ old => old.Utf8

end RawRow

/-- The message begins with a row of the grammar: an OID and `N` Tuple, or up to two
    tuples tagged `K` or `O` and `N`, or a Tuple tagged `K` or `O`, with columns tagged
    `n`, `u`, `t` or `b`. -/
def Grammatical (data : List UInt8) : Prop :=
  ∃ (row : RawRow) (rest : List UInt8), data = row.serialise ++ rest ∧ row.Tagged

/-! ## A message begins with one raw row at most -/

theorem counted_selfDelimiting {first second rest other : List UInt8} (firstShort : first.length < 2 ^ 32)
    (secondShort : second.length < 2 ^ 32) (same : counted first ++ rest = counted second ++ other) :
    first = second ∧ rest = other := by
  simp only [counted, List.append_assoc] at same
  obtain ⟨sameCount, behind⟩ := uint32_selfDelimiting same
  have sameLength : first.length = second.length := by
    have numbers := congrArg UInt32.toNat sameCount
    rwa [UInt32.toNat_ofNat_of_lt' firstShort, UInt32.toNat_ofNat_of_lt' secondShort] at numbers
  exact List.append_inj behind sameLength

theorem RawColumn.selfDelimiting : SelfDelimiting RawColumn.serialise := by
  intro first second rest other same
  cases first with
  | bare tag noBody =>
    cases second with
    | bare otherTag _ =>
      cases same
      exact ⟨rfl, rfl⟩
    | text body short =>
      cases same
      exact absurd rfl noBody.1
    | binary body short =>
      cases same
      exact absurd rfl noBody.2
  | text body short =>
    cases second with
    | bare tag noBody =>
      cases same
      exact absurd rfl noBody.1
    | text otherBody otherShort =>
      obtain ⟨rfl, rfl⟩ := counted_selfDelimiting short otherShort (List.cons.inj same).2
      exact ⟨rfl, rfl⟩
    | binary otherBody otherShort =>
      exact absurd (List.cons.inj same).1 (by decide)
  | binary body short =>
    cases second with
    | bare tag noBody =>
      cases same
      exact absurd rfl noBody.2
    | text otherBody otherShort =>
      exact absurd (List.cons.inj same).1 (by decide)
    | binary otherBody otherShort =>
      obtain ⟨rfl, rfl⟩ := counted_selfDelimiting short otherShort (List.cons.inj same).2
      exact ⟨rfl, rfl⟩

theorem RawTuple.selfDelimiting : SelfDelimiting RawTuple.serialise := by
  rintro ⟨first, firstCounted⟩ ⟨second, secondCounted⟩ rest other same
  simp only [RawTuple.serialise, List.append_assoc] at same
  obtain ⟨sameCount, behind⟩ := uint16_selfDelimiting same
  have sameLength : first.length = second.length := by
    have numbers := congrArg UInt16.toNat sameCount
    rwa [UInt16.toNat_ofNat_of_lt' firstCounted, UInt16.toNat_ofNat_of_lt' secondCounted] at numbers
  obtain ⟨rfl, sameRest⟩ := RawColumn.selfDelimiting.flatMap sameLength behind
  exact ⟨rfl, sameRest⟩

theorem tagged_selfDelimiting {firstTag secondTag : UInt8} {first second : RawTuple} {rest other : List UInt8}
    (same : firstTag :: (first.serialise ++ rest) = secondTag :: (second.serialise ++ other)) :
    firstTag = secondTag ∧ first = second ∧ rest = other := by
  obtain ⟨sameTag, behind⟩ := List.cons.inj same
  exact ⟨sameTag, RawTuple.selfDelimiting behind⟩

theorem oldTag_byte_injective {first second : OldTag} (same : first.byte = second.byte) :
    first = second := by
  cases first <;> cases second <;> first | rfl | exact absurd same (by decide)

theorem rowKind_byte_injective {first second : RowKind} (same : first.byte = second.byte) :
    first = second := by
  cases first <;> cases second <;> first | rfl | exact absurd same (by decide)

theorem tuples_selfDelimiting {first second : RawRow} {rest other : List UInt8}
    (sameKind : first.kind = second.kind) (sameOid : first.oid = second.oid)
    (same : first.tuples ++ rest = second.tuples ++ other) : first = second ∧ rest = other := by
  -- rows of one kind and relation are told apart by their tuples
  -- an old tuple begins with a tag that the new tuple of an update without one cannot have
  have oldFirst : ∀ {tag : OldTag} {newTag : UInt8}, newTag ≠ 'K'.toUInt8 ∧ newTag ≠ 'O'.toUInt8 →
      tag.byte ≠ newTag := by
    rintro tag newTag ⟨notKey, notOld⟩ rfl
    exact (oldTag_byte tag).elim notKey notOld
  cases first with
  | insert oid new =>
    cases second with
    | insert _ _ =>
      cases sameOid
      obtain ⟨_, rfl, rfl⟩ := tagged_selfDelimiting same
      exact ⟨rfl, rfl⟩
    | update _ _ _ _ _ => cases sameKind
    | updateNew _ _ _ _ => cases sameKind
    | delete _ _ _ => cases sameKind
  | update oid tag old newTag new =>
    cases second with
    | insert _ _ => cases sameKind
    | update _ _ _ _ _ =>
      cases sameOid
      simp only [RawRow.tuples, List.cons_append, List.append_assoc] at same
      obtain ⟨sameTag, rfl, behind⟩ := tagged_selfDelimiting same
      cases oldTag_byte_injective sameTag
      obtain ⟨rfl, rfl, rfl⟩ := tagged_selfDelimiting behind
      exact ⟨rfl, rfl⟩
    | updateNew _ _ noOld _ => exact absurd (List.cons.inj same).1 (oldFirst noOld)
    | delete _ _ _ => cases sameKind
  | updateNew oid newTag noOld new =>
    cases second with
    | insert _ _ => cases sameKind
    | update _ _ _ _ _ => exact absurd (List.cons.inj same).1.symm (oldFirst noOld)
    | updateNew _ _ _ _ =>
      cases sameOid
      obtain ⟨rfl, rfl, rfl⟩ := tagged_selfDelimiting same
      exact ⟨rfl, rfl⟩
    | delete _ _ _ => cases sameKind
  | delete oid oldTag old =>
    cases second with
    | insert _ _ => cases sameKind
    | update _ _ _ _ _ => cases sameKind
    | updateNew _ _ _ _ => cases sameKind
    | delete _ _ _ =>
      cases sameOid
      obtain ⟨rfl, rfl, rfl⟩ := tagged_selfDelimiting same
      exact ⟨rfl, rfl⟩

theorem RawRow.selfDelimiting : SelfDelimiting RawRow.serialise := by
  intro first second rest other same
  simp only [RawRow.serialise, RawRow.body, List.cons_append, List.append_assoc, List.cons.injEq] at same
  obtain ⟨sameKind, behind⟩ := same
  obtain ⟨sameOid, behind⟩ := uint32_selfDelimiting behind
  exact tuples_selfDelimiting (rowKind_byte_injective sameKind) sameOid behind

/-! ## Raw rows are decoded -/

theorem decodeTupleColumn_readable (columns : List ColumnMeta) (place : Nat) {column : RawColumn}
    (readable : column.Utf8) : ∃ value, Reads (decodeTupleColumn columns place) column.serialise value := by
  cases column with
  | bare tag noBody => exact ⟨_, decodeTupleColumn_bare columns place noBody⟩
  | text body short =>
    obtain ⟨text, isText⟩ := Option.isSome_iff_exists.mp readable
    exact ⟨_, decodeTupleColumn_text columns place short isText⟩
  | binary body short => exact ⟨_, decodeTupleColumn_binary columns place short⟩

theorem decodeTupleData_readable (columns : List ColumnMeta) {tuple : RawTuple} (readable : tuple.Utf8) :
    ∃ row, Reads (decodeTupleData columns) tuple.serialise row := by
  obtain ⟨values, loop⟩ := Reads.collect_exists tuple.columns
    (fun column member place => decodeTupleColumn_readable columns place (readable column member)) 0
  rw [← UInt16.toNat_ofNat_of_lt' tuple.counted] at loop
  exact ⟨_, (readU16_reads _).bind (loop.map fun columns => ({ columns } : RowData))⟩

variable (hasher : List UInt8 → UInt64) {decoder : PgOutputDecoder}

def RowKind.reader (decoder : PgOutputDecoder) (lsn : UInt64) :
    RowKind → CursorM DecodeError (Option ChangeEvent)
  | .insert => decoder.decodeInsert hasher lsn
  | .update => decoder.decodeUpdate hasher lsn
  | .delete => decoder.decodeDelete hasher lsn

theorem decode_kind {data : Bytes} {kind : RowKind} {payload : List UInt8} (lsn : UInt64)
    (tagged : data.toList = kind.byte :: payload) :
    (decoder.decode hasher lsn data).1 = PgOutputDecoder.outcome (kind.reader hasher decoder lsn) payload := by
  rw [PgOutputDecoder.decode, tagged]
  cases kind with
  | insert => rfl
  | update => rfl
  | delete => rfl

theorem reader_readable {row : RawRow} {info : RelationInfo} (readable : row.Utf8)
    (known : decoder.relations.lookup row.oid = some info) (lsn : UInt64) :
    ∃ event, Reads (row.kind.reader hasher decoder lsn) row.body (some event) := by
  cases row with
  | insert oid new =>
    obtain ⟨after, reads⟩ := decodeTupleData_readable info.columns readable
    exact ⟨_, decodeInsert_of_tuple hasher known lsn reads⟩
  | update oid tag old newTag new =>
    obtain ⟨before, oldReads⟩ := decodeTupleData_readable info.columns readable.1
    obtain ⟨after, reads⟩ := decodeTupleData_readable info.columns readable.2
    have whole : (RawRow.update oid tag old newTag new).body =
        oid.toBeBytes ++ ((tag.byte :: (old.serialise ++ [newTag])) ++ new.serialise) := by
      simp [RawRow.body, RawRow.oid, RawRow.tuples]
    rw [whole]
    exact ⟨_, decodeUpdate_of_tuples hasher known lsn (readOldTuple_some tag newTag oldReads) reads⟩
  | updateNew oid newTag noOld new =>
    obtain ⟨after, reads⟩ := decodeTupleData_readable info.columns readable
    exact ⟨_, decodeUpdate_of_tuples hasher known lsn (readOldTuple_none _ noOld) reads⟩
  | delete oid oldTag old =>
    obtain ⟨before, reads⟩ := decodeTupleData_readable info.columns readable
    exact ⟨_, decodeDelete_of_tuple hasher known lsn oldTag reads⟩

theorem decode_readable {data : Bytes} {row : RawRow} {rest : List UInt8} {info : RelationInfo}
    (written : data.toList = row.serialise ++ rest) (readable : row.Utf8)
    (known : decoder.relations.lookup row.oid = some info) (lsn : UInt64) :
    ∃ event, (decoder.decode hasher lsn data).1 = .ok (some event) := by
  obtain ⟨event, reads⟩ := reader_readable hasher readable known lsn
  refine ⟨event, ?_⟩
  rw [decode_kind hasher lsn written]
  exact outcome_of_reads_append reads (Bytes.payload_le written)

/-! ## What is decoded is a raw row -/

theorem readU8_consumes : Consumes readU8 fun bytes value => bytes = [value] :=
  Consumes.requireByte_bind Consumes.takeByte

theorem readBytes_consumes (count : Nat) :
    Consumes (readBytes count) fun bytes value => bytes = value ∧ bytes.length = count :=
  Consumes.require_bind (Consumes.take count)

theorem readU16_consumes : Consumes readU16 fun bytes value => bytes = value.toBeBytes := by
  refine (readBytes_consumes 2).bind ?_
  rintro bytes _ ⟨rfl, length⟩
  exact Consumes.pure (by rw [List.append_nil, UInt16.toBeBytes_ofBeBytes length])

theorem readU32_consumes : Consumes readU32 fun bytes value => bytes = value.toBeBytes := by
  refine (readBytes_consumes 4).bind ?_
  rintro bytes _ ⟨rfl, length⟩
  exact Consumes.pure (by rw [List.append_nil, UInt32.toBeBytes_ofBeBytes length])

theorem utf8_eq_ok {bytes data : List UInt8} {pos end_ : Nat} {text : String}
    (ran : utf8 bytes data pos = (.ok text, end_)) : fromUtf8 bytes = some text ∧ end_ = pos := by
  cases isText : fromUtf8 bytes with
  | none =>
    rw [utf8, isText] at ran
    cases ran
  | some found =>
    rw [utf8, isText] at ran
    cases ran
    exact ⟨rfl, rfl⟩

theorem counted_consumes {α : Type} {error : Nat → DecodeError}
    {next : UInt32 → List UInt8 → CursorM DecodeError α} (accepts : List UInt8 → Prop)
    (moves : ∀ len body data pos result end_, body.length = len.toNat →
      next len body data pos = (.ok result, end_) → end_ = pos + len.toNat ∧ accepts body) :
    Consumes (do
      let len ← readU32
      require len.toNat error
      let bytes ← slice len.toNat
      next len bytes) fun bytes _ =>
        ∃ body : List UInt8, body.length < 2 ^ 32 ∧ bytes = counted body ∧ accepts body := by
  refine readU32_consumes.bind ?_
  rintro _ len rfl
  refine Consumes.require_bind (Consumes.slice_bind ?_)
  intro body data pos result end_ length ran
  obtain ⟨moved, accepted⟩ := moves len body data pos result end_ length ran
  refine ⟨moved, body, length ▸ len.toNat_lt, ?_, accepted⟩
  rw [counted, length, UInt32.ofNat_toNat]

theorem decodeTupleColumn_consumes (columns : List ColumnMeta) (place : Nat) :
    Consumes (decodeTupleColumn columns place) fun bytes _ =>
      ∃ column : RawColumn, bytes = column.serialise ∧ column.Utf8 := by
  refine readU8_consumes.bind ?_
  rintro _ tag rfl
  by_cases isText : tag = 't'.toUInt8
  · subst isText
    refine Consumes.weaken (counted_consumes (fun body => (fromUtf8 body).isSome) ?_) ?_
    · intro len body data pos result end_ _ ran
      change (utf8 body >>= _) data pos = _ at ran
      obtain ⟨text, middle, checked, moved⟩ := bind_eq_ok ran
      obtain ⟨isText, rfl⟩ := utf8_eq_ok checked
      cases moved
      exact ⟨rfl, by rw [isText]; rfl⟩
    · rintro _ _ ⟨body, short, rfl, readable⟩
      exact ⟨.text body short, rfl, readable⟩
  · by_cases isBinary : tag = 'b'.toUInt8
    · subst isBinary
      refine Consumes.weaken (counted_consumes (fun _ => True) ?_) ?_
      · intro len body data pos result end_ _ ran
        cases ran
        exact ⟨rfl, trivial⟩
      · rintro _ _ ⟨body, short, rfl, _⟩
        exact ⟨.binary body short, rfl, trivial⟩
    · have bare : ∃ column : RawColumn, [tag] ++ [] = column.serialise ∧ column.Utf8 :=
        ⟨.bare tag ⟨isText, isBinary⟩, rfl, trivial⟩
      simp only [isText, isBinary, if_false]
      split
      · exact Consumes.pure bare
      · split
        · exact Consumes.pure bare
        · exact Consumes.pure bare

theorem decodeTupleData_consumes (columns : List ColumnMeta) :
    Consumes (decodeTupleData columns) fun bytes _ =>
      ∃ tuple : RawTuple, bytes = tuple.serialise ∧ tuple.Utf8 := by
  refine readU16_consumes.bind ?_
  rintro _ count rfl
  refine (Consumes.collect (decodeTupleColumn_consumes columns) count.toNat 0).bind ?_
  rintro _ values ⟨items, length, rfl, readable⟩
  refine Consumes.pure ⟨⟨items, length ▸ count.toNat_lt⟩, ?_, readable⟩
  simp only [RawTuple.serialise, length, UInt16.ofNat_toNat, List.append_nil]

theorem relation_consumes (oid : UInt32) :
    Consumes (decoder.relation oid) fun bytes info =>
      bytes = [] ∧ decoder.relations.lookup oid = some info := by
  rw [PgOutputDecoder.relation]
  cases decoder.relations.lookup oid with
  | none => exact Consumes.fail
  | some info => exact Consumes.pure ⟨rfl, rfl⟩

/-- A body that a row of this kind, with readable texts and of a known relation, has. -/
def IsBody (decoder : PgOutputDecoder) (kind : RowKind) (body : List UInt8) : Prop :=
  ∃ row : RawRow, row.kind = kind ∧ body = row.body ∧ row.Utf8 ∧
    (decoder.relations.lookup row.oid).isSome

theorem decodeInsert_consumes (lsn : UInt64) :
    Consumes (decoder.decodeInsert hasher lsn) fun bytes _ => IsBody decoder .insert bytes := by
  refine readU32_consumes.bind ?_
  rintro _ oid rfl
  refine readU8_consumes.bind ?_
  rintro _ tag rfl
  by_cases isNew : tag = 'N'.toUInt8
  · subst isNew
    refine (relation_consumes oid).bind ?_
    rintro _ info ⟨rfl, known⟩
    refine (decodeTupleData_consumes info.columns).bind ?_
    rintro _ after ⟨new, rfl, readable⟩
    refine Consumes.pure ⟨.insert oid new, rfl, ?_, readable, Option.isSome_of_eq_some known⟩
    simp [RawRow.body, RawRow.oid, RawRow.tuples]
  · rw [if_pos isNew]
    exact Consumes.fail

theorem decodeDelete_consumes (lsn : UInt64) :
    Consumes (decoder.decodeDelete hasher lsn) fun bytes _ => IsBody decoder .delete bytes := by
  refine readU32_consumes.bind ?_
  rintro _ oid rfl
  refine (relation_consumes oid).bind ?_
  rintro _ info ⟨rfl, known⟩
  refine readU8_consumes.bind ?_
  rintro _ oldTag rfl
  refine (decodeTupleData_consumes info.columns).bind ?_
  rintro _ before ⟨old, rfl, readable⟩
  refine Consumes.pure ⟨.delete oid oldTag old, rfl, ?_, readable, Option.isSome_of_eq_some known⟩
  simp [RawRow.body, RawRow.oid, RawRow.tuples]

theorem readOldTuple_consumes (columns : List ColumnMeta) :
    Consumes (PgOutputDecoder.readOldTuple columns) fun bytes _ =>
      (∃ (tag : OldTag) (old : RawTuple) (newTag : UInt8),
        bytes = tag.byte :: (old.serialise ++ [newTag]) ∧ old.Utf8) ∨
      ∃ newTag : UInt8, bytes = [newTag] ∧ newTag ≠ 'K'.toUInt8 ∧ newTag ≠ 'O'.toUInt8 := by
  refine readU8_consumes.bind ?_
  rintro _ first rfl
  by_cases hasOld : first = 'K'.toUInt8 ∨ first = 'O'.toUInt8
  · obtain ⟨tag, rfl⟩ : ∃ tag : OldTag, first = tag.byte := by
      obtain isKey | isOld := hasOld
      · exact ⟨.key, isKey⟩
      · exact ⟨.old, isOld⟩
    rw [if_pos hasOld]
    refine (decodeTupleData_consumes columns).bind ?_
    rintro _ before ⟨old, rfl, readable⟩
    refine readU8_consumes.bind ?_
    rintro _ newTag rfl
    exact Consumes.pure (.inl ⟨tag, old, newTag, by simp, readable⟩)
  · rw [if_neg hasOld]
    exact Consumes.pure (.inr ⟨first, rfl, not_or.mp hasOld⟩)

theorem decodeUpdate_consumes (lsn : UInt64) :
    Consumes (decoder.decodeUpdate hasher lsn) fun bytes _ => IsBody decoder .update bytes := by
  refine readU32_consumes.bind ?_
  rintro _ oid rfl
  refine (relation_consumes oid).bind ?_
  rintro _ info ⟨rfl, known⟩
  refine (readOldTuple_consumes info.columns).bind ?_
  rintro head before headed
  refine (decodeTupleData_consumes info.columns).bind ?_
  rintro _ after ⟨new, rfl, readable⟩
  apply Consumes.pure
  obtain ⟨tag, old, newTag, rfl, oldReadable⟩ | ⟨newTag, rfl, noOld⟩ := headed
  · refine ⟨.update oid tag old newTag new, rfl, ?_, ⟨oldReadable, readable⟩, Option.isSome_of_eq_some known⟩
    simp [RawRow.body, RawRow.oid, RawRow.tuples]
  · refine ⟨.updateNew oid newTag noOld new, rfl, ?_, readable, Option.isSome_of_eq_some known⟩
    simp [RawRow.body, RawRow.oid, RawRow.tuples]

theorem reader_consumes (kind : RowKind) (lsn : UInt64) :
    Consumes (kind.reader hasher decoder lsn) fun bytes _ => IsBody decoder kind bytes := by
  cases kind with
  | insert => exact decodeInsert_consumes hasher lsn
  | update => exact decodeUpdate_consumes hasher lsn
  | delete => exact decodeDelete_consumes hasher lsn

theorem row_of_decoded {data : Bytes} {kind : RowKind} {payload : List UInt8} {lsn : UInt64}
    {event : ChangeEvent} (tagged : data.toList = kind.byte :: payload)
    (decoded : (decoder.decode hasher lsn data).1 = .ok (some event)) :
    ∃ row rest, data.toList = RawRow.serialise row ++ rest ∧ row.Utf8 ∧
      (decoder.relations.lookup row.oid).isSome := by
  rw [decode_kind hasher lsn tagged] at decoded
  obtain ⟨bytes, split, _, row, rfl, rfl, readable, known⟩ :=
    reader_consumes hasher kind lsn payload 0 (some event) _ (Nat.zero_le _) (Prod.ext decoded rfl)
  rw [List.drop_zero] at split
  refine ⟨row, payload.drop (row.kind.reader hasher decoder lsn payload 0).2, ?_, readable, known⟩
  rw [tagged, RawRow.serialise, List.cons_append, ← split]

/-- A row message that becomes an event keeps to the grammar, exactly if the readable row
    of a known relation that it begins with, if any, has proper tags. -/
theorem decoded_rows_grammatical_iff (hasher : List UInt8 → UInt64) (decoder : PgOutputDecoder)
    (lsn : UInt64) (data : Bytes) :
    ((∃ (kind : RowKind) (payload : List UInt8), data.toList = kind.byte :: payload) →
        (∃ event, (decoder.decode hasher lsn data).1 = .ok (some event)) → Grammatical data.toList) ↔
      ∀ (row : RawRow) (rest : List UInt8), data.toList = row.serialise ++ rest → row.Utf8 →
        (decoder.relations.lookup row.oid).isSome → row.Tagged := by
  constructor
  · intro grammatical row rest written readable known
    obtain ⟨info, known⟩ := Option.isSome_iff_exists.mp known
    obtain ⟨proper, other, sameData, tagged⟩ := grammatical ⟨row.kind, row.body ++ rest, written⟩
      (decode_readable hasher written readable known lsn)
    -- there is only one row in front
    obtain ⟨rfl, _⟩ := RawRow.selfDelimiting (written.symm.trans sameData)
    exact tagged
  · rintro properlyTagged ⟨kind, payload, tagged⟩ ⟨event, decoded⟩
    obtain ⟨row, rest, written, readable, known⟩ := row_of_decoded hasher tagged decoded
    exact ⟨row, rest, written, properlyTagged row rest written readable known⟩

def codes : Relation where
  oid := 7
  schema := ⟨"public", public_noNul⟩
  table := ⟨"codes", codes_noNul⟩
  identity := 'd'.toUInt8
  columns := []
  counted := by decide

def codesDecoder : PgOutputDecoder := ⟨(∅ : AList fun _ => RelationInfo).insert 7 codes.info⟩

theorem codesDecoder_knows : codesDecoder.relations.lookup 7 = some codes.info := AList.lookup_insert _

/-- A delete from `public.codes` whose tuple is tagged `X`. -/
def mistaggedDelete : RawRow := .delete 7 'X'.toUInt8 ⟨[], by decide⟩

theorem mistagged_delete_becomes_event :
    (∃ event, (codesDecoder.decode (fun _ => 0) 2 ⟨mistaggedDelete.serialise, by decide⟩).1 =
      .ok (some event)) ∧ ¬ Grammatical mistaggedDelete.serialise := by
  constructor
  · have readable : mistaggedDelete.Utf8 := by simp [mistaggedDelete, RawRow.Utf8, RawTuple.Utf8]
    exact decode_readable (fun _ => 0) (List.append_nil _).symm readable codesDecoder_knows 2
  · rintro ⟨row, rest, same, tagged⟩
    rw [← List.append_nil mistaggedDelete.serialise] at same
    obtain ⟨rfl, _⟩ := RawRow.selfDelimiting same
    exact absurd tagged.1 (by decide)

/-! ## Unchanged columns -/

/-- The update that carries `datum` between `front` and `back` in its new tuple. -/
def updateWith (oid : UInt32) (old : Option (OldTag × Tuple)) (front back : List Datum)
    (counted : front.length + back.length + 1 < 2 ^ 16) (datum : Datum) : Message :=
  .update oid old ⟨front ++ datum :: back, by simp only [List.length_append, List.length_cons]; omega⟩

theorem event_unchanged_eq_null (lsn : UInt64) (relation : Relation) (oid : UInt32)
    (old : Option (OldTag × Tuple)) (front back : List Datum)
    (counted : front.length + back.length + 1 < 2 ^ 16) :
    ∃ event, (updateWith oid old front back counted .unchanged).event hasher lsn relation = some event ∧
      (updateWith oid old front back counted .null).event hasher lsn relation = some event := by
  refine ⟨_, rfl, ?_⟩
  have sameColumns : (front ++ .null :: back).mapIdx relation.column =
      (front ++ .unchanged :: back).mapIdx relation.column := by
    rw [List.mapIdx_append, List.mapIdx_append]
    rfl
  simp only [updateWith, Message.event, Relation.row, sameColumns]

/-- An unchanged column and a column set to NULL give the same event. -/
theorem unchanged_decoded_as_null (hasher : List UInt8 → UInt64) (decoder : PgOutputDecoder)
    (relation : Relation) (lsn : UInt64) (oid : UInt32) (old : Option (OldTag × Tuple))
    (front back : List Datum) (counted : front.length + back.length + 1 < 2 ^ 16)
    (unchanged null : Bytes)
    (known : decoder.relations.lookup oid = some relation.info)
    (writtenUnchanged : unchanged.toList = (updateWith oid old front back counted .unchanged).serialise)
    (writtenNull : null.toList = (updateWith oid old front back counted .null).serialise) :
    ∃ event, (decoder.decode hasher lsn unchanged).1 = .ok (some event) ∧
      (decoder.decode hasher lsn null).1 = .ok (some event) := by
  obtain ⟨event, fromUnchanged, fromNull⟩ :=
    event_unchanged_eq_null hasher lsn relation oid old front back counted
  refine ⟨event, ?_, ?_⟩
  · rw [decode_row_message hasher lsn writtenUnchanged rfl known, fromUnchanged]
  · rw [decode_row_message hasher lsn writtenNull rfl known, fromNull]

def codesUpdate (datum : Datum) : Message := updateWith 7 none [] [] (by decide) datum

/-- The two messages, byte by byte, and the event of both. -/
theorem unchanged_code_is_null :
    ∃ event, (codesDecoder.decode (fun _ => 0) 2
        ⟨['U'.toUInt8, 0, 0, 0, 7, 'N'.toUInt8, 0, 1, 'u'.toUInt8], by decide⟩).1 = .ok (some event) ∧
      (codesDecoder.decode (fun _ => 0) 2
        ⟨['U'.toUInt8, 0, 0, 0, 7, 'N'.toUInt8, 0, 1, 'n'.toUInt8], by decide⟩).1 = .ok (some event) := by
  have unchanged : ['U'.toUInt8, 0, 0, 0, 7, 'N'.toUInt8, 0, 1, 'u'.toUInt8] =
      (codesUpdate .unchanged).serialise := by decide
  have null : ['U'.toUInt8, 0, 0, 0, 7, 'N'.toUInt8, 0, 1, 'n'.toUInt8] =
      (codesUpdate .null).serialise := by decide
  obtain ⟨event, fromUnchanged, fromNull⟩ :=
    event_unchanged_eq_null (fun _ => 0) 2 codes 7 none [] [] (by decide)
  refine ⟨event, ?_, ?_⟩
  · rw [decode_row_message (fun _ => 0) 2 unchanged rfl codesDecoder_knows]
    exact congrArg Except.ok fromUnchanged
  · rw [decode_row_message (fun _ => 0) 2 null rfl codesDecoder_knows]
    exact congrArg Except.ok fromNull

theorem unchanged_decoded_as_null_codes :
    ∃ event, (codesDecoder.decode (fun _ => 0) 2 ⟨(codesUpdate .unchanged).serialise, by decide⟩).1 =
        .ok (some event) ∧
      (codesDecoder.decode (fun _ => 0) 2 ⟨(codesUpdate .null).serialise, by decide⟩).1 = .ok (some event) :=
  unchanged_decoded_as_null (fun _ => 0) codesDecoder codes 2 7 none [] [] (by decide) _ _
    codesDecoder_knows rfl rfl

end Nendi.Verified
