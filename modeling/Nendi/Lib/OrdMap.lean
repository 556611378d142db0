import Mathlib.Order.Lattice
import Mathlib.Data.List.Induction
import Mathlib.Data.List.Perm.Basic
import Mathlib.Data.List.Sort

/-! # Ordered maps

A finite map held as its key-sorted list of entries: the view of an ordered
key-value store in which iteration is the list itself.  `mem_insert`,
`mem_filterKeys` and `mem_seek` describe the operations by membership.

`mapEntries` transports a map along a strictly monotone key function.  It
commutes with insertion and seeking, which is what relates a store of encoded
keys and values to the map it encodes. -/

namespace Nendi.Lib

/-! ## The last item with a key -/

section LastWith

variable {α κ : Type} (keyOf : α → κ)

/-- `item` is in the list, and nothing behind it has its key. -/
def LastWith (items : List α) (item : α) : Prop :=
  ∃ before after, items = before ++ item :: after ∧ ∀ later ∈ after, keyOf later ≠ keyOf item

variable {keyOf} in
theorem LastWith.mem {items : List α} {item : α} (isLast : LastWith keyOf items item) : item ∈ items := by
  obtain ⟨before, after, rfl, _⟩ := isLast
  simp

theorem lastWith_snoc (items : List α) (last item : α) :
    LastWith keyOf (items ++ [last]) item ↔
      item = last ∨ keyOf last ≠ keyOf item ∧ LastWith keyOf items item := by
  constructor
  · rintro ⟨before, after, split, others⟩
    induction after using List.reverseRecOn with
    | nil =>
      obtain ⟨_, same⟩ := List.append_inj' split rfl
      cases same
      exact .inl rfl
    | append_singleton after final _ =>
      rw [← List.cons_append, ← List.append_assoc] at split
      obtain ⟨sameItems, same⟩ := List.append_inj' split rfl
      cases same
      exact .inr ⟨others last (by simp), before, after, sameItems,
        fun later member => others later (List.mem_append_left _ member)⟩
  · rintro (rfl | ⟨other, before, after, rfl, others⟩)
    · exact ⟨items, [], rfl, by simp⟩
    · refine ⟨before, after ++ [last], by simp, ?_⟩
      intro later member
      obtain earlier | isLast := List.mem_append.mp member
      · exact others later earlier
      · rw [List.mem_singleton.mp isLast]
        exact other

theorem exists_lastWith {items : List α} {item : α} (member : item ∈ items) :
    ∃ last, LastWith keyOf items last ∧ keyOf last = keyOf item := by
  induction items using List.reverseRecOn with
  | nil => cases member
  | append_singleton items last inductionHypothesis =>
    by_cases same : keyOf last = keyOf item
    · exact ⟨last, (lastWith_snoc keyOf items last last).mpr (.inl rfl), same⟩
    · have earlier : item ∈ items := by
        obtain earlier | isLast := List.mem_append.mp member
        · exact earlier
        · exact absurd (congrArg keyOf (List.mem_singleton.mp isLast)).symm same
      obtain ⟨found, isLast, sameKey⟩ := inductionHypothesis earlier
      refine ⟨found, (lastWith_snoc keyOf items last found).mpr (.inr ⟨?_, isLast⟩), sameKey⟩
      rwa [sameKey]

end LastWith

/-! ## Maps -/

/-- Entries in strictly ascending key order, so every key occurs once. -/
structure OrdMap (κ ν : Type) [LinearOrder κ] where
  entries : List (κ × ν)
  sorted : entries.Pairwise fun first second => first.1 < second.1

namespace OrdMap

variable {κ ν κ' ν' : Type} [LinearOrder κ] [LinearOrder κ']

@[ext] theorem ext {first second : OrdMap κ ν} (entries : first.entries = second.entries) :
    first = second := by
  cases first
  cases second
  cases entries
  rfl

def empty : OrdMap κ ν := ⟨[], List.Pairwise.nil⟩

@[simp] theorem entries_empty : (empty : OrdMap κ ν).entries = [] := rfl

def insertEntry (key : κ) (value : ν) : List (κ × ν) → List (κ × ν)
  | [] => [(key, value)]
  | entry :: rest =>
    if key < entry.1 then (key, value) :: entry :: rest
    else if entry.1 < key then entry :: insertEntry key value rest
    else (key, value) :: rest

theorem lt_of_lt_head {key : κ} {head : κ × ν} {rest : List (κ × ν)}
    (sorted : (head :: rest).Pairwise fun first second => first.1 < second.1) (below : key < head.1) :
    ∀ entry ∈ head :: rest, key < entry.1 := by
  intro entry member
  obtain rfl | later := List.mem_cons.mp member
  · exact below
  · exact below.trans ((List.pairwise_cons.mp sorted).1 entry later)

theorem mem_insertEntry {key : κ} {value : ν} {entries : List (κ × ν)}
    (sorted : entries.Pairwise fun first second => first.1 < second.1) (entry : κ × ν) :
    entry ∈ insertEntry key value entries ↔
      entry = (key, value) ∨ entry.1 ≠ key ∧ entry ∈ entries := by
  induction entries with
  | nil => simp [insertEntry]
  | cons head rest inductionHypothesis =>
    obtain ⟨headLess, restSorted⟩ := List.pairwise_cons.mp sorted
    simp only [insertEntry]
    split
    next below =>
      -- everything already present lies above `key`
      have distinct : entry ∈ head :: rest → entry.1 ≠ key := fun member =>
        ne_of_gt (lt_of_lt_head sorted below entry member)
      rw [List.mem_cons]
      tauto
    next notBelow =>
      split
      next above =>
        -- the head stays in front, the rest is the recursive case
        have distinct : head.1 ≠ key := ne_of_lt above
        simp only [List.mem_cons, inductionHypothesis restSorted]
        constructor
        · rintro (rfl | rfl | ⟨differs, member⟩)
          · exact .inr ⟨distinct, .inl rfl⟩
          · exact .inl rfl
          · exact .inr ⟨differs, .inr member⟩
        · rintro (rfl | ⟨differs, rfl | member⟩)
          · exact .inr (.inl rfl)
          · exact .inl rfl
          · exact .inr (.inr ⟨differs, member⟩)
      next notAbove =>
        -- the head is replaced
        have same : head.1 = key := le_antisymm (not_lt.mp notBelow) (not_lt.mp notAbove)
        have distinct : entry ∈ rest → entry.1 ≠ key := by
          intro member
          rw [← same]
          exact ne_of_gt (headLess entry member)
        simp only [List.mem_cons]
        constructor
        · rintro (rfl | member)
          · exact .inl rfl
          · exact .inr ⟨distinct member, .inr member⟩
        · rintro (rfl | ⟨differs, rfl | member⟩)
          · exact .inl rfl
          · exact absurd same differs
          · exact .inr member

theorem insertEntry_sorted {key : κ} {value : ν} {entries : List (κ × ν)}
    (sorted : entries.Pairwise fun first second => first.1 < second.1) :
    (insertEntry key value entries).Pairwise fun first second => first.1 < second.1 := by
  induction entries with
  | nil => simp [insertEntry]
  | cons head rest inductionHypothesis =>
    obtain ⟨headLess, restSorted⟩ := List.pairwise_cons.mp sorted
    simp only [insertEntry]
    split
    next below => exact List.pairwise_cons.mpr ⟨lt_of_lt_head sorted below, sorted⟩
    next notBelow =>
      split
      next above =>
        refine List.pairwise_cons.mpr ⟨?_, inductionHypothesis restSorted⟩
        intro entry member
        obtain rfl | ⟨_, later⟩ := (mem_insertEntry restSorted entry).mp member
        · exact above
        · exact headLess entry later
      next notAbove =>
        have same : head.1 = key := le_antisymm (not_lt.mp notBelow) (not_lt.mp notAbove)
        refine List.pairwise_cons.mpr ⟨?_, restSorted⟩
        intro entry member
        rw [← same]
        exact headLess entry member

def insert (map : OrdMap κ ν) (key : κ) (value : ν) : OrdMap κ ν :=
  ⟨insertEntry key value map.entries, insertEntry_sorted map.sorted⟩

def insertAll (map : OrdMap κ ν) (pairs : List (κ × ν)) : OrdMap κ ν :=
  pairs.foldl (fun map pair => map.insert pair.1 pair.2) map

def filterKeys (map : OrdMap κ ν) (keep : κ → Bool) : OrdMap κ ν :=
  ⟨map.entries.filter fun entry => keep entry.1, map.sorted.filter _⟩

/-- The entries an iterator placed at `start` walks through, in order. -/
def seek (map : OrdMap κ ν) (start : κ) : List (κ × ν) :=
  map.entries.filter fun entry => decide (¬ entry.1 < start)

def get? (map : OrdMap κ ν) (key : κ) : Option ν :=
  (map.entries.find? fun entry => decide (entry.1 = key)).map Prod.snd

/-! ## Membership -/

theorem mem_insert (map : OrdMap κ ν) (key : κ) (value : ν) (entry : κ × ν) :
    entry ∈ (map.insert key value).entries ↔
      entry = (key, value) ∨ entry.1 ≠ key ∧ entry ∈ map.entries :=
  mem_insertEntry map.sorted entry

theorem mem_filterKeys (map : OrdMap κ ν) (keep : κ → Bool) (entry : κ × ν) :
    entry ∈ (map.filterKeys keep).entries ↔ entry ∈ map.entries ∧ keep entry.1 = true :=
  List.mem_filter

theorem mem_seek (map : OrdMap κ ν) (start : κ) (entry : κ × ν) :
    entry ∈ map.seek start ↔ entry ∈ map.entries ∧ ¬ entry.1 < start := by
  simp [seek]

theorem entry_unique {map : OrdMap κ ν} {first second : κ × ν} (firstIn : first ∈ map.entries)
    (secondIn : second ∈ map.entries) (sameKey : first.1 = second.1) : first = second := by
  obtain ⟨entries, sorted⟩ := map
  simp only at firstIn secondIn
  induction entries with
  | nil => cases firstIn
  | cons head rest inductionHypothesis =>
    obtain ⟨headLess, restSorted⟩ := List.pairwise_cons.mp sorted
    cases firstIn with
    | head =>
      cases secondIn with
      | head => rfl
      | tail _ later => exact absurd sameKey (ne_of_lt (headLess second later))
    | tail _ earlier =>
      cases secondIn with
      | head => exact absurd sameKey.symm (ne_of_lt (headLess first earlier))
      | tail _ later => exact inductionHypothesis restSorted earlier later

theorem get?_eq_some_iff (map : OrdMap κ ν) (key : κ) (value : ν) :
    map.get? key = some value ↔ (key, value) ∈ map.entries := by
  constructor
  · intro found
    obtain ⟨entry, search, rfl⟩ := Option.map_eq_some_iff.mp found
    have sameKey : entry.1 = key := by simpa using List.find?_some search
    subst sameKey
    exact List.mem_of_find?_eq_some search
  · intro member
    cases search : map.entries.find? fun entry => decide (entry.1 = key) with
    | none =>
      have absent := List.find?_eq_none.mp search (key, value) member
      simp at absent
    | some entry =>
      have sameKey : entry.1 = key := by simpa using List.find?_some search
      have same := entry_unique (List.mem_of_find?_eq_some search) member sameKey
      rw [get?, search, same]
      rfl

/-! ## Inserting fresh keys -/

theorem insert_perm (map : OrdMap κ ν) {key : κ} (value : ν)
    (fresh : ∀ entry ∈ map.entries, entry.1 ≠ key) :
    (map.insert key value).entries.Perm ((key, value) :: map.entries) := by
  obtain ⟨entries, sorted⟩ := map
  change (insertEntry key value entries).Perm ((key, value) :: entries)
  simp only at fresh
  clear sorted
  induction entries with
  | nil => exact List.Perm.refl _
  | cons head rest inductionHypothesis =>
    simp only [insertEntry]
    split
    next below => exact List.Perm.refl _
    next notBelow =>
      have differs : head.1 ≠ key := fresh head List.mem_cons_self
      have above : head.1 < key := lt_of_le_of_ne (not_lt.mp notBelow) differs
      rw [if_pos above]
      have tail := inductionHypothesis fun entry member => fresh entry (List.mem_cons_of_mem _ member)
      exact (tail.cons head).trans (List.Perm.swap _ _ _)

theorem insertAll_perm (map : OrdMap κ ν) {pairs : List (κ × ν)}
    (distinct : (pairs.map Prod.fst).Nodup)
    (fresh : ∀ entry ∈ map.entries, entry.1 ∉ pairs.map Prod.fst) :
    (map.insertAll pairs).entries.Perm (map.entries ++ pairs) := by
  induction pairs generalizing map with
  | nil => simp [insertAll]
  | cons pair pairs inductionHypothesis =>
    simp only [List.map_cons, List.nodup_cons, List.mem_cons, not_or] at distinct fresh
    have headPerm := map.insert_perm pair.2 fun entry member => (fresh entry member).1
    -- the other pairs are still fresh in the map that holds the first one
    have tailPerm := inductionHypothesis (map.insert pair.1 pair.2) distinct.2 (by
      intro entry member
      obtain rfl | old := List.mem_cons.mp (headPerm.subset member)
      · exact distinct.1
      · exact (fresh entry old).2)
    exact tailPerm.trans ((headPerm.append_right pairs).trans List.perm_middle.symm)

theorem insertAll_append (map : OrdMap κ ν) (first second : List (κ × ν)) :
    map.insertAll (first ++ second) = (map.insertAll first).insertAll second :=
  List.foldl_append

/-! ## Inserting one pair after another -/

/-- A map holds the last pair inserted under a key, or what it held before. -/
theorem mem_insertAll (map : OrdMap κ ν) (pairs : List (κ × ν)) (entry : κ × ν) :
    entry ∈ (map.insertAll pairs).entries ↔
      LastWith Prod.fst pairs entry ∨ entry ∈ map.entries ∧ ∀ pair ∈ pairs, pair.1 ≠ entry.1 := by
  induction pairs using List.reverseRecOn with
  | nil => simp [insertAll, LastWith]
  | append_singleton pairs last inductionHypothesis =>
    have inserted : map.insertAll (pairs ++ [last]) = (map.insertAll pairs).insert last.1 last.2 :=
      insertAll_append map pairs [last]
    rw [inserted, mem_insert, inductionHypothesis, lastWith_snoc]
    simp only [List.mem_append, List.mem_singleton, or_imp, forall_and, forall_eq, Prod.mk.eta, ne_comm]
    tauto

/-! ## Transport along a monotone key function -/

def mapEntries (onKey : κ → κ') (monotone : StrictMono onKey) (onValue : ν → ν') (map : OrdMap κ ν) :
    OrdMap κ' ν' :=
  ⟨map.entries.map (Prod.map onKey onValue),
    map.sorted.map _ fun _ _ less => monotone less⟩

variable {onKey : κ → κ'} (monotone : StrictMono onKey) (onValue : ν → ν')

theorem mapEntries_insert (map : OrdMap κ ν) (key : κ) (value : ν) :
    (map.insert key value).mapEntries onKey monotone onValue =
      (map.mapEntries onKey monotone onValue).insert (onKey key) (onValue value) := by
  apply ext
  obtain ⟨entries, sorted⟩ := map
  change (insertEntry key value entries).map (Prod.map onKey onValue) =
    insertEntry (onKey key) (onValue value) (entries.map (Prod.map onKey onValue))
  clear sorted
  induction entries with
  | nil => rfl
  | cons head rest inductionHypothesis =>
    simp only [insertEntry, List.map_cons, Prod.map_fst, monotone.lt_iff_lt]
    by_cases below : key < head.1
    · rw [if_pos below, if_pos below]
      rfl
    · by_cases above : head.1 < key
      · rw [if_neg below, if_neg below, if_pos above, if_pos above, List.map_cons,
          inductionHypothesis]
      · rw [if_neg below, if_neg below, if_neg above, if_neg above]
        rfl

theorem mapEntries_insertAll (map : OrdMap κ ν) (pairs : List (κ × ν)) :
    (map.insertAll pairs).mapEntries onKey monotone onValue =
      (map.mapEntries onKey monotone onValue).insertAll (pairs.map (Prod.map onKey onValue)) := by
  induction pairs generalizing map with
  | nil => rfl
  | cons pair pairs inductionHypothesis =>
    change ((map.insert pair.1 pair.2).insertAll pairs).mapEntries onKey monotone onValue = _
    rw [inductionHypothesis, mapEntries_insert]
    rfl

theorem mapEntries_seek (map : OrdMap κ ν) {start : κ} {start' : κ'}
    (agree : ∀ key, onKey key < start' ↔ key < start) :
    (map.mapEntries onKey monotone onValue).seek start' =
      (map.seek start).map (Prod.map onKey onValue) := by
  simp only [mapEntries, seek, List.filter_map]
  congr 2
  funext entry
  simp only [Function.comp, Prod.map_fst, agree]

end OrdMap

end Nendi.Lib
