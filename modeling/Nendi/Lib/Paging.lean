import Mathlib.Data.List.Sort
import Mathlib.Order.Lattice

/-! # Reading a sorted list page by page

A reader takes at most `limit` items at a time and remembers of each page only the
key of its last item; the next page starts behind that key.  Items that share a
key are then a danger: if a page ends among them, the rest of them is passed over.

`Paged.flatten_perm_iff` says exactly when the pages together are the whole list. -/

namespace Nendi.Lib

variable {α κ : Type} (key : α → κ)

/-! ## Where pages end -/

/-- No two neighbours between which a page ends share a key. -/
def CleanCuts (limit : Nat) (items : List α) : Prop :=
  ∀ count first second, 0 < count → items[count * limit - 1]? = some first →
    items[count * limit]? = some second → key first ≠ key second

variable {key} {limit : Nat} {items : List α}

theorem cleanCuts_iff_drop (positive : 0 < limit) :
    CleanCuts key limit items ↔
      (∀ first second, items[limit - 1]? = some first → items[limit]? = some second →
        key first ≠ key second) ∧ CleanCuts key limit (items.drop limit) := by
  constructor
  · intro clean
    constructor
    · intro first second atFirst atSecond
      exact clean 1 first second Nat.one_pos (by simpa using atFirst) (by simpa using atSecond)
    · -- cut `count` of the rest is cut `count + 1` of the whole
      intro count first second started atFirst atSecond
      have more : 0 < count * limit := Nat.mul_pos started positive
      rw [List.getElem?_drop] at atFirst atSecond
      refine clean (count + 1) first second (Nat.succ_pos count) ?_ ?_
      · rw [← atFirst, Nat.add_one_mul]
        congr 1
        omega
      · rw [← atSecond, Nat.add_one_mul, Nat.add_comm]
  · rintro ⟨firstCut, later⟩ count first second started atFirst atSecond
    obtain ⟨count, rfl⟩ := Nat.exists_eq_add_of_le' started
    cases count with
    | zero => exact firstCut first second (by simpa using atFirst) (by simpa using atSecond)
    | succ count =>
      have more : 0 < (count + 1) * limit := Nat.mul_pos (Nat.succ_pos count) positive
      refine later (count + 1) first second (Nat.succ_pos count) ?_ ?_
      · rw [List.getElem?_drop, ← atFirst, Nat.add_one_mul (count + 1)]
        congr 1
        omega
      · rw [List.getElem?_drop, ← atSecond, Nat.add_one_mul (count + 1), Nat.add_comm]

/-! ## Reading on -/

variable [LinearOrder κ]

variable (key) in
/-- What is left for a reader who continues behind the key of `last`. -/
def beyond (last : α) (items : List α) : List α := items.filter fun item => decide (key last < key item)

variable (key limit) in
/-- Reading the items until a page is empty gives these pages. -/
inductive Paged : List α → List (List α) → Prop
  | done {items : List α} : items.take limit = [] → Paged items []
  | next {items : List α} {last : α} {pages : List (List α)} :
      (items.take limit).getLast? = some last → Paged (beyond key last items) pages →
        Paged items (items.take limit :: pages)

theorem beyond_sorted (sorted : items.Pairwise fun first second => key first ≤ key second) (last : α) :
    (beyond key last items).Pairwise fun first second => key first ≤ key second :=
  sorted.filter _

theorem last_separates (sorted : items.Pairwise fun first second => key first ≤ key second) {last : α}
    (isLast : (items.take limit).getLast? = some last) :
    (∀ item ∈ items.take limit, key item ≤ key last) ∧ ∀ item ∈ items.drop limit, key last ≤ key item := by
  obtain ⟨start, page⟩ := List.getLast?_eq_some_iff.mp isLast
  rw [← List.take_append_drop limit items, List.pairwise_append] at sorted
  obtain ⟨pageSorted, _, across⟩ := sorted
  refine ⟨?_, fun item member => across last (by simp [page]) item member⟩
  intro item member
  rw [page] at member pageSorted
  obtain inStart | isLast := List.mem_append.mp member
  · exact (List.pairwise_append.mp pageSorted).2.2 item inStart last (List.mem_singleton_self last)
  · rw [List.mem_singleton.mp isLast]

theorem beyond_eq_drop (sorted : items.Pairwise fun first second => key first ≤ key second) {last : α}
    (isLast : (items.take limit).getLast? = some last) :
    beyond key last items = beyond key last (items.drop limit) := by
  have passed : beyond key last (items.take limit) = [] := by
    rw [beyond, List.filter_eq_nil_iff]
    intro item member
    simpa using (last_separates sorted isLast).1 item member
  conv => lhs; rw [← List.take_append_drop limit items]
  rw [beyond, List.filter_append]
  exact (congrArg (· ++ _) passed).trans (List.nil_append _)

theorem last_at_cut {last second : α} (isLast : (items.take limit).getLast? = some last)
    (behind : items[limit]? = some second) : items[limit - 1]? = some last := by
  have long := (List.getElem?_eq_some_iff.mp behind).1
  rw [List.getLast?_eq_getElem?, List.length_take, Nat.min_eq_left long.le, List.getElem?_take] at isLast
  split at isLast
  · exact isLast
  · cases isLast

theorem beyond_of_clean (sorted : items.Pairwise fun first second => key first ≤ key second) {last : α}
    (isLast : (items.take limit).getLast? = some last)
    (clean : ∀ second, items[limit]? = some second → key last ≠ key second) :
    beyond key last items = items.drop limit := by
  rw [beyond_eq_drop sorted isLast, beyond, List.filter_eq_self]
  intro item member
  have rest : (items.drop limit).Pairwise fun first second => key first ≤ key second :=
    sorted.sublist (List.drop_sublist limit items)
  cases split : items.drop limit with
  | nil =>
    rw [split] at member
    cases member
  | cons second later =>
    have atCut : items[limit]? = some second := by
      rw [← List.head?_drop, split, List.head?_cons]
    have above : key last < key second :=
      lt_of_le_of_ne ((last_separates sorted isLast).2 second (by simp [split])) (clean second atCut)
    rw [split] at member rest
    obtain rfl | inLater := List.mem_cons.mp member
    · exact decide_eq_true above
    · exact decide_eq_true (above.trans_le ((List.pairwise_cons.mp rest).1 item inLater))

theorem beyond_length_lt (sorted : items.Pairwise fun first second => key first ≤ key second)
    {last second : α} (isLast : (items.take limit).getLast? = some last)
    (behind : items[limit]? = some second) (same : key last = key second) :
    (beyond key last items).length < (items.drop limit).length := by
  rw [beyond_eq_drop sorted isLast, beyond]
  have member : second ∈ items.drop limit := by
    rw [← List.head?_drop] at behind
    exact List.mem_of_mem_head? behind
  exact List.length_filter_lt_length_iff_exists.mpr ⟨second, member, by simp [same]⟩

variable (key) in
/-- The items up to the key of `last`, which the reader takes for read. -/
def upTo (last : α) (items : List α) : List α := items.filter fun item => decide (key item ≤ key last)

/-- A page is all that the reader takes for read if and only if it has every item with the key
    of its last one. -/
theorem page_perm_upTo_iff (sorted : items.Pairwise fun first second => key first ≤ key second)
    (nodup : items.Nodup) {last : α} (isLast : (items.take limit).getLast? = some last) :
    (items.take limit).Perm (upTo key last items) ↔
      ∀ item ∈ items, key item = key last → item ∈ items.take limit := by
  obtain ⟨inPage, behind⟩ := last_separates sorted isLast
  have mem_upTo : ∀ item, item ∈ upTo key last items ↔ item ∈ items ∧ key item ≤ key last := by simp [upTo]
  constructor
  · intro permuted item member same
    exact permuted.mem_iff.mpr ((mem_upTo item).mpr ⟨member, le_of_eq same⟩)
  · intro complete
    have upToNodup : (upTo key last items).Nodup := nodup.sublist List.filter_sublist
    rw [List.perm_ext_iff_of_nodup (nodup.sublist (List.take_sublist _ _)) upToNodup]
    intro item
    rw [mem_upTo]
    constructor
    · intro member
      exact ⟨List.mem_of_mem_take member, inPage item member⟩
    · rintro ⟨member, le⟩
      rw [← List.take_append_drop limit items] at member
      obtain here | later := List.mem_append.mp member
      · exact here
      · exact complete item (List.mem_of_mem_drop later) (le_antisymm le (behind item later))

/-! ## All pages -/

theorem Paged.length_le (sorted : items.Pairwise fun first second => key first ≤ key second)
    {pages : List (List α)} (paged : Paged key limit items pages) : pages.flatten.length ≤ items.length := by
  induction paged with
  | done empty => simp
  | @next items last pages isLast paged inductionHypothesis =>
    have rest := inductionHypothesis (beyond_sorted sorted last)
    rw [beyond_eq_drop sorted isLast] at rest
    have filtered : (beyond key last (items.drop limit)).length ≤ (items.drop limit).length :=
      List.length_filter_le _ _
    rw [List.length_drop] at filtered
    rw [List.flatten_cons, List.length_append, List.length_take]
    omega

/-- The pages hold every item exactly once if and only if no page ends between two
    items of one key. -/
theorem Paged.flatten_perm_iff (positive : 0 < limit)
    (sorted : items.Pairwise fun first second => key first ≤ key second) {pages : List (List α)}
    (paged : Paged key limit items pages) : pages.flatten.Perm items ↔ CleanCuts key limit items := by
  induction paged with
  | @done items empty =>
    obtain rfl : items = [] := by
      rw [List.take_eq_nil_iff] at empty
      exact empty.resolve_left positive.ne'
    simp [CleanCuts]
  | @next items last pages isLast paged inductionHypothesis =>
    rw [cleanCuts_iff_drop positive, List.flatten_cons]
    by_cases clean : ∀ second, items[limit]? = some second → key last ≠ key second
    · -- reading goes on right behind the page, and the page cancels on both sides
      have rest := beyond_of_clean sorted isLast clean
      rw [rest] at inductionHypothesis
      have firstCut : ∀ first second, items[limit - 1]? = some first → items[limit]? = some second →
          key first ≠ key second := by
        intro first second atFirst atSecond
        cases atFirst.symm.trans (last_at_cut isLast atSecond)
        exact clean second atSecond
      have later := inductionHypothesis (sorted.sublist (List.drop_sublist limit items))
      have whole : (items.take limit ++ pages.flatten).Perm items ↔
          pages.flatten.Perm (items.drop limit) := by
        conv => lhs; rhs; rw [← List.take_append_drop limit items]
        exact List.perm_append_left_iff _
      rw [whole, later]
      exact ⟨fun cuts => ⟨firstCut, cuts⟩, And.right⟩
    · simp only [not_forall, not_not] at clean
      obtain ⟨second, behind, same⟩ := clean
      constructor
      · -- the page and what comes after it are too few
        intro permuted
        have fewer := beyond_length_lt sorted isLast behind same
        have most := paged.length_le (beyond_sorted sorted last)
        have all := permuted.length_eq
        rw [List.length_append, List.length_take] at all
        rw [List.length_drop] at fewer
        omega
      · rintro ⟨firstCut, _⟩
        exact absurd same (firstCut last second (last_at_cut isLast behind) behind)

end Nendi.Lib
