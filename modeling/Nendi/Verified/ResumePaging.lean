import Nendi.Http.Replay
import Nendi.Lib.Paging
import Nendi.Verified.EventLog

/-! # What a consumer sees that catches up

The store is ordered by LSN and xid, progress is recorded as an LSN alone.  A
consumer that catches up page by page therefore reads the log as a list paged by
LSN, and `catch_up_complete_iff` says when it sees all of it. -/

namespace Nendi.Verified

open Nendi.Lib Nendi.Shared Nendi.Core Nendi.Http

theorem from_lsn_sorted (log : EventLog) (start : Lsn) :
    (log.from_ start).Pairwise fun first second => first.lsn ≤ second.lsn := by
  refine (log.from_sorted start).imp ?_
  intro first second less
  obtain below | ⟨same, _⟩ := Prod.Lex.lt_iff.mp less
  · exact le_of_lt below
  · exact le_of_eq same

theorem resumeLsn_commit {offsets : OffsetManager} {consumer : String} {lsn : Lsn}
    (read : offsets.resumeLsn consumer ≤ lsn) :
    (offsets.commit consumer lsn).2.resumeLsn consumer = lsn.saturatingAdd 1 := by
  have accepted : (offsets.registry.commit consumer lsn).2 = offsets.registry.insert consumer lsn := by
    obtain ⟨current, found, behind, _⟩ | ⟨_, result⟩ := offsets.registry.commit_cases consumer lsn
    · rw [OffsetManager.resumeLsn_of_some found] at read
      exact absurd behind (not_lt.mpr ((Lsn.le_saturatingAdd_one current).trans read))
    · rw [result]
  apply OffsetManager.resumeLsn_of_some
  change (offsets.registry.commit consumer lsn).2.get consumer = some lsn
  rw [accepted, OffsetRegistry.get_insert]

theorem from_successor (log : EventLog) {start : Lsn} {last : ChangeEvent} (reached : start ≤ last.lsn)
    (below : last.lsn < Lsn.max) :
    log.from_ (Lsn.saturatingAdd last.lsn 1) = beyond ChangeEvent.lsn last (log.from_ start) := by
  rw [beyond, EventLog.from_, EventLog.from_, List.filter_filter]
  apply List.filter_congr
  intro event member
  rw [← Bool.decide_and, decide_eq_decide, Lsn.saturatingAdd_one_le_iff below]
  exact ⟨fun less => ⟨less, reached.trans (le_of_lt less)⟩, And.left⟩

theorem from_resume_commit {log : EventLog} (below : ∀ event ∈ log.events, event.lsn < Lsn.max) {consumer : String}
    {offsets : OffsetManager} {last : ChangeEvent} (member : last ∈ log.from_ (offsets.resumeLsn consumer)) :
    log.from_ ((offsets.commit consumer last.lsn).2.resumeLsn consumer) =
      beyond ChangeEvent.lsn last (log.from_ (offsets.resumeLsn consumer)) := by
  obtain ⟨inLog, atStart⟩ := List.mem_filter.mp member
  have reached : offsets.resumeLsn consumer ≤ last.lsn := by simpa using atStart
  rw [resumeLsn_commit reached, from_successor log reached (below last inLog)]

theorem catchUp_ends {store : TenantStore} {log : EventLog} (holds : Holds store log)
    (below : ∀ event ∈ log.events, event.lsn < Lsn.max) {limit : Nat} (small : limit < 2 ^ 56)
    (consumer : String) (fuel : Nat) (offsets : OffsetManager)
    (enough : (log.from_ (offsets.resumeLsn consumer)).length < fuel) :
    ∃ pages, catchUp store consumer limit fuel offsets = some pages := by
  induction fuel generalizing offsets with
  | zero => simp at enough
  | succ fuel inductionHypothesis =>
    simp only [catchUp, readFrom_log holds _ small]
    cases isLast : ((log.from_ (offsets.resumeLsn consumer)).take (max limit 1)).getLast? with
    | none => exact ⟨[], rfl⟩
    | some last =>
      have member := List.mem_of_mem_take (List.mem_of_getLast? isLast)
      -- the last event of the page itself is gone, so one unit of fuel less is enough
      have fewer : (beyond ChangeEvent.lsn last (log.from_ (offsets.resumeLsn consumer))).length <
          (log.from_ (offsets.resumeLsn consumer)).length :=
        List.length_filter_lt_length_iff_exists.mpr ⟨last, member, by simp⟩
      obtain ⟨pages, ran⟩ := inductionHypothesis (offsets.commit consumer last.lsn).2
        (by rw [from_resume_commit below member]; omega)
      exact ⟨(log.from_ (offsets.resumeLsn consumer)).take (max limit 1) :: pages, by simp [ran]⟩

theorem catchUp_paged {store : TenantStore} {log : EventLog} (holds : Holds store log)
    (below : ∀ event ∈ log.events, event.lsn < Lsn.max) {limit : Nat} (positive : 0 < limit)
    {consumer : String} {fuel : Nat} {offsets : OffsetManager} {pages : List (List ChangeEvent)}
    (ran : catchUp store consumer limit fuel offsets = some pages) :
    limit < 2 ^ 56 ∧ Paged ChangeEvent.lsn limit (log.from_ (offsets.resumeLsn consumer)) pages := by
  induction fuel generalizing offsets pages with
  | zero => cases ran
  | succ fuel inductionHypothesis =>
    cases read : store.readFrom (offsets.resumeLsn consumer) limit with
    | error fault => simp [catchUp, read] at ran
    | ok page =>
      obtain ⟨small, isPage⟩ := readFrom_log_eq_ok holds read
      rw [Nat.max_eq_left positive] at isPage
      cases isLast : page.getLast? with
      | none =>
        simp only [catchUp, read, isLast, Option.some.injEq] at ran
        subst ran
        exact ⟨small, .done (isPage ▸ List.getLast?_eq_none_iff.mp isLast)⟩
      | some last =>
        simp only [catchUp, read, isLast, Option.map_eq_some_iff] at ran
        obtain ⟨rest, ranRest, rfl⟩ := ran
        subst isPage
        have member := List.mem_of_mem_take (List.mem_of_getLast? isLast)
        obtain ⟨_, paged⟩ := inductionHypothesis ranRest
        rw [from_resume_commit below member] at paged
        exact ⟨small, .next isLast paged⟩

/-- A consumer that catches up reads every stored event from its resume point on
    exactly once if and only if a vector can have the limit for its capacity and no page,
    counted off in `limit`s from there, ends between two events of one LSN.  The loop ends
    whenever the limit is not too large. -/
theorem catch_up_complete_iff (store : TenantStore) (log : EventLog) (holds : Holds store log)
    (below : ∀ event ∈ log.events, event.lsn < Lsn.max) (limit : Nat) (positive : 0 < limit)
    (consumer : String) (offsets : OffsetManager) :
    (limit < 2 ^ 56 → ∃ pages,
        catchUp store consumer limit ((log.from_ (offsets.resumeLsn consumer)).length + 1) offsets = some pages) ∧
      ((∃ fuel pages, catchUp store consumer limit fuel offsets = some pages ∧
          pages.flatten.Perm (log.from_ (offsets.resumeLsn consumer))) ↔
        limit < 2 ^ 56 ∧ CleanCuts ChangeEvent.lsn limit (log.from_ (offsets.resumeLsn consumer))) := by
  refine ⟨fun small => catchUp_ends holds below small consumer _ offsets (Nat.lt_succ_self _), ?_⟩
  constructor
  · rintro ⟨fuel, pages, ran, complete⟩
    obtain ⟨small, paged⟩ := catchUp_paged holds below positive ran
    exact ⟨small, (paged.flatten_perm_iff positive (from_lsn_sorted log _)).mp complete⟩
  · rintro ⟨small, clean⟩
    obtain ⟨pages, ran⟩ := catchUp_ends holds below small consumer _ offsets (Nat.lt_succ_self _)
    obtain ⟨_, paged⟩ := catchUp_paged holds below positive ran
    exact ⟨_, pages, ran, (paged.flatten_perm_iff positive (from_lsn_sorted log _)).mpr clean⟩

/-- Two changes of one LSN, as two transactions may well have them. -/
def twinEvents : List ChangeEvent := [orderInsert 5 1, orderInsert 5 2]

def twinLog : EventLog := EventLog.empty.write twinEvents (by decide)

def twinStore : TenantStore := ⟨AList.singleton "tenant_default" twinLog.image, ⟨"default"⟩⟩

/-- Read one at a time, the second of the twins is passed over. -/
theorem catch_up_skips_twin :
    ∃ pages, catchUp twinStore "c" 1 3 .new = some pages ∧ ¬ pages.flatten.Perm (twinLog.from_ 0) := by
  have holds : Holds twinStore twinLog := rfl
  obtain ⟨pages, ran⟩ := catchUp_ends holds (by decide) (show 1 < 2 ^ 56 by decide) "c" 3 .new (by decide)
  obtain ⟨_, paged⟩ := catchUp_paged holds (by decide) Nat.one_pos ran
  refine ⟨pages, ran, fun permuted => ?_⟩
  have clean := (paged.flatten_perm_iff Nat.one_pos (from_lsn_sorted twinLog _)).mp permuted
  exact clean 1 (orderInsert 5 1) (orderInsert 5 2) Nat.one_pos rfl rfl rfl

/-- Read two at a time, both are seen. -/
theorem catch_up_complete_of_twins :
    (∃ fuel pages, catchUp twinStore "c" 2 fuel .new = some pages ∧
        pages.flatten.Perm (twinLog.from_ (OffsetManager.new.resumeLsn "c"))) ↔
      2 < 2 ^ 56 ∧ CleanCuts ChangeEvent.lsn 2 (twinLog.from_ (OffsetManager.new.resumeLsn "c")) :=
  (catch_up_complete_iff twinStore twinLog rfl (by decide) 2 Nat.two_pos "c" .new).2

end Nendi.Verified
