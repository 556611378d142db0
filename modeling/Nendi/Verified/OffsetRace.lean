import Mathlib.Data.List.Induction
import Nendi.Core.Offset

/-! # Commits that overlap

A commit decides on the offset it looked up, which may be old by the time it
inserts its own.  `commits_never_decrease_iff` says for every interleaving whether
an offset is ever moved back: exactly when a commit that its lookup lets through
is overtaken by one with a larger LSN. -/

namespace Nendi.Verified

open Nendi.Lib Nendi.Shared Nendi.Core

/-! ## Offsets that do not go back -/

/-- A committed offset stays committed and only grows. -/
def Kept (earlier later : Option Lsn) : Prop :=
  ∀ offset, earlier = some offset → ∃ newer, later = some newer ∧ offset ≤ newer

theorem Kept.refl (offset : Option Lsn) : Kept offset offset := fun lsn found => ⟨lsn, found, le_refl lsn⟩

theorem Kept.trans {first second third : Option Lsn} (before : Kept first second)
    (behind : Kept second third) : Kept first third := by
  intro offset found
  obtain ⟨newer, foundNewer, le⟩ := before offset found
  obtain ⟨newest, foundNewest, leNewest⟩ := behind newer foundNewer
  exact ⟨newest, foundNewest, le.trans leNewest⟩

def storedOffset (registry : OffsetRegistry) (past : List CommitStep) (consumer : String) : Option Lsn :=
  (CommitRace.after registry past).registry.get consumer

/-- No consumer's offset is lower at a later point of the run than at an earlier one. -/
def NeverDecreases (registry : OffsetRegistry) (order : List CommitStep) : Prop :=
  ∀ consumer past between, past ++ between <+: order →
    Kept (storedOffset registry past consumer) (storedOffset registry (past ++ between) consumer)

variable {registry : OffsetRegistry}

theorem neverDecreases_of_steps {order : List CommitStep}
    (kept : ∀ consumer past action, past ++ [action] <+: order →
      Kept (storedOffset registry past consumer) (storedOffset registry (past ++ [action]) consumer)) :
    NeverDecreases registry order := by
  intro consumer past between within
  induction between using List.reverseRecOn with
  | nil =>
    rw [List.append_nil]
    exact Kept.refl _
  | append_singleton between action inductionHypothesis =>
    rw [← List.append_assoc] at within ⊢
    have shorter := inductionHypothesis ((List.prefix_append _ _).trans within)
    exact shorter.trans (kept consumer (past ++ between) action within)

/-! ## What a step does -/

/-- The commit goes through if it saw no offset, or none ahead of its own. -/
def Admits (seen : Option Lsn) (lsn : Lsn) : Prop := ∀ current, seen = some current → current ≤ lsn

theorem commitWith_of_admits {seen : Option Lsn} {lsn : Lsn} (admits : Admits seen lsn)
    (consumer : String) :
    (registry.commitWith consumer lsn seen).2 = registry.insert consumer lsn := by
  cases seen with
  | none => rfl
  | some current =>
    have behind : ¬ lsn < current := not_lt.mpr (admits current rfl)
    simp [OffsetRegistry.commitWith, Lsn.isAheadOf, behind]

theorem commitWith_of_not_admits {seen : Option Lsn} {lsn : Lsn} (refused : ¬ Admits seen lsn)
    (consumer : String) : (registry.commitWith consumer lsn seen).2 = registry := by
  cases seen with
  | none => exact absurd (fun _ found => by cases found) refused
  | some current =>
    have ahead : lsn < current := by
      refine not_le.mp fun behind => refused ?_
      intro other same
      cases same
      exact behind
    simp [OffsetRegistry.commitWith, Lsn.isAheadOf, ahead]

@[simp] theorem storedOffset_lookup (past : List CommitStep) (place : Nat) (request : CommitRequest)
    (consumer : String) :
    storedOffset registry (past ++ [.lookup place request]) consumer =
      storedOffset registry past consumer := by
  rw [storedOffset, CommitRace.after_snoc]
  rfl

theorem storedOffset_finish_of_ne (past : List CommitStep) (place : Nat) {request : CommitRequest}
    {consumer : String} (different : consumer ≠ request.consumer) :
    storedOffset registry (past ++ [.finish place request]) consumer =
      storedOffset registry past consumer := by
  rw [storedOffset, CommitRace.after_snoc]
  simp only [CommitRace.step]
  by_cases admits : Admits ((CommitRace.after registry past).seen place) request.lsn
  · rw [commitWith_of_admits admits, OffsetRegistry.get_insert_of_ne _ different]
    rfl
  · rw [commitWith_of_not_admits admits]
    rfl

theorem storedOffset_finish_of_admits {past : List CommitStep} {place : Nat} {request : CommitRequest}
    (admits : Admits ((CommitRace.after registry past).seen place) request.lsn) :
    storedOffset registry (past ++ [.finish place request]) request.consumer = some request.lsn := by
  rw [storedOffset, CommitRace.after_snoc]
  simp only [CommitRace.step]
  rw [commitWith_of_admits admits, OffsetRegistry.get_insert]

theorem storedOffset_finish_of_refused {past : List CommitStep} {place : Nat} {request : CommitRequest}
    (refused : ¬ Admits ((CommitRace.after registry past).seen place) request.lsn) (consumer : String) :
    storedOffset registry (past ++ [.finish place request]) consumer =
      storedOffset registry past consumer := by
  rw [storedOffset, CommitRace.after_snoc]
  simp only [CommitRace.step]
  rw [commitWith_of_not_admits refused]
  rfl

theorem storedOffset_step (registry : OffsetRegistry) (past : List CommitStep) (action : CommitStep)
    (consumer : String) :
    storedOffset registry (past ++ [action]) consumer = storedOffset registry past consumer ∨
      ∃ place request, action = .finish place request ∧ request.consumer = consumer ∧
        Admits ((CommitRace.after registry past).seen place) request.lsn := by
  cases action with
  | lookup place request => exact .inl (storedOffset_lookup past place request consumer)
  | finish place request =>
    by_cases same : consumer = request.consumer
    · by_cases admits : Admits ((CommitRace.after registry past).seen place) request.lsn
      · exact .inr ⟨place, request, rfl, same.symm, admits⟩
      · exact .inl (storedOffset_finish_of_refused admits consumer)
    · exact .inl (storedOffset_finish_of_ne past place same)

/-- An offset found at the end of a stretch was there at its beginning, or a
    commit that finished in the stretch brought it. -/
theorem storedOffset_origin {past between : List CommitStep} {consumer : String} {offset : Lsn}
    (found : storedOffset registry (past ++ between) consumer = some offset) :
    storedOffset registry past consumer = some offset ∨
      ∃ place request, .finish place request ∈ between ∧ request.consumer = consumer ∧
        request.lsn = offset := by
  induction between using List.reverseRecOn with
  | nil =>
    rw [List.append_nil] at found
    exact .inl found
  | append_singleton between action inductionHypothesis =>
    rw [← List.append_assoc] at found
    obtain unchanged | ⟨place, request, rfl, rfl, admits⟩ :=
      storedOffset_step registry (past ++ between) action consumer
    · rw [unchanged] at found
      obtain atStart | ⟨place, request, member, rest⟩ := inductionHypothesis found
      · exact .inl atStart
      · exact .inr ⟨place, request, List.mem_append_left _ member, rest⟩
    · rw [storedOffset_finish_of_admits admits, Option.some.injEq] at found
      exact .inr ⟨place, request, by simp, rfl, found⟩

/-! ## What a commit saw -/

theorem seen_kept {place : Nat} (past between : List CommitStep)
    (noLookup : ∀ request, .lookup place request ∉ between) :
    (CommitRace.after registry (past ++ between)).seen place =
      (CommitRace.after registry past).seen place := by
  induction between using List.reverseRecOn with
  | nil => rw [List.append_nil]
  | append_singleton between action inductionHypothesis =>
    rw [← List.append_assoc, CommitRace.after_snoc]
    have earlier := inductionHypothesis fun request member =>
      noLookup request (List.mem_append_left _ member)
    cases action with
    | finish other request => exact earlier
    | lookup other request =>
      have different : place ≠ other := by
        rintro rfl
        exact noLookup request (by simp)
      rw [← earlier]
      exact Function.update_of_ne different _ _

/-- An order in which every request takes each of its two steps once, the lookup first. -/
structure CommitOrder (order : List CommitStep) : Prop where
  once : order.Nodup
  lookupFirst : ∀ past place request later, order = past ++ .finish place request :: later →
    .lookup place request ∈ past
  samePlace : ∀ place first second, .lookup place first ∈ order → .lookup place second ∈ order →
    first = second

theorem mem_commitPrograms {requests : List CommitRequest} {action : CommitStep}
    (member : action ∈ (commitPrograms requests).flatten) :
    ∃ place request, requests[place]? = some request ∧
      (action = .lookup place request ∨ action = .finish place request) := by
  obtain ⟨program, inPrograms, inProgram⟩ := List.mem_flatten.mp member
  obtain ⟨place, bound, rfl⟩ := List.mem_mapIdx.mp inPrograms
  exact ⟨place, requests[place], List.getElem?_eq_getElem bound, by simpa using inProgram⟩

theorem commitPrograms_nodup (requests : List CommitRequest) :
    (commitPrograms requests).flatten.Nodup := by
  -- the steps of a request carry its place, so no two steps are the same
  rw [List.nodup_flatten]
  constructor
  · intro program inPrograms
    obtain ⟨place, bound, rfl⟩ := List.mem_mapIdx.mp inPrograms
    simp
  · rw [List.pairwise_iff_getElem]
    intro first second firstBound secondBound less
    simp only [commitPrograms, List.getElem_mapIdx]
    intro action inFirst inSecond
    simp only [List.mem_cons, List.not_mem_nil, or_false] at inFirst inSecond
    obtain rfl | rfl := inFirst
    · simp [less.ne] at inSecond
    · simp [less.ne] at inSecond

theorem commitOrder_of_interleave {requests : List CommitRequest} {schedule : List Nat}
    {order : List CommitStep} (scheduled : interleave (commitPrograms requests) schedule = some order) :
    CommitOrder order := by
  have permuted := interleave_perm scheduled
  have once : order.Nodup := permuted.nodup_iff.mpr (commitPrograms_nodup requests)
  have listed : ∀ action ∈ order, ∃ place request, requests[place]? = some request ∧
      (action = .lookup place request ∨ action = .finish place request) := fun action member =>
    mem_commitPrograms (permuted.subset member)
  refine ⟨once, ?_, ?_⟩
  · intro past place request later split
    obtain ⟨place, request, found, isLookup | isFinish⟩ := listed (.finish place request) (by simp [split])
    · cases isLookup
    · cases isFinish
      subst split
      have program : (commitPrograms requests)[place]? =
          some [.lookup place request, .finish place request] := by
        simp [commitPrograms, found]
      exact mem_past_of_sublist once (interleave_sublist scheduled program)
  · intro place first second inFirst inSecond
    obtain ⟨_, _, foundFirst, isLookup | isFinish⟩ := listed _ inFirst
    · cases isLookup
      obtain ⟨_, _, foundSecond, isLookup | isFinish⟩ := listed _ inSecond
      · cases isLookup
        exact Option.some.inj (foundFirst.symm.trans foundSecond)
      · cases isFinish
    · cases isFinish

theorem CommitOrder.seen {order : List CommitStep} (ordered : CommitOrder order)
    {before between after : List CommitStep} {place : Nat} {request : CommitRequest}
    (split : order = before ++ .lookup place request :: (between ++ .finish place request :: after)) :
    (CommitRace.after registry (before ++ .lookup place request :: between)).seen place =
      storedOffset registry before request.consumer := by
  have noLookup : ∀ other, .lookup place other ∉ between := by
    intro other member
    have same := ordered.samePlace place request other (by simp [split]) (by simp [split, member])
    subst same
    have once := ordered.once
    rw [split, List.nodup_append, List.nodup_cons] at once
    exact once.2.1.1 (List.mem_append_left _ member)
  rw [List.append_cons, seen_kept _ _ noLookup, CommitRace.after_snoc]
  exact Function.update_self _ _ _

/-- Where nothing goes back, a commit that has finished is at least matched by the
    stored offset, whether it was refused or not. -/
theorem storedOffset_ge_of_finish {order : List CommitStep} (ordered : CommitOrder order)
    (never : NeverDecreases registry order) {past later : List CommitStep} {place : Nat}
    {request : CommitRequest} (split : order = past ++ .finish place request :: later) :
    Kept (some request.lsn)
      (storedOffset registry (past ++ [.finish place request]) request.consumer) := by
  obtain ⟨before, between, rfl⟩ := List.append_of_mem (ordered.lookupFirst past place request later split)
  have sawStored : _ = storedOffset registry before request.consumer :=
    ordered.seen (by simpa using split)
  by_cases admits : Admits ((CommitRace.after registry (before ++ .lookup place request :: between)).seen
      place) request.lsn
  · rw [storedOffset_finish_of_admits admits]
    exact Kept.refl _
  · rw [sawStored] at admits
    simp only [Admits, not_forall, not_le] at admits
    obtain ⟨current, found, ahead⟩ := admits
    have kept := never request.consumer before
      (.lookup place request :: between ++ [.finish place request])
      ⟨later, by simp [split]⟩
    obtain ⟨newer, foundNewer, le⟩ := kept current found
    intro offset same
    cases same
    exact ⟨newer, by rw [← foundNewer, List.append_assoc], ahead.le.trans le⟩

/-! ## Overtaking -/

theorem finish_le_of_never {order : List CommitStep} (ordered : CommitOrder order)
    (never : NeverDecreases registry order) {before between after : List CommitStep} {place : Nat}
    {request : CommitRequest}
    (split : order = before ++ .lookup place request :: (between ++ .finish place request :: after))
    (admits : Admits (storedOffset registry before request.consumer) request.lsn) {other : Nat}
    {otherRequest : CommitRequest} (member : .finish other otherRequest ∈ between)
    (sameConsumer : otherRequest.consumer = request.consumer) : otherRequest.lsn ≤ request.lsn := by
  rw [← ordered.seen split] at admits
  obtain ⟨left, right, rfl⟩ := List.append_of_mem member
  have splitOther : order = (before ++ .lookup place request :: left) ++
      .finish other otherRequest :: (right ++ .finish place request :: after) := by
    simp [split]
  obtain ⟨reached, foundReached, le⟩ :=
    storedOffset_ge_of_finish ordered never splitOther otherRequest.lsn rfl
  -- from there to the end of the overtaken commit the offset may not fall
  have kept := never request.consumer (before ++ .lookup place request :: left ++
    [.finish other otherRequest]) (right ++ [.finish place request]) ⟨after, by simp [split]⟩
  rw [← sameConsumer] at kept
  obtain ⟨newest, foundNewest, leNewest⟩ := kept reached foundReached
  have finished := storedOffset_finish_of_admits admits
  rw [sameConsumer] at foundNewest
  simp only [List.append_assoc, List.cons_append, List.nil_append] at foundNewest finished
  cases foundNewest.symm.trans finished
  exact le.trans leNewest

theorem kept_of_not_overtaken {before between : List CommitStep} {place : Nat} {request : CommitRequest}
    (admits : Admits (storedOffset registry before request.consumer) request.lsn)
    (notOvertaken : ∀ other otherRequest, .finish other otherRequest ∈ between →
      otherRequest.consumer = request.consumer → otherRequest.lsn ≤ request.lsn) :
    Kept (storedOffset registry (before ++ .lookup place request :: between) request.consumer)
      (some request.lsn) := by
  -- a commit that is not overtaken finds no larger offset when it inserts its own
  intro offset found
  refine ⟨request.lsn, rfl, ?_⟩
  -- the offset in the way was there at the lookup already, or came in between
  rw [List.append_cons] at found
  obtain atLookup | ⟨other, otherRequest, member, sameConsumer, rfl⟩ := storedOffset_origin found
  · rw [storedOffset_lookup] at atLookup
    exact admits offset atLookup
  · exact notOvertaken other otherRequest member sameConsumer

/-- In every run of overlapping commits, from every registry, no consumer's offset
    ever decreases if and only if no commit is overtaken: while one runs whose LSN
    is not behind the offset stored at its lookup, no commit of a larger LSN
    for the same consumer finishes. -/
theorem commits_never_decrease_iff (registry : OffsetRegistry) (requests : List CommitRequest)
    (schedule : List Nat) (order : List CommitStep)
    (scheduled : interleave (commitPrograms requests) schedule = some order) :
    NeverDecreases registry order ↔
      ∀ before place request between after,
        order = before ++ .lookup place request :: (between ++ .finish place request :: after) →
        Admits (storedOffset registry before request.consumer) request.lsn →
        ∀ other otherRequest, .finish other otherRequest ∈ between →
          otherRequest.consumer = request.consumer → otherRequest.lsn ≤ request.lsn := by
  have ordered := commitOrder_of_interleave scheduled
  constructor
  · intro never before place request between after split admits other otherRequest member sameConsumer
    exact finish_le_of_never ordered never split admits member sameConsumer
  · intro notOvertaken
    apply neverDecreases_of_steps
    intro consumer past action within
    obtain unchanged | ⟨place, request, rfl, rfl, admits⟩ :=
      storedOffset_step registry past action consumer
    · rw [unchanged]
      exact Kept.refl _
    · obtain ⟨after, split⟩ := within
      rw [List.append_assoc, List.singleton_append] at split
      obtain ⟨before, between, rfl⟩ :=
        List.append_of_mem (ordered.lookupFirst past place request after split.symm)
      have whole : order = before ++ .lookup place request ::
          (between ++ .finish place request :: after) := by simp [← split]
      rw [storedOffset_finish_of_admits admits]
      -- what it decides on is the offset of its lookup, not the one it replaces
      rw [ordered.seen whole] at admits
      exact kept_of_not_overtaken admits (notOvertaken before place request between after whole admits)

/-- Two commits for one consumer that both look before either inserts. -/
def overlappingCommits : List CommitRequest := [⟨"c", 100⟩, ⟨"c", 50⟩]

theorem overtaken_commit_decreases :
    ∃ order, interleave (commitPrograms overlappingCommits) [0, 1, 0, 1] = some order ∧
      ¬ NeverDecreases .new order := by
  refine ⟨_, rfl, fun never => ?_⟩
  obtain ⟨newer, found, le⟩ := never "c" [.lookup 0 ⟨"c", 100⟩, .lookup 1 ⟨"c", 50⟩, .finish 0 ⟨"c", 100⟩]
    [.finish 1 ⟨"c", 50⟩] List.prefix_rfl 100 (by decide)
  cases (show some 50 = some newer from found)
  exact absurd le (by decide)

/-- The same two, one after the other. -/
theorem commits_never_decrease_in_turn :
    ∃ order, interleave (commitPrograms overlappingCommits) [0, 0, 1, 1] = some order ∧
      (NeverDecreases .new order ↔
        ∀ before place request between after,
          order = before ++ .lookup place request :: (between ++ .finish place request :: after) →
          Admits (storedOffset .new before request.consumer) request.lsn →
          ∀ other otherRequest, .finish other otherRequest ∈ between →
            otherRequest.consumer = request.consumer → otherRequest.lsn ≤ request.lsn) :=
  ⟨_, rfl, commits_never_decrease_iff .new overlappingCommits [0, 0, 1, 1] _ rfl⟩

end Nendi.Verified
