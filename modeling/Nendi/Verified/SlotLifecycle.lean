import Nendi.Pgsql.Slot

/-! # The replication slot over time

`ensure_slot` asks for the consistent point of a slot it has created in a column that it
cannot read, so that the call panics with the slot in place; `slot_never_reported_new` says
so for any callers and any interleaving of their queries, and `start_succeeds_iff` what it
means for one daemon that is started again and again.  `check_lag_exact` says that the
warning at 85 % of the cap, computed in floating point, comes at exactly 85 %. -/

namespace Nendi.Verified

open Nendi.Lib Nendi.Shared Nendi.Pgsql

/-! ## Creating -/

variable {γ : Type}

def panicked (name : String) (history : List (SlotAction γ × SlotOutput)) : Nat :=
  history.countP fun
    | (.create _ manager _, .returned (.error .panic)) => decide (manager.slotName = name)
    | _ => false

def droppedSlots (name : String) (history : List (SlotAction γ × SlotOutput)) : Nat :=
  history.countP fun
    | (.dropSlot manager _, .dropped (.ok ())) => decide (manager.slotName = name)
    | _ => false

def slotCount (server : Server) (name : String) : Nat := if name ∈ server.slots then 1 else 0

theorem ensureCheck_cases (manager : SlotManager) (server : Server) :
    manager.ensureCheck server = none ∨ manager.ensureCheck server = some (.ok none) ∨
      ∃ text, manager.ensureCheck server = some (.error (.err (.message text))) := by
  unfold SlotManager.ensureCheck
  split
  next => exact .inr (.inl rfl)
  next =>
    split
    next => exact .inl rfl
    next => exact .inr (.inr ⟨_, rfl⟩)

/-- The second query fails and changes nothing, or creates the slot and makes the call panic. -/
theorem ensureCreate_cases (driver : Driver) (pg : SlotServer) (manager : SlotManager) (server : Server)
    (choice : pg.Choice) :
    (∃ fault, manager.ensureCreate driver pg server choice = (.error (.err (.pg fault)), server)) ∨
      manager.slotName ∉ server.slots ∧ manager.ensureCreate driver pg server choice =
        (.error .panic, { server with slots := server.slots.insert manager.slotName (some (pg.point choice)) }) := by
  unfold SlotManager.ensureCreate
  cases asked : pg.createSlot server manager.slotName choice with
  | error fault => exact .inl ⟨fault, rfl⟩
  | ok answer =>
    obtain ⟨cell, next⟩ := answer
    obtain ⟨missing, isLsn, rfl⟩ := pg.created _ _ _ _ _ asked
    refine .inr ⟨missing, ?_⟩
    simp only [driver.refuses cell (.inl isLsn)]

/-- What is created and not dropped is there, and no call has returned a consistent point. -/
structure SlotLedger (initial : Server) (history : List (SlotAction γ × SlotOutput)) (system : SlotSystem) : Prop where
  balanced : ∀ name, panicked name history + slotCount initial name =
    droppedSlots name history + slotCount system.server name
  silent : ∀ action lsn, (action, .returned (.ok (some lsn))) ∉ history

section Steps

variable {initial : Server} {past : List (SlotAction γ × SlotOutput)} {system : SlotSystem}

theorem SlotLedger.quiet (ledger : SlotLedger initial past system) {action : SlotAction γ} {output : SlotOutput}
    {next : SlotSystem} (notPanicked : ∀ name, panicked name [(action, output)] = 0)
    (notDropped : ∀ name, droppedSlots name [(action, output)] = 0)
    (notReported : ∀ lsn, output ≠ .returned (.ok (some lsn))) (sameServer : next.server = system.server) :
    SlotLedger initial (past ++ [(action, output)]) next := by
  constructor
  case balanced =>
    intro name
    rw [panicked, droppedSlots, List.countP_append, List.countP_append, ← panicked, ← droppedSlots, ← panicked,
      ← droppedSlots, notPanicked, notDropped, sameServer]
    exact ledger.balanced name
  case silent =>
    intro other lsn listed
    cases List.mem_append.mp listed with
    | inl earlier => exact ledger.silent other lsn earlier
    | inr now =>
      cases List.mem_singleton.mp now
      exact notReported lsn rfl

theorem SlotLedger.created (ledger : SlotLedger initial past system) (caller : Nat) {manager : SlotManager}
    (choice : γ) {point : Lsn} (missing : manager.slotName ∉ system.server.slots) {next : SlotSystem}
    (inserted : next.server.slots = system.server.slots.insert manager.slotName (some point)) :
    SlotLedger initial (past ++ [(.create caller manager choice, .returned (.error .panic))]) next := by
  constructor
  case balanced =>
    intro name
    have before := ledger.balanced name
    by_cases same : manager.slotName = name
    · subst same
      simp only [panicked, droppedSlots, List.countP_append, slotCount, inserted, AList.mem_insert] at before ⊢
      simp only [missing, or_false, if_true, if_false, List.countP_singleton, decide_true] at before ⊢
      simp only [Bool.false_eq_true, if_false]
      omega
    · have other : name ∈ next.server.slots ↔ name ∈ system.server.slots := by
        rw [inserted, AList.mem_insert]
        simp [Ne.symm same]
      simpa [panicked, droppedSlots, slotCount, other, same] using before
  case silent =>
    intro other lsn listed
    simpa using ledger.silent other lsn (by simpa using listed)

theorem SlotLedger.dropped (ledger : SlotLedger initial past system) {manager : SlotManager} (choice : γ)
    (present : manager.slotName ∈ system.server.slots) {next : SlotSystem}
    (erased : next.server.slots = system.server.slots.erase manager.slotName) :
    SlotLedger initial (past ++ [(.dropSlot manager choice, .dropped (.ok ()))]) next := by
  constructor
  case balanced =>
    intro name
    have before := ledger.balanced name
    by_cases same : manager.slotName = name
    · subst same
      simp only [panicked, droppedSlots, List.countP_append, slotCount, erased, AList.mem_erase] at before ⊢
      simp only [present, ne_eq, not_true_eq_false, false_and, if_true, if_false, List.countP_singleton, decide_true]
        at before ⊢
      simp only [Bool.false_eq_true, if_false]
      omega
    · have other : name ∈ next.server.slots ↔ name ∈ system.server.slots := by
        rw [erased, AList.mem_erase]
        simp [Ne.symm same]
      simpa [panicked, droppedSlots, slotCount, other, same] using before
  case silent =>
    intro other lsn listed
    simpa using ledger.silent other lsn (by simpa using listed)

end Steps

theorem slotLedger_step {driver : Driver} {pg : SlotServer} {initial : Server}
    (past : List (SlotAction pg.Choice × SlotOutput)) (system : SlotSystem) (action : SlotAction pg.Choice)
    (next : SlotSystem) (output : SlotOutput) (ledger : SlotLedger initial past system)
    (stepped : system.step driver pg action = some (next, output)) :
    SlotLedger initial (past ++ [(action, output)]) next := by
  cases action with
  | ensure caller manager =>
    cases inside : system.creating caller with
    | some other => simp [SlotSystem.step, inside] at stepped
    | none =>
      obtain goesOn | exists_ | ⟨text, refused⟩ := ensureCheck_cases manager system.server
      · simp only [SlotSystem.step, inside, goesOn, Option.some.injEq, Prod.mk.injEq] at stepped
        obtain ⟨rfl, rfl⟩ := stepped
        exact ledger.quiet (fun _ => rfl) (fun _ => rfl) (by simp) rfl
      · simp only [SlotSystem.step, inside, exists_, Option.some.injEq, Prod.mk.injEq] at stepped
        obtain ⟨rfl, rfl⟩ := stepped
        exact ledger.quiet (fun _ => rfl) (fun _ => rfl) (by simp) rfl
      · simp only [SlotSystem.step, inside, refused, Option.some.injEq, Prod.mk.injEq] at stepped
        obtain ⟨rfl, rfl⟩ := stepped
        exact ledger.quiet (fun _ => rfl) (fun _ => rfl) (by simp) rfl
  | create caller manager choice =>
    by_cases inside : system.creating caller = some manager
    · obtain ⟨fault, failed⟩ | ⟨missing, created⟩ := ensureCreate_cases driver pg manager system.server choice
      · simp only [SlotSystem.step, inside, failed, if_true, Option.some.injEq, Prod.mk.injEq] at stepped
        obtain ⟨rfl, rfl⟩ := stepped
        exact ledger.quiet (fun _ => rfl) (fun _ => rfl) (by simp) rfl
      -- the slot is there, but its position cannot be read as a string
      · simp only [SlotSystem.step, inside, created, if_true, Option.some.injEq, Prod.mk.injEq] at stepped
        obtain ⟨rfl, rfl⟩ := stepped
        exact ledger.created caller choice missing rfl
    · simp [SlotSystem.step, inside] at stepped
  | dropSlot manager choice =>
    cases asked : pg.dropSlot system.server manager.slotName choice with
    | ok server =>
      simp only [SlotSystem.step, asked, Option.some.injEq, Prod.mk.injEq] at stepped
      obtain ⟨rfl, rfl⟩ := stepped
      obtain ⟨present, rfl⟩ := pg.dropped _ _ _ _ asked
      exact ledger.dropped choice present rfl
    | error fault =>
      simp only [SlotSystem.step, asked, Option.some.injEq, Prod.mk.injEq] at stepped
      obtain ⟨rfl, rfl⟩ := stepped
      exact ledger.quiet (fun _ => rfl) (fun _ => rfl) (by simp) rfl

/-- However many callers interleave their queries, and whatever the server refuses: no call of
    `ensure_slot` returns the consistent point of a new slot.  The calls that panic are as many
    as the slots created, each with its slot left behind. -/
theorem slot_never_reported_new (driver : Driver) (pg : SlotServer) (server : Server)
    (actions : List (SlotAction pg.Choice)) (final : SlotSystem) (history : List (SlotAction pg.Choice × SlotOutput))
    (ran : run (SlotSystem.step driver pg) (.start server) actions = some (final, history)) :
    (∀ action lsn, (action, .returned (.ok (some lsn))) ∉ history) ∧
      ∀ name, panicked name history + slotCount server name = droppedSlots name history + slotCount final.server name := by
  have initially : SlotLedger server ([] : List (SlotAction pg.Choice × SlotOutput)) (.start server) :=
    ⟨fun name => by simp [panicked, droppedSlots, SlotSystem.start], by simp⟩
  have ledger : SlotLedger server history final := run_invariant initially slotLedger_step ran
  exact ⟨ledger.silent, ledger.balanced⟩

/-! ### A server that grants every call -/

def strictDriver : Driver where
  getStr cell := if cell.type = .text ∨ cell.type = .name then some cell.text else none
  reads cell isText := if_pos isText
  refuses cell other := if_neg (by rcases other with isLsn | isChar <;> simp [*])

def grantingServer : SlotServer where
  Choice := Lsn
  createSlot server name point :=
    if name ∈ server.slots then .error (.slotExists name)
    else .ok (⟨.pgLsn, Lsn.toPgString point⟩, { server with slots := server.slots.insert name (some point) })
  dropSlot server name _ :=
    if name ∈ server.slots then .ok { server with slots := server.slots.erase name } else .error (.noSlot name)
  point := id
  created server name point cell next asked := by
    split at asked
    · cases asked
    · next missing =>
      cases asked
      exact ⟨missing, rfl, rfl⟩
  dropped server name point next asked := by
    split at asked
    · next present =>
      cases asked
      exact ⟨present, rfl⟩
    · cases asked

/-- Two daemons start at once. -/
def racingStarts : List (SlotAction Lsn) :=
  [.ensure 0 ⟨"nendi_slot", true⟩, .ensure 1 ⟨"nendi_slot", true⟩, .create 1 ⟨"nendi_slot", true⟩ 7,
    .create 0 ⟨"nendi_slot", true⟩ 8, .ensure 0 ⟨"nendi_slot", true⟩]

theorem slot_never_reported_new_racing :
    ∃ final history,
      run (SlotSystem.step strictDriver grantingServer) (.start ⟨9, ∅⟩) racingStarts = some (final, history) ∧
      panicked "nendi_slot" history = 1 ∧ slotCount final.server "nendi_slot" = 1 ∧
      ∀ action lsn, (action, .returned (.ok (some lsn))) ∉ history := by
  obtain ⟨final, history, ran, once⟩ : ∃ final history,
      run (SlotSystem.step strictDriver grantingServer) (.start ⟨9, ∅⟩) racingStarts = some (final, history) ∧
        panicked "nendi_slot" history = 1 ∧ slotCount final.server "nendi_slot" = 1 :=
    ⟨_, _, rfl, by decide, by decide⟩
  exact ⟨final, history, ran, once.1, once.2,
    (slot_never_reported_new strictDriver grantingServer _ _ final history ran).1⟩

/-! ## Starting -/

variable {driver : Driver} {pg : SlotServer}

/-- A start of the daemon: where the WAL is, and what the server does if it is asked for a slot. -/
structure StartAttempt (γ : Type) where
  walLsn : Lsn
  choice : γ

def startStep (driver : Driver) (pg : SlotServer) (manager : SlotLifecycleManager) (server : Server)
    (attempt : StartAttempt pg.Choice) : Exec SlotError Unit × Server :=
  manager.init driver pg { server with walLsn := attempt.walLsn } attempt.choice

/-- The positions of these starts are small enough for a `bigint`. -/
def StartAttempt.InRange (attempt : StartAttempt pg.Choice) : Prop :=
  attempt.walLsn.toNat < 2 ^ 63 ∧ (pg.point attempt.choice).toNat < 2 ^ 63

def Server.InRange (server : Server) (name : String) : Prop :=
  ∀ confirmed, server.slots.lookup name = some (some confirmed) → confirmed.toNat < 2 ^ 63

theorem init_present {manager : SlotLifecycleManager} {server : Server} (present : manager.slotName ∈ server.slots)
    (inRange : Server.InRange server manager.slotName) (walSmall : server.walLsn.toNat < 2 ^ 63)
    (choice : pg.Choice) : manager.init driver pg server choice = (.ok (), server) := by
  obtain ⟨confirmed, found⟩ := Option.isSome_iff_exists.mp (AList.lookup_isSome.mpr present)
  have there : server.slotExists manager.slotName = true := by simp [Server.slotExists, present]
  have lag : ∃ bytes, server.walLagBytes manager.slotName = .ok bytes := by
    rw [Server.walLagBytes, found]
    cases confirmed with
    | none => exact ⟨_, rfl⟩
    | some confirmed =>
      have small := inRange confirmed found
      have fits : ¬ ((server.walLsn.toNat : Int) - confirmed.toNat < -2 ^ 63 ∨
          2 ^ 63 ≤ (server.walLsn.toNat : Int) - confirmed.toNat) := by omega
      exact ⟨_, if_neg fits⟩
  obtain ⟨bytes, lag⟩ := lag
  simp [SlotLifecycleManager.init, SlotManager.ensureCheck, there, lag]

theorem init_missing {manager : SlotLifecycleManager} {server : Server} (missing : manager.slotName ∉ server.slots)
    (choice : pg.Choice) :
    (∃ fault, manager.init driver pg server choice = (.error (.err fault), server)) ∨
      manager.init driver pg server choice =
        (.error .panic, { server with slots := server.slots.insert manager.slotName (some (pg.point choice)) }) := by
  have absent : server.slotExists manager.slotName = false := by simp [Server.slotExists, missing]
  cases auto : manager.autoCreate with
  | false => exact .inl ⟨_, by simp [SlotLifecycleManager.init, SlotManager.ensureCheck, absent, auto]; rfl⟩
  | true =>
    obtain ⟨fault, failed⟩ | ⟨_, created⟩ := ensureCreate_cases driver pg ⟨manager.slotName, true⟩ server choice
    · exact .inl ⟨_, by simp [SlotLifecycleManager.init, SlotManager.ensureCheck, absent, auto, failed]; rfl⟩
    · exact .inr (by simp [SlotLifecycleManager.init, SlotManager.ensureCheck, absent, auto, created])

theorem startStep_present {manager : SlotLifecycleManager} {server : Server} {attempt : StartAttempt pg.Choice}
    (present : manager.slotName ∈ server.slots) (serverInRange : Server.InRange server manager.slotName)
    (inRange : attempt.InRange) :
    startStep driver pg manager server attempt = (.ok (), { server with walLsn := attempt.walLsn }) :=
  @init_present driver pg manager { server with walLsn := attempt.walLsn } present serverInRange inRange.1 _

theorem startStep_missing (driver : Driver) {manager : SlotLifecycleManager} {server : Server}
    (attempt : StartAttempt pg.Choice) (missing : manager.slotName ∉ server.slots) :
    (∃ fault, startStep driver pg manager server attempt =
        (.error (.err fault), { server with walLsn := attempt.walLsn })) ∨
      startStep driver pg manager server attempt =
        (.error .panic, ⟨attempt.walLsn, server.slots.insert manager.slotName (some (pg.point attempt.choice))⟩) :=
  @init_missing driver pg manager { server with walLsn := attempt.walLsn } missing attempt.choice

/-- The slot is there if it was at first or a start has panicked over it. -/
structure Started {γ : Type} (manager : SlotLifecycleManager) (initial : Server)
    (history : List (StartAttempt γ × Exec SlotError Unit)) (server : Server) : Prop where
  present : manager.slotName ∈ server.slots ↔
    manager.slotName ∈ initial.slots ∨ ∃ attempt, (attempt, .error .panic) ∈ history
  inRange : Server.InRange server manager.slotName

theorem Started.step {manager : SlotLifecycleManager} {initial server : Server}
    {history : List (StartAttempt pg.Choice × Exec SlotError Unit)} (started : Started manager initial history server)
    {attempt : StartAttempt pg.Choice} (inRange : attempt.InRange) :
    Started manager initial (history ++ [(attempt, (startStep driver pg manager server attempt).1)])
      (startStep driver pg manager server attempt).2 := by
  by_cases present : manager.slotName ∈ server.slots
  · rw [startStep_present present started.inRange inRange]
    exact ⟨by simpa using started.present, started.inRange⟩
  · obtain ⟨fault, failed⟩ | created := startStep_missing driver attempt present
    · rw [failed]
      exact ⟨by simpa using started.present, started.inRange⟩
    · rw [created]
      constructor
      case present =>
        refine iff_of_true ((AList.mem_insert _).mpr (.inl rfl)) (.inr ⟨attempt, by simp⟩)
      case inRange =>
        intro confirmed found
        rw [AList.lookup_insert] at found
        cases found
        exact inRange.2

theorem warnThreshold_eq : warnThreshold = 17 / 20 - 1 / (5 * 2 ^ 53) := by
  -- the literal lies one fifth of its last bit below 85 %
  norm_num [warnThreshold]

section Threshold

variable {cap : Nat} (positive : 0 < cap) (small : cap < 2 ^ 49)
include positive small

theorem warned_bounds : (0 : ℚ) < cap * warnThreshold ∧ cap * warnThreshold < 2 ^ (49 : Int) ∧
    (cap : ℚ) < 2 * (cap * warnThreshold) ∧ (cap : ℚ) * warnThreshold ≤ 17 / 20 * cap ∧
    17 / 20 * cap - 1 / 80 ≤ (cap : ℚ) * warnThreshold := by
  have positive' : (0 : ℚ) < cap := by exact_mod_cast positive
  have small' : (cap : ℚ) < 562949953421312 := by exact_mod_cast small
  rw [warnThreshold_eq]
  norm_num
  refine ⟨by linarith, by linarith, by linarith, by linarith, by linarith⟩

theorem warned_of_above {lag : Nat} (above : 17 * cap < 20 * lag) : round53 (cap * warnThreshold) < lag := by
  -- above 85 % the product does not round up to the lag
  obtain ⟨isPositive, isSmall, _, atMost, _⟩ := warned_bounds positive small
  have error := (abs_le.mp (round53_error (cap * warnThreshold))).2
  have fine := ulp_le isPositive isSmall
  have above' : 17 / 20 * (cap : ℚ) + 1 / 20 ≤ lag := by
    have whole : 17 * cap + 1 ≤ 20 * lag := above
    have cast : (17 : ℚ) * cap + 1 ≤ 20 * lag := by exact_mod_cast whole
    linarith
  norm_num at fine
  linarith

theorem warned_at {lag : Nat} (exactly : 20 * lag = 17 * cap) : round53 (cap * warnThreshold) = lag := by
  obtain ⟨isPositive, isSmall, half, _, _⟩ := warned_bounds positive small
  obtain ⟨multiple, whole⟩ := natCast_multiple lag isPositive
    (isSmall.trans (zpow_lt_zpow_right₀ (by norm_num) (by norm_num)))
  have short := lt_mul_ulp (cap * warnThreshold)
  have exactly' : (lag : ℚ) = 17 / 20 * cap := by
    have cast : (20 : ℚ) * lag = 17 * cap := by exact_mod_cast exactly
    linarith
  have distance : (cap : ℚ) * warnThreshold - lag = -(cap / (5 * 2 ^ 53)) := by
    rw [exactly', warnThreshold_eq]
    ring
  rw [round53_of_near, ← whole]
  rw [← whole, distance, abs_neg, abs_of_nonneg (by positivity)]
  norm_num at short ⊢
  linarith

theorem not_warned_of_below {lag : Nat} (below : 20 * lag < 17 * cap) : (lag : ℚ) ≤ round53 (cap * warnThreshold) := by
  -- below 85 % the product stays at or above the lag
  obtain ⟨isPositive, _, _, _, atLeast⟩ := warned_bounds positive small
  obtain rfl | lagPositive := Nat.eq_zero_or_pos lag
  · rw [Nat.cast_zero]
    exact (zpow_pos (by norm_num) _).le.trans (zpow_le_round53 isPositive)
  · have le : (lag : ℚ) ≤ cap * warnThreshold := by
      have whole : 20 * lag + 1 ≤ 17 * cap := below
      have cast : (20 : ℚ) * lag + 1 ≤ 17 * cap := by exact_mod_cast whole
      linarith
    have lagSmall : lag < 2 ^ 53 := by omega
    rw [← round53_natCast lagSmall]
    exact round53_mono (by exact_mod_cast lagPositive) le

end Threshold

theorem warned_iff {cap lag : Nat} (small : cap < 2 ^ 49) (within : lag ≤ cap) :
    round53 (round53 cap * warnThreshold) < round53 lag ↔ 17 * cap < 20 * lag := by
  rw [round53_natCast (show cap < 2 ^ 53 by omega), round53_natCast (show lag < 2 ^ 53 by omega)]
  obtain rfl | positive := Nat.eq_zero_or_pos cap
  · rw [Nat.le_zero.mp within]
    simp [round53_zero]
  · obtain below | exactly | above := Nat.lt_trichotomy (20 * lag) (17 * cap)
    · simp [not_lt.mpr (not_warned_of_below positive small below), below.le]
    · simp [warned_at positive small exactly, exactly]
    · simp [warned_of_above positive small above, above]

/-! ## The verdict -/

/-- The status that goes with a lag, in whole numbers. -/
def lagStatus (cap : UInt64) (lag : Nat) : LagStatus :=
  if cap.toNat < lag then .critical (UInt64.ofNat lag) cap
  else if 17 * cap.toNat < 20 * lag then .warning (UInt64.ofNat lag) cap
  else .ok (UInt64.ofNat lag)

theorem evaluate_exact (cap lag : UInt64) (small : cap.toNat < 2 ^ 49) :
    (LagPolicy.new cap).evaluate lag = lagStatus cap lag.toNat := by
  simp only [LagPolicy.evaluate, LagPolicy.new, lagStatus, UInt64.lt_iff_toNat_lt, UInt64.ofNat_toNat]
  by_cases beyond : cap.toNat < lag.toNat
  · rw [if_pos beyond, if_pos beyond]
  · rw [if_neg beyond, if_neg beyond]
    simp only [warned_iff small (not_lt.mp beyond)]

/-- For every server with the slot and every cap below 512 TiB: the lag is how far the WAL is
    ahead of what was confirmed, the status is critical above the cap, and a warning above
    85 % of it, to the byte. -/
theorem check_lag_exact (manager : SlotLifecycleManager) (server : Server) (confirmed : Lsn)
    (found : server.slots.lookup manager.slotName = some (some confirmed))
    (notFar : server.walLsn.toNat < confirmed.toNat + 2 ^ 63)
    (notAhead : confirmed.toNat ≤ server.walLsn.toNat + 2 ^ 63) (small : manager.walLagHardCapBytes.toNat < 2 ^ 49) :
    manager.checkLag server =
      .ok (lagStatus manager.walLagHardCapBytes (server.walLsn.toNat - confirmed.toNat)) := by
  have inRange : ¬ ((server.walLsn.toNat : Int) - confirmed.toNat < -2 ^ 63 ∨
      2 ^ 63 ≤ (server.walLsn.toNat : Int) - confirmed.toNat) := by omega
  have lag : (max ((server.walLsn.toNat : Int) - confirmed.toNat) 0).toNat = server.walLsn.toNat - confirmed.toNat := by
    omega
  have fits : server.walLsn.toNat - confirmed.toNat < 2 ^ 64 := by omega
  simp only [SlotLifecycleManager.checkLag, Server.walLagBytes, found, Option.elim_some, if_neg inRange, lag,
    bind, Except.bind, pure, Except.pure]
  rw [evaluate_exact _ _ small, UInt64.toNat_ofNat_of_lt' fits]

theorem check_lag_exact_one_byte_above :
    ∃ (manager : SlotLifecycleManager) (server : Server), manager.walLagHardCapBytes = 1000 ∧
      manager.checkLag server = .ok (.warning 851 1000) ∧
      manager.checkLag { server with walLsn := 850 } = .ok (.ok 850) := by
  refine ⟨⟨"nendi_slot", "nendi_pub", true, 1000⟩, ⟨851, AList.singleton "nendi_slot" (some 0)⟩, rfl, ?_, ?_⟩
  · exact check_lag_exact _ _ 0 rfl (by decide) (by decide) (by decide)
  · exact check_lag_exact _ _ 0 rfl (by decide) (by decide) (by decide)

end Nendi.Verified
