import LpMaker.Strategy.Progress
import LpMaker.Semantics.Result

/-!
# Recovery transitions

What a restart, an unfinished workflow or a missing layer does to the persisted
strategy. The clock of the source is read at each use, so every reading is an
argument of its own.
-/

namespace LpMaker.Recovery

variable {F : Type}

/-- What the recovery of the entry history reads of the store. -/
structure HistoryStore where
  /-- `nfts.json` registers a position. -/
  registered : Bool
  /-- Whether the marker of `lp_history.json`, if there is one, says `ever_opened`. -/
  lpHistory : Option Bool
  pending : Bool
  workflow : Bool

/-- The marker after `record_lp_history`, which never replaces an existing one. -/
def recordLpHistory (store : HistoryStore) : Except String (Option Bool) :=
  match store.lpHistory with
  | some everOpened => do
      ensure everOpened "invalid LP history marker"
      .ok (some everOpened)
  | none => .ok (some true)

/-- The marker as it stands once this state has been taken as evidence. -/
def lpHistory (store : HistoryStore) (s : Strategy F) : Except String (Option Bool) :=
  if store.registered || s.entryHistory = .established then recordLpHistory store
  else .ok store.lpHistory

/-- Durable evidence of an earlier position settles the entry history. -/
def restoreEntryHistory (store : HistoryStore) (s : Strategy F) :
    Except String (Strategy F) := do
  match ← lpHistory store s with
  | some everOpened => do
      ensure everOpened "invalid LP history marker"
      .ok { s with entryHistory := .established }
  | none =>
      -- Warmup has never passed the initial-entry state transition.
      .ok (if s.entryHistory = .legacyUnknown ∧ s.phase = .warmup then
        { s with entryHistory := .initial } else s)

/-- An operator asserts that an older flat checkpoint has never opened a position. The
result says whether the assertion was recorded. -/
def confirmFirstEntry [F64 F] (store : HistoryStore) (portfolio : Portfolio F)
    (s : Strategy F) : Except String (Strategy F × Bool) := do
  let s ← restoreEntryHistory store (s.observeLp (!portfolio.positions.isEmpty))
  if s.entryHistory ≠ .legacyUnknown ∨ s.phase = .halted then .ok (s, false)
  else do
    ensure (!store.pending && !store.workflow)
      "first entry requires completed transaction/workflow reconciliation"
    ensure (portfolio.positions = [] ∧ |portfolio.walletBase| ≤ 1e-8 ∧
        |portfolio.shortBase| ≤ 1e-8)
      "first entry confirmation requires flat reconciled inventory"
    .ok ({ s with entryHistory := .initial }, true)

/-- Forget the progress, its anchor and the breakout streaks. -/
def invalidateObservationStreaks (now : Nat) (s : Strategy F) : Strategy F :=
  let s := s.resetHealthyProgress now "workflow_or_inventory_changed"
  { s with
    recoveryProgress := { s.recoveryProgress with anchor := none, observedMs := 0 }
    layers := s.layers.clearStreaks }

/-- A restart only freezes the healthy hours; the next usable frame settles them. -/
def prepareObservationRevalidation (s : Strategy F) : Strategy F :=
  let s := s.freezeRecoveryProgress
  { s with layers := s.layers.clearStreaks }

/-- Pause after a recovered workflow. A halt is kept. -/
def finishWorkflowRecovery [F64 F] (paused invalidated : Nat) (s : Strategy F) : Strategy F :=
  let s := if s.phase ≠ .halted then { s with phase := .paused, pauseSince := paused } else s
  invalidateObservationStreaks invalidated { s with fraction := 0 }

/-- Pause when a running strategy misses one of its layers. The result says whether it did. -/
def pauseIncompleteInventory [F64 F] (actualLayers : List String) (c : Config F)
    (paused invalidated : Nat) (s : Strategy F) : Strategy F × Bool :=
  if (s.phase = .active ∨ s.phase = .recovering) ∧
      ∃ layer ∈ c.strategy.layers, layer.name ∉ actualLayers then
    (invalidateObservationStreaks invalidated
      { s with phase := .paused, pauseSince := paused, fraction := 0 }, true)
  else (s, false)

section Frame

variable (s : Strategy F)

/-- Restoring the entry history touches nothing else. -/
theorem restoreEntryHistory_frame {store : HistoryStore} {s t : Strategy F}
    (restored : restoreEntryHistory store s = .ok t) :
    ∃ entryHistory, t = { s with entryHistory := entryHistory } := by
  obtain ⟨lpHistory, -, restored⟩ := bind_eq_ok.mp restored
  cases lpHistory with
  | some everOpened =>
      obtain ⟨-, restored⟩ := check_bind_eq_ok.mp restored
      cases restored
      exact ⟨_, rfl⟩
  | none =>
      simp only [Except.ok.injEq] at restored
      split_ifs at restored <;> exact ⟨_, restored.symm⟩

/-- The assertion of a first entry only touches the entry history. -/
theorem confirmFirstEntry_frame [F64 F] {store : HistoryStore} {portfolio : Portfolio F}
    {s t : Strategy F} {confirmed : Bool}
    (asserted : confirmFirstEntry store portfolio s = .ok (t, confirmed)) :
    ∃ entryHistory, t = { s with entryHistory := entryHistory } := by
  obtain ⟨restored, restoring, asserted⟩ := bind_eq_ok.mp asserted
  obtain ⟨_, rfl⟩ := restoreEntryHistory_frame restoring
  have observed : ∃ entryHistory, s.observeLp (!portfolio.positions.isEmpty) =
      { s with entryHistory := entryHistory } := by
    unfold Strategy.observeLp
    split_ifs <;> exact ⟨_, rfl⟩
  obtain ⟨_, observed⟩ := observed
  rw [observed] at asserted
  split_ifs at asserted
  · cases asserted
    exact ⟨_, rfl⟩
  · obtain ⟨-, asserted⟩ := check_bind_eq_ok.mp asserted
    obtain ⟨-, asserted⟩ := check_bind_eq_ok.mp asserted
    cases asserted
    exact ⟨_, rfl⟩

theorem invalidateObservationStreaks_phase (now : Nat) :
    (invalidateObservationStreaks now s).phase = s.phase := rfl

@[simp] theorem invalidateObservationStreaks_peakEquity (now : Nat) :
    (invalidateObservationStreaks now s).peakEquity = s.peakEquity := rfl

theorem finishWorkflowRecovery_phase [F64 F] (paused invalidated : Nat) :
    (finishWorkflowRecovery paused invalidated s).phase =
      if s.phase = .halted then .halted else .paused := by
  unfold finishWorkflowRecovery
  by_cases halted : s.phase = .halted
  · simp [halted, invalidateObservationStreaks_phase]
  · simp [halted, invalidateObservationStreaks_phase]

@[simp] theorem finishWorkflowRecovery_peakEquity [F64 F] (paused invalidated : Nat) :
    (finishWorkflowRecovery paused invalidated s).peakEquity = s.peakEquity := by
  unfold finishWorkflowRecovery
  by_cases halted : s.phase = .halted <;> simp [halted]

/-- A complete inventory changes nothing; an incomplete one pauses and clears the hours. -/
theorem pauseIncompleteInventory_cases [F64 F] (actualLayers : List String) (c : Config F)
    (paused invalidated : Nat) :
    pauseIncompleteInventory actualLayers c paused invalidated s = (s, false) ∨
      ∃ t, pauseIncompleteInventory actualLayers c paused invalidated s = (t, true) ∧
        t.lastHour = s.lastHour ∧ t.healthyHours = 0 := by
  unfold pauseIncompleteInventory
  split_ifs
  · exact .inr ⟨_, rfl, rfl, rfl⟩
  · exact .inl rfl

end Frame

end LpMaker.Recovery
