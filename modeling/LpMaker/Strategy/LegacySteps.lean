import LpMaker.Strategy.Legacy

/-!
# What one legacy evaluation can do

`AdvanceStep` lists the phase transitions with their guards, the frame lemmas state
what each stage leaves alone, and `evaluateInner_cases` splits a whole evaluation by
the gate that ends it. Later invariants are derived from these lemmas and never
unfold the evaluator.
-/

namespace LpMaker.Strategy

variable {F : Type} [F64 F] {c : StrategyConfig F} {f : MarketFrame F} {m : Metrics F}
  (continuity unsafeMarket healthy : Bool) {s : Strategy F}

section Stages

omit [F64 F] in
theorem resetHealthyProgress_frame (now : Nat) (reason : String) :
    ∃ recoveryProgress, s.resetHealthyProgress now reason =
      { s with healthyHours := 0, recoveryProgress := recoveryProgress } :=
  ⟨_, rfl⟩

omit [F64 F] in
theorem clearHours_frame (reasoned : Bool) (reason : String) :
    ∃ recoveryProgress, s.clearHours f reasoned reason =
      { s with healthyHours := 0, recoveryProgress := recoveryProgress } := by
  unfold clearHours resetHealthyProgress
  split_ifs <;> exact ⟨_, rfl⟩

theorem recheckProgress_frame (blockers : List String) :
    ∃ healthyHours recoveryProgress, (s.recheckProgress f m blockers).1 =
      { s with healthyHours := healthyHours, recoveryProgress := recoveryProgress } := by
  unfold recheckProgress resetHealthyProgress
  dsimp only
  split_ifs
  · exact ⟨_, _, rfl⟩
  · exact ⟨_, _, rfl⟩
  · split <;> exact ⟨_, _, rfl⟩

omit [F64 F] in
theorem countHour_frame (event : String) :
    ∃ lastHour healthyHours recoveryProgress,
      (s.countHour f m continuity unsafeMarket healthy event).1 =
        { s with
          lastHour := lastHour
          healthyHours := healthyHours
          recoveryProgress := recoveryProgress } := by
  unfold countHour clearHours resetHealthyProgress
  dsimp only
  split_ifs <;> exact ⟨_, _, _, rfl⟩

omit [F64 F] in
theorem pauseForRisk_frame [F64 F] (blockers : List String) :
    ∃ healthyHours recoveryProgress, s.pauseForRisk f continuity blockers =
      { s with
        phase := .paused
        pauseSince := if s.phase ≠ .paused then f.nowMs else s.pauseSince
        fraction := 0
        layers := s.layers.clearStreaks
        healthyHours := healthyHours
        recoveryProgress := recoveryProgress } := by
  unfold pauseForRisk resetHealthyProgress
  dsimp only
  split_ifs <;> exact ⟨_, _, rfl⟩

theorem creditHour_frame (event : String) :
    ∃ lastHour healthyHours recoveryProgress, s.creditHour c f continuity m event =
      { s with
        lastHour := lastHour
        healthyHours := healthyHours
        recoveryProgress := recoveryProgress } := by
  obtain ⟨_, _, _, counted⟩ := countHour_frame (s := s) (f := f) (m := m) continuity
    (!(marketRisks c f m).isEmpty) (Progress.blockers c f m (marketRisks c f m)).isEmpty event
  unfold creditHour reportProgress
  dsimp only
  split_ifs <;> exact ⟨_, _, _, by rw [counted]⟩

/-- Without a market risk the observation only touches the progress fields. -/
theorem observeMarket_of_safe (safe : marketRisks c f m = []) :
    ∃ lastHour healthyHours recoveryProgress, (s.observeMarket c f continuity m).1 =
      { s with
        lastHour := lastHour
        healthyHours := healthyHours
        recoveryProgress := recoveryProgress } := by
  obtain ⟨_, _, applied⟩ : ∃ healthyHours recoveryProgress,
      (s.applyRisk c f continuity m).1 =
        { s with healthyHours := healthyHours, recoveryProgress := recoveryProgress } := by
    simp only [applyRisk, safe, ne_eq, not_true_eq_false, if_false]
    split_ifs
    · exact recheckProgress_frame _
    · exact ⟨_, _, rfl⟩
  obtain ⟨_, _, _, credited⟩ := creditHour_frame (c := c) (f := f) (m := m)
    (s := (s.applyRisk c f continuity m).1) continuity
    (s.applyRisk c f continuity m).2.2
  exact ⟨_, _, _, by rw [observeMarket, credited, applied]⟩

/-- A market risk pauses the strategy. -/
theorem observeMarket_of_risk (risk : marketRisks c f m ≠ []) :
    ∃ lastHour healthyHours recoveryProgress, (s.observeMarket c f continuity m).1 =
      { s with
        phase := .paused
        pauseSince := if s.phase ≠ .paused then f.nowMs else s.pauseSince
        fraction := 0
        layers := s.layers.clearStreaks
        lastHour := lastHour
        healthyHours := healthyHours
        recoveryProgress := recoveryProgress } := by
  obtain ⟨_, _, paused⟩ := pauseForRisk_frame (s := s) (f := f) continuity
    (Progress.blockers c f m (marketRisks c f m))
  have applied : (s.applyRisk c f continuity m).1 =
      s.pauseForRisk f continuity (Progress.blockers c f m (marketRisks c f m)) := by
    simp only [applyRisk, risk, ne_eq, not_false_eq_true, if_true]
  obtain ⟨_, _, _, credited⟩ := creditHour_frame (c := c) (f := f) (m := m)
    (s := (s.applyRisk c f continuity m).1) continuity
    (s.applyRisk c f continuity m).2.2
  exact ⟨_, _, _, by rw [observeMarket, credited, applied, paused]⟩

end Stages

/-- The phase transitions of one observation. The result is the new state and the intent,
or `none` while a paused strategy keeps waiting. -/
inductive AdvanceStep (c : StrategyConfig F) (f : MarketFrame F)
    (continuity unsafeMarket healthy : Bool) (s : Strategy F) :
    Strategy F → Option (LpIntent F × List String) → Prop where
  | firstEntry (paused : s.phase = .paused) (first : s.entryHistory = .initial)
      (safe : unsafeMarket = false) (reasons : List String) :
      AdvanceStep c f continuity unsafeMarket healthy s
        { s with phase := .active, fraction := 1 } (some (.deploy 1, reasons))
  | resume (paused : s.phase = .paused) (known : s.entryHistory ≠ .initial)
      (confirmed : s.canResume c f continuity unsafeMarket healthy = true) :
      AdvanceStep c f continuity unsafeMarket healthy s
        { s with phase := .recovering, fraction := c.recoveryFraction, lastScale := f.nowMs }
        (some (.deploy c.recoveryFraction, []))
  | wait (paused : s.phase = .paused)
      (unconfirmed : s.canResume c f continuity unsafeMarket healthy = false) :
      AdvanceStep c f continuity unsafeMarket healthy s s none
  | warm (warmup : s.phase = .warmup) (flat : f.portfolio.positions = [])
      (reasons : List String) :
      AdvanceStep c f continuity unsafeMarket healthy s
        { s with phase := .active, fraction := 1 } (some (.deploy 1, reasons))
  | adopt (warmup : s.phase = .warmup) (held : f.portfolio.positions ≠ []) :
      AdvanceStep c f continuity unsafeMarket healthy s
        { s with phase := .active, fraction := 1 } (some (.hold, []))
  | scale (recovering : s.phase = .recovering) (confirmed : !continuity || healthy)
      (hours : c.resumeHealthyHours ≤ s.healthyHours)
      (due : c.recoveryStepHours * 3600000 ≤ f.nowMs - s.lastScale) :
      AdvanceStep c f continuity unsafeMarket healthy s
        { s with
          fraction := min (s.fraction + c.recoveryFraction) 1
          lastScale := f.nowMs
          phase := if min (s.fraction + c.recoveryFraction) 1 ≥ 1 then .active else s.phase }
        (some (.deploy (min (s.fraction + c.recoveryFraction) 1), []))
  | keep (notPaused : s.phase ≠ .paused) (notWarmup : s.phase ≠ .warmup) :
      AdvanceStep c f continuity unsafeMarket healthy s s (some (.hold, []))

/-- Every phase transition is one of the listed steps. -/
theorem advance_step : AdvanceStep c f continuity unsafeMarket healthy s
    (s.advance c f continuity unsafeMarket healthy).1
    (s.advance c f continuity unsafeMarket healthy).2 := by
  unfold advance
  by_cases paused : s.phase = .paused
  · simp only [if_pos paused]
    by_cases first : s.entryHistory = .initial ∧ (!unsafeMarket) = true
    · simp only [if_pos first]
      exact .firstEntry paused first.1 (by simpa using first.2) _
    · simp only [if_neg first]
      by_cases confirmed : s.canResume c f continuity unsafeMarket healthy = true
      · simp only [if_pos confirmed]
        have safe : (!unsafeMarket) = true := by
          simp only [canResume, Bool.and_eq_true] at confirmed
          exact confirmed.1.1.1
        exact .resume paused (fun initial => first ⟨initial, safe⟩) confirmed
      · simp only [if_neg confirmed]
        exact .wait paused (by simpa using confirmed)
  · simp only [if_neg paused]
    by_cases warmup : s.phase = .warmup
    · simp only [if_pos warmup]
      by_cases flat : f.portfolio.positions = []
      · simp only [if_pos flat]
        exact .warm warmup flat _
      · simp only [if_neg flat]
        exact .adopt warmup flat
    · simp only [if_neg warmup]
      by_cases due : s.phase = .recovering ∧ (!continuity || healthy) = true ∧
          s.healthyHours ≥ c.resumeHealthyHours ∧
          f.nowMs - s.lastScale ≥ c.recoveryStepHours * 3600000
      · simp only [if_pos due]
        exact .scale due.1 due.2.1 due.2.2.1 due.2.2.2
      · simp only [if_neg due]
        exact .keep paused warmup

section Account

/-- A drawdown halts; nothing else touches the phase before the market is read. -/
theorem accountEquity_phase :
    (s.accountEquity c f).phase = .halted ∨ (s.accountEquity c f).phase = s.phase := by
  simp only [accountEquity, haltWhen_phase, trackPeak_phase]
  split_ifs
  · exact .inl rfl
  · exact .inr rfl

@[simp] theorem accountEquity_entryHistory :
    (s.accountEquity c f).entryHistory = s.entryHistory := by
  simp [accountEquity]

@[simp] theorem accountEquity_peakEquity :
    (s.accountEquity c f).peakEquity =
      max (max s.peakEquity (f.portfolio.equity f.pool.price)) c.totalCapital := by
  simp [accountEquity]

omit [F64 F] in
/-- A frame with a position settles the entry history and keeps the phase. -/
theorem startFrame_of_held (held : f.portfolio.positions ≠ []) :
    (s.startFrame f).phase = s.phase ∧ (s.startFrame f).entryHistory = .established := by
  simp [startFrame, enterFromWarmup, observeLp, held]

/-- A paused strategy stays paused through the observation of the market. -/
theorem observeMarket_of_paused (m : Metrics F) (paused : s.phase = .paused) :
    (s.observeMarket c f continuity m).1.phase = .paused ∧
      (s.observeMarket c f continuity m).1.entryHistory = s.entryHistory ∧
      (s.observeMarket c f continuity m).1.pauseSince = s.pauseSince := by
  by_cases safe : marketRisks c f m = []
  · obtain ⟨_, _, _, observed⟩ := observeMarket_of_safe (s := s) continuity safe
    rw [observed]
    exact ⟨paused, rfl, rfl⟩
  · obtain ⟨_, _, _, observed⟩ := observeMarket_of_risk (s := s) continuity safe
    rw [observed]
    exact ⟨rfl, rfl, by simp [paused]⟩

end Account

section Settle

/-- Every layer reported for a reset belongs to an observed position. -/
theorem observeLayers_resets (newBar : Bool) :
    ∀ layer ∈ (s.observeLayers c f newBar).resets,
      layer ∈ f.portfolio.positions.map LpPosition.layer := by
  have added (pass : LayerPass F) (pos : LpPosition F) :
      ∀ layer ∈ (observeLayer c f.pool.price newBar pass pos).resets,
        layer ∈ pass.resets ∨ layer = pos.layer := by
    intro layer mem
    simp only [observeLayer] at mem
    by_cases confirmed : (if newBar = true then
        countBreakout c f.pool.price pos
          (protectLayer c f.pool.price pos (pass.layers.entry pos.layer))
      else (protectLayer c f.pool.price pos (pass.layers.entry pos.layer), false)).2 = true
    · rw [if_pos confirmed] at mem
      simpa using mem
    · rw [if_neg confirmed] at mem
      exact .inl mem
  have invariant (positions : List (LpPosition F)) (pass : LayerPass F) :
      ∀ layer ∈ (positions.foldl (observeLayer c f.pool.price newBar) pass).resets,
        layer ∈ pass.resets ∨ layer ∈ positions.map LpPosition.layer := by
    induction positions generalizing pass with
    | nil => intro layer mem; exact .inl mem
    | cons pos positions inductionHypothesis =>
        intro layer mem
        rcases inductionHypothesis _ layer mem with earlier | later
        · rcases added pass pos layer earlier with old | rfl
          · exact .inl old
          · exact .inr List.mem_cons_self
        · exact .inr (List.mem_cons_of_mem _ later)
  intro layer mem
  rcases invariant _ _ layer mem with none | held
  · cases none
  · exact held

/-- Settling a decision only touches the decision bar and the layer counters. -/
theorem settle_frame {lp : LpIntent F} {reasons : List String} {t : Strategy F} {d : Decision F}
    (settled : s.settle c f lp reasons = (t, d)) :
    ∃ lastDecisionBar layers,
      t = { s with lastDecisionBar := lastDecisionBar, layers := layers } := by
  obtain ⟨_, _, entered⟩ : ∃ lastDecisionBar layers, (s.enterBar c f).1 =
      { s with lastDecisionBar := lastDecisionBar, layers := layers } := by
    unfold enterBar
    dsimp only
    split_ifs <;> exact ⟨_, _, rfl⟩
  obtain rfl : t = (s.settle c f lp reasons).1 := by rw [settled]
  exact ⟨_, _, by rw [settle, entered]⟩

/-- Settling keeps the intent, except that a hold may become a recentre of held layers. -/
theorem settle_lp {lp : LpIntent F} {reasons : List String} {t : Strategy F} {d : Decision F}
    (settled : s.settle c f lp reasons = (t, d)) :
    d.lp = lp ∨ lp = .hold ∧ ∃ layers, d.lp = .recenter layers ∧ layers ≠ [] ∧
      ∀ layer ∈ layers, layer ∈ f.portfolio.positions.map LpPosition.layer := by
  obtain rfl : d = (s.settle c f lp reasons).2 := by rw [settled]
  unfold settle
  dsimp only
  split_ifs with reset
  · exact .inr ⟨reset.1, _, rfl, reset.2, observeLayers_resets _⟩
  · exact .inl rfl

end Settle

/-- The gate that ends an evaluation, with the resulting state and decision. -/
inductive LegacyStep (c : StrategyConfig F) (f : MarketFrame F) (continuity : Bool)
    (s : Strategy F) : Strategy F → Decision F → Prop where
  | unusable (unusable : (stale c f || !validFrame f) = true) {d : Decision F}
      (holds : d.lp = .hold) :
      LegacyStep c f continuity s ((s.startFrame f).onUnusableFrame f continuity) d
  | halted (usable : (stale c f || !validFrame f) = false)
      (halted : ((s.startFrame f).accountEquity c f).phase = .halted) {d : Decision F}
      (exits : d.lp = .exitToQuote) :
      LegacyStep c f continuity s ((s.startFrame f).accountEquity c f) d
  | noIndicators (usable : (stale c f || !validFrame f) = false)
      (running : ((s.startFrame f).accountEquity c f).phase ≠ .halted) {e : String}
      (missing : Indicators.calculate f.candles c f.nowMs = .error e) {d : Decision F}
      (holds : d.lp = .hold) :
      LegacyStep c f continuity s
        (if continuity then ((s.startFrame f).accountEquity c f).freezeRecoveryProgress
          else (s.startFrame f).accountEquity c f) d
  | market (usable : (stale c f || !validFrame f) = false)
      (running : ((s.startFrame f).accountEquity c f).phase ≠ .halted) {m : Metrics F}
      (computed : Indicators.calculate f.candles c f.nowMs = .ok m) {t : Strategy F}
      {d : Decision F}
      (decided : ((s.startFrame f).accountEquity c f).decideMarket c f continuity m = (t, d)) :
      LegacyStep c f continuity s t d

/-- Every evaluation ends at one of the gates. -/
theorem evaluateInner_step {continuity : Bool} {t : Strategy F} {d : Decision F}
    (evaluated : s.evaluateInner c f continuity = (t, d)) : LegacyStep c f continuity s t d := by
  unfold evaluateInner at evaluated
  by_cases usable : (stale c f || !validFrame f) = true
  · simp only [if_pos usable] at evaluated
    cases evaluated
    exact .unusable usable rfl
  · simp only [if_neg usable] at evaluated
    rw [Bool.not_eq_true] at usable
    by_cases halted : ((s.startFrame f).accountEquity c f).phase = .halted
    · simp only [if_pos halted] at evaluated
      cases evaluated
      exact .halted usable halted rfl
    · simp only [if_neg halted] at evaluated
      cases computed : Indicators.calculate f.candles c f.nowMs with
      | error e =>
          simp only [computed] at evaluated
          cases evaluated
          exact .noIndicators usable halted computed rfl
      | ok m =>
          simp only [computed] at evaluated
          exact .market usable halted computed evaluated

/-- How a decision on the market follows from the phase transition. -/
inductive MarketStep (c : StrategyConfig F) (f : MarketFrame F) (continuity : Bool)
    (m : Metrics F) (s : Strategy F) : Strategy F → Decision F → Prop where
  | wait {t : Strategy F} {d : Decision F}
      (advanced : AdvanceStep c f continuity (!(marketRisks c f m).isEmpty)
        (Progress.blockers c f m (marketRisks c f m)).isEmpty
        (s.observeMarket c f continuity m).1 t none)
      (exits : d.lp = .exitToQuote) : MarketStep c f continuity m s t d
  | decide {t u : Strategy F} {lp : LpIntent F} {reasons all : List String} {d : Decision F}
      (advanced : AdvanceStep c f continuity (!(marketRisks c f m).isEmpty)
        (Progress.blockers c f m (marketRisks c f m)).isEmpty
        (s.observeMarket c f continuity m).1 u (some (lp, reasons)))
      (settled : u.settle c f lp all = (t, d)) : MarketStep c f continuity m s t d

theorem decideMarket_step {continuity : Bool} {t : Strategy F} {d : Decision F}
    (decided : s.decideMarket c f continuity m = (t, d)) : MarketStep c f continuity m s t d := by
  have step := advance_step (c := c) (f := f) (s := (s.observeMarket c f continuity m).1) continuity
    (!(marketRisks c f m).isEmpty) (Progress.blockers c f m (marketRisks c f m)).isEmpty
  unfold decideMarket at decided
  dsimp only at decided
  split at decided
  · next waits =>
      rw [waits] at step
      cases decided
      exact .wait step rfl
  · next lp reasons acts =>
      rw [acts] at step
      exact .decide step decided

end LpMaker.Strategy
