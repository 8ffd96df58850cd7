import LpMaker.Strategy.LegacySteps
import LpMaker.Strategy.ProfileSteps

/-!
# The entry history through an evaluation

An evaluation changes the entry history only by observing a position.
-/

namespace LpMaker

variable {F : Type} [F64 F] {c : StrategyConfig F} {f : MarketFrame F} {s t : Strategy F}
  {d : Decision F}

/-- The entry history is kept, or a position of the frame settles it. -/
def KeepsHistory (f : MarketFrame F) (before after : EntryHistory) : Prop :=
  after = before ∨ f.portfolio.positions ≠ [] ∧ after = .established

omit [F64 F] in
theorem KeepsHistory.of_established {before after : EntryHistory}
    (keeps : KeepsHistory f before after) (settled : before = .established) :
    after = .established := by
  rcases keeps with same | ⟨-, established⟩
  · exact same.trans settled
  · exact established

omit [F64 F] in
theorem keepsHistory_observeLp :
    KeepsHistory f s.entryHistory (s.observeLp (!f.portfolio.positions.isEmpty)).entryHistory := by
  rw [Strategy.observeLp_entryHistory]
  cases positions : f.portfolio.positions with
  | nil => exact .inl rfl
  | cons position rest => exact .inr ⟨by simp [positions], rfl⟩

namespace Strategy

omit [F64 F] in
@[simp] theorem enterFromWarmup_entryHistory :
    (s.enterFromWarmup f).entryHistory = s.entryHistory := by
  unfold enterFromWarmup
  split_ifs <;> rfl

omit [F64 F] in
@[simp] theorem onUnusableFrame_entryHistory (continuity : Bool) :
    (s.onUnusableFrame f continuity).entryHistory = s.entryHistory := by
  unfold onUnusableFrame
  dsimp only
  split_ifs <;> rfl

theorem AdvanceStep.entryHistory {continuity unsafeMarket healthy : Bool}
    {intent : Option (LpIntent F × List String)}
    (step : AdvanceStep c f continuity unsafeMarket healthy s t intent) :
    t.entryHistory = s.entryHistory := by
  cases step <;> rfl

theorem observeMarket_entryHistory (continuity : Bool) (m : Metrics F) :
    (s.observeMarket c f continuity m).1.entryHistory = s.entryHistory := by
  by_cases safe : marketRisks c f m = []
  · obtain ⟨_, _, _, observed⟩ := observeMarket_of_safe (s := s) continuity safe
    rw [observed]
  · obtain ⟨_, _, _, observed⟩ := observeMarket_of_risk (s := s) continuity safe
    rw [observed]

theorem decideMarket_entryHistory {continuity : Bool} {m : Metrics F}
    (decided : s.decideMarket c f continuity m = (t, d)) : t.entryHistory = s.entryHistory := by
  cases decideMarket_step decided with
  | wait advanced _ => exact advanced.entryHistory.trans (observeMarket_entryHistory continuity m)
  | decide advanced settled =>
      obtain ⟨_, _, rfl⟩ := settle_frame settled
      exact advanced.entryHistory.trans (observeMarket_entryHistory continuity m)

theorem evaluateInner_keepsHistory {continuity : Bool}
    (evaluated : s.evaluateInner c f continuity = (t, d)) :
    KeepsHistory f s.entryHistory t.entryHistory := by
  have started : KeepsHistory f s.entryHistory (s.startFrame f).entryHistory := by
    unfold startFrame
    rw [enterFromWarmup_entryHistory]
    exact keepsHistory_observeLp
  have unchanged : t.entryHistory = (s.startFrame f).entryHistory := by
    cases evaluateInner_step evaluated with
    | unusable _ _ => exact onUnusableFrame_entryHistory continuity
    | halted _ _ _ => exact accountEquity_entryHistory
    | noIndicators _ _ _ _ =>
        split_ifs
        · exact accountEquity_entryHistory
        · exact accountEquity_entryHistory
    | market _ _ _ decided =>
        exact (decideMarket_entryHistory decided).trans accountEquity_entryHistory
  exact unchanged ▸ started

end Strategy

namespace Band

variable {profile : PersistentConfig F} {band : BandConfig F} {x : Feature F}

theorem act_entryHistory {o : Observation F} :
    (act profile band c f x o).1.entryHistory = o.s.entryHistory := by
  by_cases leaves : o.leaves
  · rw [act, if_pos leaves]
    simp [exit]
  · rw [act, if_neg leaves]
    by_cases held : f.portfolio.positions ≠ []
    · rw [if_pos held]
      unfold holdPosition
      dsimp only
      split_ifs <;> rfl
    · rw [if_neg held]
      unfold enterOrWait
      dsimp only
      split_ifs <;> exact Strategy.awaitCooldown_entryHistory ..

theorem evaluate_keepsHistory :
    KeepsHistory f s.entryHistory (evaluate profile band c f x s).1.entryHistory := by
  have history := (observe_accounted profile band c f x s).history
  have acted : (evaluate profile band c f x s).1.entryHistory =
      (observe profile band c f x s).s.entryHistory := act_entryHistory
  rw [acted, history]
  split_ifs with flat
  · exact .inl rfl
  · exact .inr ⟨flat, rfl⟩

end Band

namespace Persistent

variable {profile : PersistentConfig F} {x : Feature F}

omit [F64 F] in
theorem anchorPause_entryHistory (st : PersistentState F) :
    (anchorPause c s st).1.entryHistory = s.entryHistory := by
  unfold anchorPause
  split_ifs <;> rfl

theorem act_entryHistory {o : Observation F} :
    (act profile c f o).1.entryHistory = o.s.entryHistory := by
  by_cases leaves : o.leaves
  · rw [act, if_pos leaves]
    simp [exit]
  · rw [act, if_neg leaves]
    by_cases flat : f.portfolio.positions = []
    · rw [if_pos flat]
      unfold enterOrWait
      dsimp only
      split_ifs <;> exact Strategy.awaitCooldown_entryHistory ..
    · rw [if_neg flat]
      rfl

theorem evaluateRange_keepsHistory :
    KeepsHistory f s.entryHistory (evaluateRange profile c f x s).1.entryHistory := by
  have acted : (evaluateRange profile c f x s).1.entryHistory =
      (observe profile c f x s).s.entryHistory := act_entryHistory
  have observed : (observe profile c f x s).s.entryHistory =
      (s.observeLp (!f.portfolio.positions.isEmpty)).entryHistory := by
    simp [observe, anchorPause_entryHistory]
  rw [acted, observed]
  exact keepsHistory_observeLp

theorem onBrokenHistory_entryHistory (e : String) :
    (onBrokenHistory c f e s).1.entryHistory = s.entryHistory := by
  unfold onBrokenHistory
  dsimp only
  split_ifs <;> rfl

theorem evaluate_keepsHistory :
    KeepsHistory f s.entryHistory (evaluate profile c f s).1.entryHistory := by
  unfold evaluate
  cases Feature.latest f.candles f.nowMs with
  | error e => exact .inl (onBrokenHistory_entryHistory e)
  | ok x =>
      dsimp only
      unfold evaluateFeature
      by_cases unusable : x.unusable c f = true
      · rw [if_pos unusable]
        exact .inl rfl
      · rw [if_neg unusable]
        cases profile.band with
        | none => exact evaluateRange_keepsHistory
        | some band => exact Band.evaluate_keepsHistory

end Persistent

/-- An evaluation of the EVM runner observes at most a position. -/
theorem Strategy.evaluateWithContinuity_keepsHistory :
    KeepsHistory f s.entryHistory (s.evaluateWithContinuity c f).1.entryHistory := by
  unfold evaluateWithContinuity
  cases c.ethPersistent with
  | none => exact evaluateInner_keepsHistory rfl
  | some profile => exact Persistent.evaluate_keepsHistory

end LpMaker
