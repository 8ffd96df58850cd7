import LpMaker.Strategy.Persistent
import LpMaker.Strategy.Regime

/-!
# What one evaluation of the other profiles can do

For the persistent, the band and the regime evaluator: what accounting a frame fixes,
and the resulting phase, peak and intent in each case of the decision. Later invariants
are derived from these lemmas and never unfold the evaluators.
-/

namespace LpMaker

variable {F : Type} [F64 F]

namespace Band

/-- The recorded risk origin of a state, if there is one. -/
def origin (s : Strategy F) : Option F :=
  (s.ethPersistent.bind PersistentState.band).bind BandState.accountOriginEquity

theorem getD_default_origin (bs : Option (BandState F)) :
    (bs.getD .default).accountOriginEquity = bs.bind BandState.accountOriginEquity := by
  cases bs <;> rfl

theorem managedEquity_snd (s : Strategy F) (c : StrategyConfig F) (raw : F) :
    (managedEquity s c raw).2 = c.totalCapital + raw - (origin s).getD raw := by
  unfold managedEquity origin
  cases s.ethPersistent with
  | none => rfl
  | some st => cases h : st.band <;> simp [h, BandState.default]

/-- After an observation the origin is recorded, and it is never replaced. -/
theorem managedEquity_origin (s : Strategy F) (c : StrategyConfig F) (raw : F) :
    origin (managedEquity s c raw).1 = some ((origin s).getD raw) := by
  unfold managedEquity origin
  cases s.ethPersistent with
  | none => rfl
  | some st => cases h : st.band <;> simp [h, BandState.default]

@[simp] theorem managedEquity_entryHistory (s : Strategy F) (c : StrategyConfig F) (raw : F) :
    (managedEquity s c raw).1.entryHistory = s.entryHistory := rfl

@[simp] theorem managedEquity_phase (s : Strategy F) (c : StrategyConfig F) (raw : F) :
    (managedEquity s c raw).1.phase = s.phase := rfl

@[simp] theorem managedEquity_peakEquity (s : Strategy F) (c : StrategyConfig F) (raw : F) :
    (managedEquity s c raw).1.peakEquity = s.peakEquity := rfl

section Anchor

variable (c : StrategyConfig F) (s : Strategy F) (st : PersistentState F)

omit [F64 F]

@[simp] theorem anchorPause_phase : (anchorPause c s st).1.phase = s.phase := by
  unfold anchorPause; split_ifs <;> rfl

@[simp] theorem anchorPause_peakEquity : (anchorPause c s st).1.peakEquity = s.peakEquity := by
  unfold anchorPause; split_ifs <;> rfl

@[simp] theorem anchorPause_entryHistory :
    (anchorPause c s st).1.entryHistory = s.entryHistory := by
  unfold anchorPause; split_ifs <;> rfl

theorem anchorPause_origin :
    (anchorPause c s st).2.band.bind BandState.accountOriginEquity =
      st.band.bind BandState.accountOriginEquity := by
  unfold anchorPause
  split_ifs
  · cases st.band <;> rfl
  · rfl

end Anchor

theorem observeEpisode_frame (band : BandConfig F) (f : MarketFrame F) (eq dd : F)
    (bs : BandState F) :
    (observeEpisode band f eq dd bs).accountOriginEquity = bs.accountOriginEquity ∧
      (observeEpisode band f eq dd bs).pauseThreshold =
        band.tripDrawdown (observeEpisode band f eq dd bs) := by
  unfold observeEpisode
  dsimp only
  split_ifs <;> exact ⟨rfl, rfl⟩

/-- What the accounting of a frame fixes for the decision. -/
structure Accounted (band : BandConfig F) (c : StrategyConfig F) (f : MarketFrame F)
    (s : Strategy F) (o : Observation F) : Prop where
  eq_def : o.eq = (managedEquity s c (f.portfolio.equity f.pool.price)).2
  peak : o.s.peakEquity = max (max s.peakEquity o.eq) c.totalCapital
  dd_def : o.dd = 1 - o.eq / o.s.peakEquity
  phase : o.s.phase = if o.dd ≥ c.maxDrawdown then .halted else s.phase
  history : o.s.entryHistory =
    if f.portfolio.positions = [] then s.entryHistory else .established
  bandOrigin : o.bs.accountOriginEquity =
    some ((origin s).getD (f.portfolio.equity f.pool.price))
  threshold : o.bs.pauseThreshold = band.tripDrawdown o.bs
  globally : o.globally =
    (!f.portfolio.positions.isEmpty && decide (o.dd ≥ o.bs.pauseThreshold))

theorem observe_accounted (profile : PersistentConfig F) (band : BandConfig F)
    (c : StrategyConfig F) (f : MarketFrame F) (x : Feature F) (s : Strategy F) :
    Accounted band c f s (observe profile band c f x s) := by
  constructor
  case eq_def => rfl
  case peak => simp [observe]
  case dd_def => simp [observe]
  case phase => simp [observe]
  case history => simp [observe, Strategy.observeLp_entryHistory]
  case bandOrigin =>
    have recorded := managedEquity_origin s c (f.portfolio.equity f.pool.price)
    simp only [observe, (observeEpisode_frame ..).1, getD_default_origin, anchorPause_origin,
      Strategy.observeLp_ethPersistent]
    rw [← recorded]
    rfl
  case threshold => exact (observeEpisode_frame ..).2
  case globally => rfl

section Act

variable (profile : PersistentConfig F) (band : BandConfig F) (c : StrategyConfig F)
  {f : MarketFrame F} (x : Feature F) {o : Observation F}

/-- On an exit condition the evaluator leaves, and only a halt is kept. -/
theorem act_of_leaves {profile : PersistentConfig F} {band : BandConfig F}
    {c : StrategyConfig F} {x : Feature F} (leaves : o.leaves) :
    (act profile band c f x o).2.2.2.lp = .exitToQuote ∧
      (act profile band c f x o).1.phase =
        (if o.s.phase = .halted then .halted else .paused) ∧
      (act profile band c f x o).1.peakEquity = o.s.peakEquity := by
  unfold act
  rw [if_pos leaves]
  simp [exit]

/-- Holding a position, the evaluator stays active and at most recentres. -/
theorem act_of_held (stays : ¬o.leaves) (held : f.portfolio.positions ≠ []) :
    ((act profile band c f x o).2.2.2.lp = .hold ∨
      (act profile band c f x o).2.2.2.lp =
          .recenter (f.portfolio.positions.map LpPosition.layer) ∧
        (act profile band c f x o).2.2.1 = beginEpisode o.eq o.dd o.bs) ∧
      (act profile band c f x o).1.phase = .active ∧
      (act profile band c f x o).1.peakEquity = o.s.peakEquity := by
  unfold act
  rw [if_neg stays, if_pos held]
  unfold holdPosition
  dsimp only
  split_ifs
  · exact ⟨.inr ⟨rfl, rfl⟩, rfl, rfl⟩
  · exact ⟨.inl rfl, rfl, rfl⟩

/-- Flat, the evaluator deploys into an active state or keeps waiting. -/
theorem act_of_flat (stays : ¬o.leaves) (flat : f.portfolio.positions = []) :
    ((act profile band c f x o).2.2.2.lp = .deploy 1 ∧
        (act profile band c f x o).2.2.1 = beginEpisode o.eq o.dd o.bs ∧
        (act profile band c f x o).1.phase = .active ∨
      (act profile band c f x o).2.2.2.lp = .exitToQuote ∧
        (act profile band c f x o).1.phase = .paused) ∧
      (act profile band c f x o).1.peakEquity = o.s.peakEquity := by
  unfold act
  rw [if_neg stays, if_neg (not_not.mpr flat)]
  unfold enterOrWait
  dsimp only
  split_ifs
  · exact ⟨.inl ⟨rfl, rfl, rfl⟩, Strategy.awaitCooldown_peakEquity ..⟩
  · exact ⟨.inr ⟨rfl, rfl⟩, Strategy.awaitCooldown_peakEquity ..⟩

/-- An opening decision leaves an active state whose episode starts at the frame. -/
theorem act_opens {profile : PersistentConfig F} {band : BandConfig F} {c : StrategyConfig F}
    {x : Feature F} (opens : (act profile band c f x o).2.2.2.lp.opens = true) :
    ¬o.leaves ∧ (act profile band c f x o).1.phase = .active ∧
      (act profile band c f x o).1.peakEquity = o.s.peakEquity ∧
      (act profile band c f x o).2.2.1 = beginEpisode o.eq o.dd o.bs := by
  by_cases leaves : o.leaves
  · rw [(act_of_leaves leaves).1] at opens
    cases opens
  refine ⟨leaves, ?_⟩
  by_cases held : f.portfolio.positions ≠ []
  · obtain ⟨lp, active, peak⟩ := act_of_held profile band c x leaves held
    rcases lp with hold | ⟨-, episode⟩
    · rw [hold] at opens
      cases opens
    · exact ⟨active, peak, episode⟩
  · obtain ⟨lp, peak⟩ := act_of_flat profile band c x leaves (not_not.mp held)
    rcases lp with ⟨-, episode, active⟩ | ⟨exit, -⟩
    · exact ⟨active, peak, episode⟩
    · rw [exit] at opens
      cases opens

end Act

end Band

namespace Persistent

/-- A broken history never opens anything. -/
theorem onBrokenHistory_opens (c : StrategyConfig F) (f : MarketFrame F) (e : String)
    (s : Strategy F) : (onBrokenHistory c f e s).2.lp.opens = false := by
  unfold onBrokenHistory
  dsimp only
  split_ifs <;> rfl

/-- An opening decision of a persistent profile comes from a usable frame and feature. -/
theorem evaluate_opens {profile : PersistentConfig F} {c : StrategyConfig F} {f : MarketFrame F}
    {s : Strategy F} (opens : (evaluate profile c f s).2.lp.opens = true) :
    ∃ x : Feature F, Feature.latest f.candles f.nowMs = .ok x ∧ x.unusable c f = false ∧
      evaluate profile c f s = evaluateFeature profile c f x s := by
  unfold evaluate at opens ⊢
  cases latest : Feature.latest f.candles f.nowMs with
  | error e => simp [latest, onBrokenHistory_opens] at opens
  | ok x =>
      refine ⟨x, rfl, ?_, rfl⟩
      by_contra usable
      rw [Bool.not_eq_false] at usable
      simp [latest, evaluateFeature, usable] at opens

theorem unusable_finite {c : StrategyConfig F} {f : MarketFrame F} {x : Feature F}
    (usable : x.unusable c f = false) : F64.isFinite (f.portfolio.equity f.pool.price) = true := by
  simp only [Feature.unusable, Bool.or_eq_false_iff, List.any_eq_false] at usable
  simpa using usable.1.1.1.1.1.1.1.1.1 _ (by simp)

section Act

variable (profile : PersistentConfig F) (c : StrategyConfig F) {f : MarketFrame F}
  {x : Feature F} {s : Strategy F} {o : Observation F}

/-- What the accounting of a frame fixes for the decision. -/
structure Accounted (profile : PersistentConfig F) (c : StrategyConfig F) (f : MarketFrame F)
    (x : Feature F) (s : Strategy F) (o : Observation F) : Prop where
  peak : o.s.peakEquity =
    max (max s.peakEquity (f.portfolio.equity f.pool.price)) c.totalCapital
  phase : o.s.phase =
    if f.portfolio.equity f.pool.price ≤ o.s.peakEquity * (1 - c.maxDrawdown) then .halted
    else s.phase
  danger : o.danger = (profile.guard c).dangerOrBasis c f x

omit [F64 F] in
@[simp] theorem anchorPause_phase {c : StrategyConfig F} (st : PersistentState F) :
    (anchorPause c s st).1.phase = s.phase := by
  unfold anchorPause; split_ifs <;> rfl

omit [F64 F] in
@[simp] theorem anchorPause_peakEquity {c : StrategyConfig F} (st : PersistentState F) :
    (anchorPause c s st).1.peakEquity = s.peakEquity := by
  unfold anchorPause; split_ifs <;> rfl

theorem observe_accounted {profile : PersistentConfig F} {c : StrategyConfig F} :
    Accounted profile c f x s (observe profile c f x s) := by
  constructor
  case peak => simp [observe]
  case phase => simp [observe]
  case danger => rfl

/-- On an exit condition the evaluator leaves, and only a halt is kept. -/
theorem act_of_leaves {profile : PersistentConfig F} {c : StrategyConfig F}
    (leaves : o.leaves) :
    (act profile c f o).2.2.lp = .exitToQuote ∧
      (act profile c f o).1.phase = (if o.s.phase = .halted then .halted else .paused) ∧
      (act profile c f o).1.peakEquity = o.s.peakEquity := by
  unfold act
  rw [if_pos leaves]
  simp [exit]

/-- Holding a position, the evaluator stays active. -/
theorem act_of_held (stays : ¬o.leaves) (held : f.portfolio.positions ≠ []) :
    (act profile c f o).2.2.lp = .hold ∧ (act profile c f o).1.phase = .active ∧
      (act profile c f o).1.peakEquity = o.s.peakEquity := by
  unfold act
  rw [if_neg stays, if_neg held]
  exact ⟨rfl, rfl, rfl⟩

/-- Flat, the evaluator deploys into an active state or keeps waiting. -/
theorem act_of_flat (stays : ¬o.leaves) (flat : f.portfolio.positions = []) :
    ((act profile c f o).2.2.lp = .deploy 1 ∧ (act profile c f o).1.phase = .active ∨
      (act profile c f o).2.2.lp = .exitToQuote ∧ (act profile c f o).1.phase = .paused) ∧
      (act profile c f o).1.peakEquity = o.s.peakEquity := by
  unfold act
  rw [if_neg stays, if_pos flat]
  unfold enterOrWait
  dsimp only
  split_ifs
  · exact ⟨.inl ⟨rfl, rfl⟩, Strategy.awaitCooldown_peakEquity ..⟩
  · exact ⟨.inr ⟨rfl, rfl⟩, Strategy.awaitCooldown_peakEquity ..⟩

end Act

end Persistent

namespace Regime

variable {c : Config F} {sc : StrategyConfig F} {f : MarketFrame F} {sig : Option (Signals F)}
  {state : Strategy F}

@[simp] theorem account_peakEquity :
    (account sc f state).peakEquity =
      max (max state.peakEquity (f.portfolio.equity f.pool.price)) sc.totalCapital := by
  rw [account, Strategy.haltWhen_peakEquity, Strategy.trackPeak_peakEquity]

theorem account_phase :
    (account sc f state).phase =
      if f.portfolio.equity f.pool.price <
          (account sc f state).peakEquity * (1 - sc.maxDrawdown) then .halted
      else state.phase := by
  rw [account_peakEquity]
  exact Strategy.haltWhen_phase ..

omit [F64 F] in
@[simp] theorem countHour_phase (sig : Signals F) : (countHour sig state).phase = state.phase := by
  unfold countHour
  dsimp only
  split_ifs <;> rfl

omit [F64 F] in
@[simp] theorem countHour_peakEquity (sig : Signals F) :
    (countHour sig state).peakEquity = state.peakEquity := by
  unfold countHour
  dsimp only
  split_ifs <;> rfl

/-- On a halt or a danger the evaluator leaves, and only a halt is kept. -/
theorem act_of_leaves (leaves : state.phase = .halted ∨ (danger c sc f sig).isSome) :
    (act c sc f sig state).2.lp = .exitToQuote ∧
      (act c sc f sig state).1.phase = (if state.phase = .halted then .halted else .paused) ∧
      (act c sc f sig state).1.peakEquity = state.peakEquity := by
  unfold act
  simp only [if_pos leaves]
  exact ⟨rfl, rfl, rfl⟩

/-- Holding a position, the evaluator stays active inside the range and leaves outside. -/
theorem act_of_held {sig : Signals F}
    (stays : ¬(state.phase = .halted ∨ (danger c sc f (some sig)).isSome))
    (held : f.portfolio.positions ≠ []) :
    ((act c sc f (some sig) state).2.lp =
        if outsideRange f then .exitToQuote else .hold) ∧
      (act c sc f (some sig) state).1.phase =
        (if outsideRange f then .paused else .active) ∧
      (act c sc f (some sig) state).1.peakEquity = state.peakEquity := by
  unfold act
  simp only [if_neg stays, if_neg held]
  unfold holdPosition
  split_ifs
  · exact ⟨rfl, rfl, countHour_peakEquity sig⟩
  · exact ⟨rfl, rfl, countHour_peakEquity sig⟩

/-- Flat, the evaluator deploys into an active state or keeps waiting. -/
theorem act_of_flat {sig : Signals F}
    (stays : ¬(state.phase = .halted ∨ (danger c sc f (some sig)).isSome))
    (flat : f.portfolio.positions = []) :
    ((act c sc f (some sig) state).2.lp = .deploy 1 ∧
        (act c sc f (some sig) state).1.phase = .active ∨
      (act c sc f (some sig) state).2.lp = .exitToQuote ∧
        (act c sc f (some sig) state).1.phase = .paused) ∧
      (act c sc f (some sig) state).1.peakEquity = state.peakEquity := by
  unfold act
  simp only [if_neg stays, if_pos flat]
  unfold enterOrWait
  dsimp only
  split_ifs
  · exact ⟨.inl ⟨rfl, rfl⟩, countHour_peakEquity sig⟩
  · exact ⟨.inr ⟨rfl, rfl⟩, countHour_peakEquity sig⟩

/-- Without signals there is always a danger. -/
theorem danger_none : (danger c sc f none).isSome := by
  simp [danger]

end Regime

end LpMaker
