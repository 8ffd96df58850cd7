import LpMaker.Engine.HaltAbsorbing
import LpMaker.Strategy.BandGuard

/-!
# What an opening decision has passed

An evaluator decides to deploy or to recentre only on a fresh, valid frame with a usable
hourly history, without any danger of its profile and above the drawdown limit. The three
ways of not waiting, a first entry, the scale-up of a recovery and a rearmed entry, skip
waiting times and none of these checks.
-/

namespace LpMaker

open F64 (isFinite)

variable {F : Type} [F64 F]

/-- Finite positive prices which are not too old. -/
structure MarketFrame.Fresh (c : StrategyConfig F) (f : MarketFrame F) : Prop where
  poolPrice_finite : isFinite f.pool.price = true
  poolPrice_pos : 0 < f.pool.price
  hedgePrice_finite : isFinite f.hedgePrice = true
  hedgePrice_pos : 0 < f.hedgePrice
  poolAge : f.nowMs - f.pool.timeMs ≤ c.maxDataAgeSeconds * 1000
  hedgeAge : f.nowMs - f.hedgeTimeMs ≤ c.maxDataAgeSeconds * 1000

/-- The pool and the hedge market agree on the price. -/
def MarketFrame.BasisWithin (c : StrategyConfig F) (f : MarketFrame F) : Prop :=
  |f.pool.price / f.hedgePrice - 1| * 10000 ≤ c.maxBasisBps

/-- No danger of the legacy profile. -/
structure Metrics.Calm (c : StrategyConfig F) (f : MarketFrame F) (m : Metrics F) : Prop where
  fastDrop : -c.fastDrop1h ≤ m.return1h ∧ -c.fastDrop1h ≤ f.pool.price / m.lastClose - 1
  volatility : m.volRatio ≤ c.volPauseRatio
  downtrend : m.downtrend = false
  basis : f.BasisWithin c

/-- No danger of a persistent profile. -/
structure Feature.Calm (profile : PersistentConfig F) (c : StrategyConfig F)
    (f : MarketFrame F) (x : Feature F) : Prop where
  fastDrop : -c.fastDrop1h ≤ x.r1 ∧ -c.fastDrop1h ≤ f.pool.price / x.close - 1
  downtrend : -profile.drop24h ≤ x.r24 ∧ -profile.drop72h ≤ x.r72
  volatility : x.vol6 ≤ profile.maxHourlyVol
  basis : f.BasisWithin c

/-- No danger of the regime. -/
structure Regime.Signals.Calm (rc : Regime.Config F) (c : StrategyConfig F) (f : MarketFrame F)
    (sig : Regime.Signals F) : Prop where
  exit : sig.exit = false
  fastDrop : -c.fastDrop1h ≤ f.pool.price / sig.lastClose - 1
  largeMove : |f.pool.price / sig.lastClose - 1| ≤ rc.maxBarRange
  basis : f.BasisWithin c

/-- The hourly history is usable and shows no danger of the profile. -/
def HistoryCalm (c : StrategyConfig F) (f : MarketFrame F) : Prop :=
  match c.ethPersistent with
  | none => ∃ m, Indicators.calculate f.candles c f.nowMs = .ok m ∧ m.Calm c f
  | some profile => ∃ x, Feature.latest f.candles f.nowMs = .ok x ∧ x.Calm profile c f

/-- The equity which the drawdown limit applies to, for a state before the frame. The band
profile measures it from the recorded origin. -/
def riskEquity (c : StrategyConfig F) (f : MarketFrame F) (s : Strategy F) : F :=
  if c.band.isSome then (Band.managedEquity s c (f.portfolio.equity f.pool.price)).2
  else f.portfolio.equity f.pool.price

/-- The frame does not breach the drawdown limit of the updated peak. -/
def AboveDrawdown (c : StrategyConfig F) (equity : F) (t : Strategy F) : Prop :=
  t.peakEquity * (1 - c.maxDrawdown) ≤ equity

namespace Evaluation

/-- The configuration of an evaluation. -/
def config : Evaluation F → StrategyConfig F
  | legacy c _ | withContinuity c _ | regime _ c _ => c
  | rearmed _ _ _ c _ => c.strategy

/-- The history check and the dangers of the profile an evaluation belongs to. -/
def Calm : Evaluation F → Prop
  | legacy c f => ∃ m, Indicators.calculate f.candles c f.nowMs = .ok m ∧ m.Calm c f
  | withContinuity c f => HistoryCalm c f
  | regime rc c f =>
      ∃ sig, Regime.signals rc c f.candles f.nowMs = .ok sig ∧ sig.Calm rc c f
  | rearmed _ _ _ c f => HistoryCalm c.strategy f

/-- The risk equity of an evaluation. -/
def riskEquity (s : Strategy F) : Evaluation F → F
  | legacy _ f | regime _ _ f => f.portfolio.equity f.pool.price
  | withContinuity c f => LpMaker.riskEquity c f s
  | rearmed _ _ _ c f => LpMaker.riskEquity c.strategy f s

end Evaluation

section Legacy

variable {c : StrategyConfig F} {f : MarketFrame F} {m : Metrics F} {continuity : Bool}
  {s t : Strategy F} {d : Decision F}

theorem Strategy.calm_of_marketRisks (none : Strategy.marketRisks c f m = []) : m.Calm c f := by
  simp only [Strategy.marketRisks, List.append_eq_nil_iff, ite_eq_right_iff,
    imp_false, Bool.or_eq_true, decide_eq_true_eq, not_or, not_lt, gt_iff_lt, List.cons_ne_nil,
    Bool.not_eq_true] at none
  obtain ⟨⟨⟨fast, shock⟩, downtrend⟩, basis⟩ := none
  exact ⟨fast, shock, downtrend, basis⟩

theorem Strategy.fresh_of_usable
    (usable : (Strategy.stale c f || !Strategy.validFrame f) = false) : f.Fresh c := by
  simp only [Strategy.stale, Strategy.validFrame, Bool.or_eq_false_iff, Bool.not_eq_false',
    Bool.and_eq_true, decide_eq_false_iff_not, not_lt, decide_eq_true_eq, List.all_cons,
    gt_iff_lt] at usable
  obtain ⟨⟨poolAge, hedgeAge⟩, ⟨⟨poolFinite, hedgeFinite, -⟩, poolPos⟩, hedgePos⟩ := usable
  exact ⟨poolFinite, poolPos, hedgeFinite, hedgePos, poolAge, hedgeAge⟩

/-- The phase transitions keep the equity peak. -/
theorem Strategy.AdvanceStep.peakEquity {unsafeMarket healthy : Bool}
    {advanced : Option (LpIntent F × List String)}
    (step : Strategy.AdvanceStep c f continuity unsafeMarket healthy s t advanced) :
    t.peakEquity = s.peakEquity := by
  cases step <;> rfl

/-- A market risk ends in an exit. -/
theorem Strategy.decideMarket_opens
    (decided : s.decideMarket c f continuity m = (t, d)) (opens : d.lp.opens = true) :
    Strategy.marketRisks c f m = [] ∧ t.peakEquity = s.peakEquity := by
  cases Strategy.decideMarket_step decided with
  | wait _ exits =>
      rw [exits] at opens
      cases opens
  | decide advanced settled =>
      by_cases safe : Strategy.marketRisks c f m = []
      · refine ⟨safe, ?_⟩
        obtain ⟨_, _, rfl⟩ := Strategy.settle_frame settled
        obtain ⟨_, _, _, observed⟩ :=
          Strategy.observeMarket_of_safe (s := s) continuity safe
        exact advanced.peakEquity.trans (by rw [observed])
      · -- The risk has paused the strategy, and no paused transition acts while it lasts.
        obtain ⟨_, _, _, observed⟩ :=
          Strategy.observeMarket_of_risk (s := s) continuity safe
        have paused : (s.observeMarket c f continuity m).1.phase = .paused := by rw [observed]
        have danger : (!(Strategy.marketRisks c f m).isEmpty) = true := by simpa using safe
        rw [danger] at advanced
        cases advanced with
        | firstEntry _ _ calm => cases calm
        | resume _ _ confirmed =>
            simp only [Strategy.canResume, Bool.not_true, Bool.false_and, Bool.false_eq_true]
              at confirmed
        | warm warmup | adopt warmup =>
            rw [paused] at warmup
            cases warmup
        | scale recovering =>
            rw [paused] at recovering
            cases recovering
        | keep notPaused => exact absurd paused notPaused

theorem Strategy.evaluateInner_opens (evaluated : s.evaluateInner c f continuity = (t, d))
    (opens : d.lp.opens = true) :
    f.Fresh c ∧ (∃ m, Indicators.calculate f.candles c f.nowMs = .ok m ∧ m.Calm c f) ∧
      AboveDrawdown c (f.portfolio.equity f.pool.price) t := by
  cases Strategy.evaluateInner_step evaluated with
  | unusable _ holds =>
      rw [holds] at opens
      cases opens
  | halted _ _ exits =>
      rw [exits] at opens
      cases opens
  | noIndicators _ _ _ holds =>
      rw [holds] at opens
      cases opens
  | market usable running computed decided =>
      obtain ⟨safe, peak⟩ := Strategy.decideMarket_opens decided opens
      refine ⟨Strategy.fresh_of_usable usable,
        ⟨_, computed, Strategy.calm_of_marketRisks safe⟩, ?_⟩
      -- A breach would have halted before the market was read.
      rw [AboveDrawdown, peak]
      by_contra breached
      apply running
      simp only [Strategy.accountEquity, Strategy.haltWhen_phase]
      rw [if_pos]
      simpa only [Strategy.drawdownBreached, decide_eq_true_eq, Strategy.accountEquity,
        Strategy.haltWhen_peakEquity] using not_le.mp breached

end Legacy

section Profiles

variable {profile : PersistentConfig F} {c : StrategyConfig F} {f : MarketFrame F}
  {x : Feature F} {s : Strategy F}

theorem Guard.limits_of_danger {guard : Guard F} {p : F} (safe : guard.danger x p = none) :
    (-guard.drop1 ≤ x.r1 ∧ -guard.drop1 ≤ p / x.close - 1) ∧
      (-guard.drop24 ≤ x.r24 ∧ -guard.drop72 ≤ x.r72) ∧ x.vol6 ≤ guard.vol := by
  unfold Guard.danger at safe
  split_ifs at safe with fast down shock
  simp only [not_or, not_lt, gt_iff_lt] at fast down shock
  exact ⟨fast, down, shock⟩

theorem Guard.calm_of_dangerOrBasis (safe : (profile.guard c).dangerOrBasis c f x = none) :
    x.Calm profile c f := by
  obtain ⟨danger, basis⟩ := Option.or_eq_none_iff.mp safe
  obtain ⟨fast, down, shock⟩ := Guard.limits_of_danger danger
  simp only [ite_eq_right_iff, reduceCtorEq, imp_false, not_lt, gt_iff_lt] at basis
  exact ⟨fast, down, shock, basis⟩

theorem Feature.fresh_of_usable (usable : x.unusable c f = false) : f.Fresh c := by
  simp only [Feature.unusable, Bool.or_eq_false_iff, List.any_eq_false, List.forall_mem_cons,
    decide_eq_false_iff_not, not_le, not_lt, gt_iff_lt, Bool.not_eq_true, Bool.not_eq_false']
    at usable
  obtain ⟨⟨⟨⟨⟨⟨⟨⟨⟨finite, poolPos⟩, hedgePos⟩, -⟩, -⟩, -⟩, -⟩, -⟩, poolAge⟩, hedgeAge⟩ := usable
  exact ⟨finite.1, poolPos, finite.2.1, hedgePos, poolAge, hedgeAge⟩

theorem Persistent.evaluateRange_opens
    (opens : (Persistent.evaluateRange profile c f x s).2.lp.opens = true) :
    x.Calm profile c f ∧ AboveDrawdown c (f.portfolio.equity f.pool.price)
      (Persistent.evaluateRange profile c f x s).1 := by
  have accounted : Persistent.Accounted profile c f x s (Persistent.observe profile c f x s) :=
    Persistent.observe_accounted
  set o := Persistent.observe profile c f x s
  have acts : (Persistent.act profile c f o).2.2.lp.opens = true := opens
  have stays : ¬o.leaves := fun leaves => by
    rw [(Persistent.act_of_leaves leaves).1] at acts
    cases acts
  have samePeak : (Persistent.evaluateRange profile c f x s).1.peakEquity =
      o.s.peakEquity := by
    by_cases flat : f.portfolio.positions = []
    · exact (Persistent.act_of_flat profile c stays flat).2
    · exact (Persistent.act_of_held profile c stays flat).2.2
  constructor
  · apply Guard.calm_of_dangerOrBasis
    rw [← accounted.danger]
    by_contra danger
    exact stays (.inr (.inl (Option.isSome_iff_ne_none.mpr danger)))
  · rw [AboveDrawdown, samePeak]
    by_contra breached
    exact stays (.inl (accounted.phase.trans (if_pos (not_le.mp breached).le)))

theorem Band.evaluate_opens {band : BandConfig F} (capital : 0 < c.totalCapital)
    (opens : (Band.evaluate profile band c f x s).2.lp.opens = true) :
    x.Calm profile c f ∧
      AboveDrawdown c (Band.managedEquity s c (f.portfolio.equity f.pool.price)).2
        (Band.evaluate profile band c f x s).1 := by
  have accounted : Band.Accounted band c f s (Band.observe profile band c f x s) :=
    Band.observe_accounted profile band c f x s
  have danger : (Band.observe profile band c f x s).danger =
      (profile.guard c).dangerOrBasis c f x := rfl
  set o := Band.observe profile band c f x s
  have acts : (Band.act profile band c f x o).2.2.2.lp.opens = true := opens
  obtain ⟨stays, -, peak, -⟩ := Band.act_opens acts
  constructor
  · apply Guard.calm_of_dangerOrBasis
    rw [← danger]
    by_contra held
    exact stays (.inr (.inl (Option.isSome_iff_ne_none.mpr held)))
  · have samePeak : (Band.evaluate profile band c f x s).1.peakEquity = o.s.peakEquity := peak
    have peakPos : 0 < o.s.peakEquity := by
      rw [accounted.peak]
      exact capital.trans_le (le_max_right _ _)
    have within : o.dd < c.maxDrawdown := by
      by_contra breached
      exact stays (.inl (accounted.phase.trans (if_pos (not_lt.mp breached))))
    rw [AboveDrawdown, samePeak, ← accounted.eq_def]
    rw [accounted.dd_def] at within
    exact ((Band.floor_lt_iff peakPos).mpr within).le

theorem Persistent.evaluate_sound (capital : 0 < c.totalCapital)
    (configured : c.ethPersistent = some profile)
    (opens : (Persistent.evaluate profile c f s).2.lp.opens = true) :
    f.Fresh c ∧ (∃ x, Feature.latest f.candles f.nowMs = .ok x ∧ x.Calm profile c f) ∧
      AboveDrawdown c (riskEquity c f s) (Persistent.evaluate profile c f s).1 := by
  obtain ⟨x, latest, usable, evaluated⟩ := Persistent.evaluate_opens opens
  rw [evaluated] at opens ⊢
  have banded : c.band = profile.band := by rw [StrategyConfig.band, configured]; rfl
  rw [riskEquity, banded]
  refine ⟨Feature.fresh_of_usable usable, ?_⟩
  cases choice : profile.band with
  | none =>
      have ran : Persistent.evaluateFeature profile c f x s =
          Persistent.evaluateRange profile c f x s := by
        simp [Persistent.evaluateFeature, usable, choice]
      rw [ran] at opens ⊢
      obtain ⟨calm, above⟩ := Persistent.evaluateRange_opens opens
      exact ⟨⟨x, latest, calm⟩, above⟩
  | some band =>
      have ran : Persistent.evaluateFeature profile c f x s =
          Band.evaluate profile band c f x s := by
        simp [Persistent.evaluateFeature, usable, choice]
      rw [ran] at opens ⊢
      obtain ⟨calm, above⟩ := Band.evaluate_opens capital opens
      exact ⟨⟨x, latest, calm⟩, above⟩

theorem Strategy.evaluateWithContinuity_opens {t : Strategy F} {d : Decision F}
    (capital : 0 < c.totalCapital) (evaluated : s.evaluateWithContinuity c f = (t, d))
    (opens : d.lp.opens = true) :
    f.Fresh c ∧ HistoryCalm c f ∧ AboveDrawdown c (riskEquity c f s) t := by
  unfold Strategy.evaluateWithContinuity at evaluated
  cases configured : c.ethPersistent with
  | none =>
      simp only [configured] at evaluated
      obtain ⟨fresh, calm, above⟩ := Strategy.evaluateInner_opens evaluated opens
      have unbanded : c.band = none := by rw [StrategyConfig.band, configured]; rfl
      refine ⟨fresh, ?_, ?_⟩
      · rw [HistoryCalm, configured]
        exact calm
      · rw [riskEquity, unbanded]
        exact above
  | some profile =>
      simp only [configured] at evaluated
      obtain ⟨rfl, rfl⟩ := Prod.mk.inj evaluated
      obtain ⟨fresh, calm, above⟩ := Persistent.evaluate_sound capital configured opens
      refine ⟨fresh, ?_, above⟩
      rw [HistoryCalm, configured]
      exact calm

theorem Regime.fresh_of_usable (usable : Regime.unusable c f = false) : f.Fresh c := by
  simp only [Regime.unusable, Bool.or_eq_false_iff, Bool.not_eq_false', decide_eq_false_iff_not,
    not_le, not_lt, gt_iff_lt] at usable
  obtain ⟨⟨⟨⟨⟨⟨⟨⟨⟨⟨poolFinite, poolPos⟩, hedgeFinite⟩, hedgePos⟩, -⟩, -⟩, -⟩, -⟩, -⟩, poolAge⟩,
    hedgeAge⟩ := usable
  exact ⟨poolFinite, poolPos, hedgeFinite, hedgePos, poolAge, hedgeAge⟩

theorem Regime.calm_of_danger {rc : Regime.Config F} {sig : Regime.Signals F}
    (none : Regime.danger rc c f (some sig) = none) : sig.Calm rc c f := by
  simp only [Regime.danger, Option.all_some, Option.any_some, ite_eq_right_iff, reduceCtorEq,
    imp_false, Bool.or_eq_true, decide_eq_true_eq, not_or, not_lt, gt_iff_lt,
    Bool.not_eq_true] at none
  obtain ⟨⟨⟨exit, fast⟩, large⟩, basis⟩ := none
  exact ⟨exit, fast, large, basis⟩

theorem Regime.evaluate_opens {rc : Regime.Config F}
    (opens : (Regime.evaluate rc c f s).2.lp.opens = true) :
    f.Fresh c ∧
      (∃ sig, Regime.signals rc c f.candles f.nowMs = .ok sig ∧ sig.Calm rc c f) ∧
      AboveDrawdown c (f.portfolio.equity f.pool.price) (Regime.evaluate rc c f s).1 := by
  unfold Regime.evaluate Regime.evaluateWithSignals at opens ⊢
  dsimp only at opens ⊢
  by_cases usable : Regime.unusable c f = true
  · rw [if_pos usable] at opens
    cases opens
  rw [if_neg usable] at opens ⊢
  set state := Regime.account c f (s.observeLp (!f.portfolio.positions.isEmpty)) with stateEq
  have stays : ¬(state.phase = .halted ∨
      (Regime.danger rc c f (Regime.signals rc c f.candles f.nowMs).toOption).isSome) := by
    intro leaves
    rw [(Regime.act_of_leaves leaves).1] at opens
    cases opens
  cases computed : Regime.signals rc c f.candles f.nowMs with
  | error e =>
      rw [computed] at stays
      exact absurd (.inr Regime.danger_none) stays
  | ok sig =>
      rw [computed] at stays opens
      obtain ⟨running, calm⟩ := not_or.mp stays
      refine ⟨Regime.fresh_of_usable (by simpa using usable), ⟨sig, rfl, ?_⟩, ?_⟩
      · exact Regime.calm_of_danger (Option.not_isSome_iff_eq_none.mp calm)
      · have samePeak : (Regime.act rc c f (some sig) state).1.peakEquity =
            state.peakEquity := by
          by_cases flat : f.portfolio.positions = []
          · exact (Regime.act_of_flat stays flat).2
          · exact (Regime.act_of_held stays flat).2.2
        rw [AboveDrawdown]
        by_contra breached
        apply running
        rw [stateEq, Regime.account_phase, if_pos]
        rw [← stateEq, ← samePeak]
        exact not_le.mp breached

end Profiles

/-- Whatever evaluator decides to deploy or to recentre, by whatever waiver of its waiting
times: the frame is fresh, the hourly history is usable and calm for the profile, the risk
equity is above the drawdown limit of the updated peak, and the strategy was not halted. -/
theorem entry_sound (evaluation : Evaluation F) (s t : Strategy F) (d : Decision F)
    (capital : 0 < evaluation.config.totalCapital)
    (evaluated : evaluation.run s = .ok (t, d)) (opens : d.lp.opens = true) :
    evaluation.frame.Fresh evaluation.config ∧ evaluation.Calm ∧
      AboveDrawdown evaluation.config (evaluation.riskEquity s) t ∧ s.phase ≠ .halted := by
  have running : s.phase ≠ .halted := fun halted => by
    rw [(Evaluation.run_guarded evaluated).closed_of_halted halted] at opens
    cases opens
  rw [← and_assoc, ← and_assoc, and_assoc (b := evaluation.Calm)]
  refine ⟨?_, running⟩
  cases evaluation with
  | legacy c f => exact Strategy.evaluateInner_opens (Except.ok.inj evaluated) opens
  | withContinuity c f =>
      exact Strategy.evaluateWithContinuity_opens capital (Except.ok.inj evaluated) opens
  | regime rc c f =>
      obtain ⟨rfl, rfl⟩ := Prod.mk.inj (Except.ok.inj evaluated)
      exact Regime.evaluate_opens opens
  | rearmed binding now store c f =>
      obtain ⟨⟨t, d, written⟩, rearmed, same⟩ := bind_eq_ok.mp evaluated
      cases same
      rcases EntryRearm.evaluate_eq_ok rearmed with ordinary | ⟨-, -, rfl, lp⟩
      · exact Strategy.evaluateWithContinuity_opens capital ordinary opens
      · -- The trial differs from the state in its entry history only.
        rw [lp] at opens
        set trial := { s with entryHistory := .initial }
        have sound := Strategy.evaluateWithContinuity_opens (s := trial)
          (t := (trial.evaluateWithContinuity c.strategy f).1) capital rfl opens
        exact sound

/-- An armed permit meets a calm frame of the live band profile. -/
def rearmedOnShipped : Evaluation ℚ :=
  .rearmed "binding" 0
    { permit := some ⟨1, "permit", "binding", 0, .armed, 0⟩
      pending := false
      workflow := false
      hedgeOrder := false
      openOrders := false }
    { Shipped.ethBandPaper with mode := .live }
    (Shipped.frame 73 1 100 100 100 (Shipped.flatPortfolio 120 60 20))

/-- A strategy which waits after an earlier position. -/
def waitingOnShipped : Strategy ℚ :=
  { Strategy.default with phase := .paused, entryHistory := .established }

theorem entry_sound_on_shipped :
    ∃ t d, rearmedOnShipped.run waitingOnShipped = .ok (t, d) ∧ d.lp = .deploy 1 ∧
      rearmedOnShipped.frame.Fresh rearmedOnShipped.config ∧ rearmedOnShipped.Calm ∧
      AboveDrawdown rearmedOnShipped.config (rearmedOnShipped.riskEquity waitingOnShipped) t ∧
      waitingOnShipped.phase ≠ .halted := by
  have deployed : ((rearmedOnShipped.run waitingOnShipped).toOption.map fun r => r.2.lp) =
      some (.deploy 1) := by decide +kernel
  cases ran : rearmedOnShipped.run waitingOnShipped with
  | error e =>
      rw [ran] at deployed
      cases deployed
  | ok result =>
      rw [ran] at deployed
      have lp : result.2.lp = .deploy 1 := Option.some.inj deployed
      exact ⟨_, _, rfl, lp,
        entry_sound _ _ result.1 result.2 (by decide +kernel) ran (by rw [lp]; rfl)⟩

end LpMaker
