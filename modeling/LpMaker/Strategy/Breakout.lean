import LpMaker.Semantics.Trace
import LpMaker.Shipped
import LpMaker.Strategy.EntryHistory
import LpMaker.Strategy.LegacySteps

/-!
# Confirmed breakouts

A layer whose breakout count is confirmed is put on the list of resets and its count starts
over. The list becomes a recentre only when nothing else was decided, so a resume or a
scale-up of the same frame loses it.
-/

namespace LpMaker

namespace Strategy

variable {F : Type} [F64 F] {c : StrategyConfig F} {f : MarketFrame F} {s t : Strategy F}

/-- The evaluation entered a decision bar, and the count of the layer is confirmed there. -/
def Confirms (c : StrategyConfig F) (f : MarketFrame F) (layer : String)
    (s t : Strategy F) : Prop :=
  t.lastDecisionBar ≠ s.lastDecisionBar ∧
    layer ∈ ((s.enterBar c f).1.observeLayers c f true).resets

/-- The intent handles the layer. -/
def ActsOn (layer : String) : LpIntent F → Prop
  | .exitToQuote => True
  | .recenter layers => layer ∈ layers
  | .hold | .deploy _ => False

/-- The count of the layer is still confirmed. -/
def Retains (c : StrategyConfig F) (layer : String) (s : Strategy F) : Prop :=
  c.breakoutConfirmBars ≤ (s.layers.entry layer).outsideCount

/-- A paused strategy may resume, or the next scale-up is due. -/
def scaleDue (c : StrategyConfig F) (f : MarketFrame F)
    (continuity unsafeMarket healthy : Bool) (s : Strategy F) : Bool :=
  s.phase = .paused && s.canResume c f continuity unsafeMarket healthy
    || s.phase = .recovering && (!continuity || healthy)
      && s.healthyHours ≥ c.resumeHealthyHours
      && f.nowMs - s.lastScale ≥ c.recoveryStepHours * 3600000

/-- `scaleDue` once the equity, the risks and the completed hour of a frame are known. -/
def scalesAt (c : StrategyConfig F) (f : MarketFrame F) (continuity : Bool)
    (s : Strategy F) : Bool :=
  match Indicators.calculate f.candles c f.nowMs with
  | .error _ => false
  | .ok m =>
      let risks := marketRisks c f m
      (((s.startFrame f).accountEquity c f).observeMarket c f continuity m).1.scaleDue c f
        continuity (!risks.isEmpty) (Progress.blockers c f m risks).isEmpty

section Counters

theorem countBreakout_below {p : F} {pos : LpPosition F} {state : LayerState}
    (bars : 0 < c.breakoutConfirmBars) :
    (countBreakout c p pos state).1.outsideCount < c.breakoutConfirmBars := by
  unfold countBreakout
  dsimp only
  split_ifs <;> simp_all

theorem entry_insert_self (layers : Layers) (name : String) (state : LayerState) :
    Layers.entry (layers.insert name state) name = state := by
  simp [Layers.entry]

theorem entry_insert_ne {layers : Layers} {name other : String} {state : LayerState}
    (apart : other ≠ name) :
    Layers.entry (layers.insert name state) other = layers.entry other := by
  simp [Layers.entry, apart]

/-- No layer on the list of resets keeps a confirmed count. -/
theorem observeLayers_below (bars : 0 < c.breakoutConfirmBars) :
    ∀ layer ∈ (s.observeLayers c f true).resets,
      ((s.observeLayers c f true).layers.entry layer).outsideCount < c.breakoutConfirmBars := by
  have step (pass : LayerPass F) (pos : LpPosition F)
      (below : ∀ layer ∈ pass.resets,
        (pass.layers.entry layer).outsideCount < c.breakoutConfirmBars) :
      ∀ layer ∈ (observeLayer c f.pool.price true pass pos).resets,
        ((observeLayer c f.pool.price true pass pos).layers.entry layer).outsideCount <
          c.breakoutConfirmBars := by
    intro layer mem
    by_cases here : layer = pos.layer
    · subst here
      simp only [observeLayer, if_true, entry_insert_self]
      exact countBreakout_below bars
    · have earlier : layer ∈ pass.resets := by
        simp only [observeLayer, if_true] at mem
        split_ifs at mem
        · simpa [here] using mem
        · exact mem
      simp only [observeLayer, if_true, entry_insert_ne here]
      exact below layer earlier
  have invariant (positions : List (LpPosition F)) (pass : LayerPass F)
      (below : ∀ layer ∈ pass.resets,
        (pass.layers.entry layer).outsideCount < c.breakoutConfirmBars) :
      ∀ layer ∈ (positions.foldl (observeLayer c f.pool.price true) pass).resets,
        ((positions.foldl (observeLayer c f.pool.price true) pass).layers.entry
          layer).outsideCount < c.breakoutConfirmBars := by
    induction positions generalizing pass with
    | nil => exact below
    | cons pos positions inductionHypothesis => exact inductionHypothesis _ (step pass pos below)
  refine invariant _ _ fun layer mem => ?_
  cases mem

end Counters

section Frames

omit [F64 F] in
theorem startFrame_bars :
    (s.startFrame f).layers = s.layers ∧ (s.startFrame f).lastDecisionBar = s.lastDecisionBar := by
  unfold startFrame enterFromWarmup observeLp
  split_ifs <;> exact ⟨rfl, rfl⟩

theorem accountEquity_bars :
    (s.accountEquity c f).layers = s.layers ∧
      (s.accountEquity c f).lastDecisionBar = s.lastDecisionBar := by
  unfold accountEquity haltWhen trackPeak
  dsimp only
  split_ifs <;> exact ⟨rfl, rfl⟩

omit [F64 F] in
theorem freezeRecoveryProgress_bars :
    s.freezeRecoveryProgress.lastDecisionBar = s.lastDecisionBar := rfl

omit [F64 F] in
theorem onUnusableFrame_bars {continuity : Bool} :
    (s.onUnusableFrame f continuity).lastDecisionBar = s.lastDecisionBar := by
  unfold onUnusableFrame
  dsimp only
  split_ifs <;> rfl

theorem observeMarket_bars (continuity : Bool) (m : Metrics F) :
    (s.observeMarket c f continuity m).1.lastDecisionBar = s.lastDecisionBar ∧
      (marketRisks c f m = [] → (s.observeMarket c f continuity m).1.layers = s.layers) := by
  by_cases safe : marketRisks c f m = []
  · obtain ⟨_, _, _, observed⟩ := observeMarket_of_safe (s := s) continuity safe
    rw [observed]
    exact ⟨rfl, fun _ => rfl⟩
  · obtain ⟨_, _, _, observed⟩ := observeMarket_of_risk (s := s) continuity safe
    rw [observed]
    exact ⟨rfl, fun safe' => absurd safe' safe⟩

theorem advance_bars (continuity unsafeMarket healthy : Bool) :
    (s.advance c f continuity unsafeMarket healthy).1.layers = s.layers ∧
      (s.advance c f continuity unsafeMarket healthy).1.lastDecisionBar = s.lastDecisionBar := by
  have step := advance_step (c := c) (f := f) (s := s) continuity unsafeMarket healthy
  generalize s.advance c f continuity unsafeMarket healthy = advanced at step ⊢
  obtain ⟨t, intent⟩ := advanced
  cases step <;> exact ⟨rfl, rfl⟩

/-- With positions of a known history, only a resume or a scale-up decides something other
than to hold. -/
theorem advance_of_held (continuity unsafeMarket healthy : Bool)
    (held : f.portfolio.positions ≠ []) (known : s.entryHistory = .established) :
    (s.scaleDue c f continuity unsafeMarket healthy = true ∧ ∃ fraction reasons,
        (s.advance c f continuity unsafeMarket healthy).2 = some (.deploy fraction, reasons)) ∨
      s.scaleDue c f continuity unsafeMarket healthy = false ∧
        ((s.advance c f continuity unsafeMarket healthy).2 = none ∨
          ∃ reasons, (s.advance c f continuity unsafeMarket healthy).2 = some (.hold, reasons)) := by
  cases due : s.scaleDue c f continuity unsafeMarket healthy with
  | true =>
      refine .inl ⟨rfl, ?_⟩
      simp only [scaleDue, Bool.or_eq_true, Bool.and_eq_true, decide_eq_true_eq] at due
      rcases due with ⟨paused, confirmed⟩ | ⟨⟨⟨recovering, healthy⟩, hours⟩, step⟩
      · simp [advance, paused, known, confirmed]
      · simp_all [advance]
  | false =>
      refine .inr ⟨rfl, ?_⟩
      by_cases paused : s.phase = .paused
      · have unconfirmed : s.canResume c f continuity unsafeMarket healthy = false := by
          simpa [scaleDue, paused] using due
        exact .inl (by simp [advance, paused, known, unconfirmed])
      · right
        by_cases warmup : s.phase = .warmup
        · simp [advance, warmup, held]
        · have early : ¬(s.phase = .recovering ∧ (!continuity || healthy) = true ∧
              s.healthyHours ≥ c.resumeHealthyHours ∧
              f.nowMs - s.lastScale ≥ c.recoveryStepHours * 3600000) := by
            rintro ⟨recovering, healthy, hours, step⟩
            simp [scaleDue, recovering, healthy, hours, step] at due
          exact ⟨[], by simp only [advance, if_neg paused, if_neg warmup, if_neg early]⟩

theorem settle_bars {lp : LpIntent F} {reasons : List String} :
    (s.settle c f lp reasons).1.lastDecisionBar = (s.enterBar c f).1.lastDecisionBar := rfl

omit [F64 F] in
theorem enterBar_congr (layers : t.layers = s.layers)
    (bar : t.lastDecisionBar = s.lastDecisionBar) :
    (t.enterBar c f).2 = (s.enterBar c f).2 ∧
      (t.enterBar c f).1.layers = (s.enterBar c f).1.layers ∧
      (t.enterBar c f).1.lastDecisionBar = (s.enterBar c f).1.lastDecisionBar := by
  unfold enterBar
  by_cases later : f.nowMs / (c.decisionBarSeconds * 1000) > s.lastDecisionBar <;>
    simp [later, layers, bar]

omit [F64 F] in
theorem enterBar_of_moved (moved : (s.enterBar c f).1.lastDecisionBar ≠ s.lastDecisionBar) :
    (s.enterBar c f).2 = true := by
  unfold enterBar at moved ⊢
  by_cases later : f.nowMs / (c.decisionBarSeconds * 1000) > s.lastDecisionBar
  · simp [later]
  · simp [later] at moved

theorem held_of_confirms {layer : String} (confirms : Confirms c f layer s t) :
    f.portfolio.positions ≠ [] := by
  obtain ⟨-, mem⟩ := confirms
  rintro flat
  have held := observeLayers_resets (c := c) (f := f) (s := (s.enterBar c f).1) true layer mem
  simp [flat] at held

/-- A risk of the market keeps a strategy waiting. -/
theorem safe_of_decided {continuity healthy : Bool} {m : Metrics F}
    {decided : LpIntent F × List String}
    (advanced : ((s.observeMarket c f continuity m).1.advance c f continuity
      (!(marketRisks c f m).isEmpty) healthy).2 = some decided) :
    marketRisks c f m = [] := by
  by_contra risk
  obtain ⟨_, _, _, observed⟩ := observeMarket_of_risk (s := s) continuity risk
  have paused : (s.observeMarket c f continuity m).1.phase = .paused := by rw [observed]
  simp [advance, paused, canResume, risk] at advanced

end Frames

/-- The pass over the layers clears the confirmed count, and only a hold becomes the recentre
of the layer. -/
theorem settle_of_confirms {u : Strategy F} {lp : LpIntent F} {reasons : List String}
    {layer : String} {d : Decision F} (bars : 0 < c.breakoutConfirmBars)
    (layers : u.layers = s.layers) (bar : u.lastDecisionBar = s.lastDecisionBar)
    (settled : u.settle c f lp reasons = (t, d)) (confirms : Confirms c f layer s t) :
    ¬Retains c layer t ∧ if lp = .hold then ActsOn layer d.lp else d.lp = lp := by
  obtain ⟨moved, mem⟩ := confirms
  obtain ⟨sameBar, sameLayers, sameCount⟩ := enterBar_congr (c := c) (f := f) layers bar
  obtain rfl : t = (u.settle c f lp reasons).1 := by rw [settled]
  obtain rfl : d = (u.settle c f lp reasons).2 := by rw [settled]
  have entered : (s.enterBar c f).2 = true := by
    rw [settle_bars, sameCount] at moved
    exact enterBar_of_moved moved
  have pass : (u.enterBar c f).1.observeLayers c f (u.enterBar c f).2 =
      (s.enterBar c f).1.observeLayers c f true := by
    simp only [observeLayers, sameBar, sameLayers, entered]
  have nonempty : ((s.enterBar c f).1.observeLayers c f true).resets ≠ [] :=
    List.ne_nil_of_mem mem
  constructor
  · simp only [Retains, settle, pass, not_le]
    exact observeLayers_below bars layer mem
  · split_ifs with hold
    · simpa [settle, pass, hold, nonempty, ActsOn] using mem
    · simp [settle, hold]

/-- What a frame decides on the market about a layer with a confirmed breakout. -/
theorem decideMarket_acts_iff {continuity : Bool} {layer : String} {m : Metrics F}
    {d : Decision F} (bars : 0 < c.breakoutConfirmBars) (held : f.portfolio.positions ≠ [])
    (known : s.entryHistory = .established)
    (decided : s.decideMarket c f continuity m = (t, d)) (confirms : Confirms c f layer s t) :
    ActsOn layer d.lp ∨ Retains c layer t ↔
      (s.observeMarket c f continuity m).1.scaleDue c f continuity
        (!(marketRisks c f m).isEmpty)
        (Progress.blockers c f m (marketRisks c f m)).isEmpty = false := by
  obtain ⟨bar, sameLayers⟩ := observeMarket_bars (s := s) (c := c) (f := f) continuity m
  have advancedBars := advance_bars (s := (s.observeMarket c f continuity m).1) (c := c) (f := f)
    continuity (!(marketRisks c f m).isEmpty)
    (Progress.blockers c f m (marketRisks c f m)).isEmpty
  unfold decideMarket at decided
  dsimp only at decided
  rcases advance_of_held (s := (s.observeMarket c f continuity m).1) (c := c) continuity
    (!(marketRisks c f m).isEmpty) (Progress.blockers c f m (marketRisks c f m)).isEmpty held
    ((observeMarket_entryHistory ..).trans known) with
    ⟨due, fraction, reasons, advanced⟩ | ⟨early, waits | ⟨reasons, advanced⟩⟩
  · rw [advanced] at decided
    have layers := advancedBars.1.trans (sameLayers (safe_of_decided advanced))
    obtain ⟨cleared, deploys⟩ :=
      settle_of_confirms bars layers (advancedBars.2.trans bar) decided confirms
    simp only [reduceCtorEq, if_false] at deploys
    simp [due, deploys, ActsOn, cleared]
  · rw [waits] at decided
    cases decided
    exact absurd (advancedBars.2.trans bar) confirms.1
  · rw [advanced] at decided
    have layers := advancedBars.1.trans (sameLayers (safe_of_decided advanced))
    obtain ⟨-, acts⟩ :=
      settle_of_confirms bars layers (advancedBars.2.trans bar) decided confirms
    simp only [if_true] at acts
    simp [early, acts]

/-- A confirmed breakout is handled or kept exactly when the evaluation neither resumes nor
scales up. -/
theorem evaluateInner_acts_iff {continuity : Bool} {layer : String} {d : Decision F}
    (bars : 0 < c.breakoutConfirmBars) (evaluated : s.evaluateInner c f continuity = (t, d))
    (confirms : Confirms c f layer s t) :
    ActsOn layer d.lp ∨ Retains c layer t ↔ s.scalesAt c f continuity = false := by
  have held := held_of_confirms confirms
  have started := startFrame_bars (s := s) (f := f)
  have accounted := accountEquity_bars (c := c) (f := f) (s := s.startFrame f)
  have moved := confirms.1
  cases evaluateInner_step evaluated with
  | unusable _ _ => exact absurd (onUnusableFrame_bars.trans started.2) moved
  | halted _ _ _ => exact absurd (accounted.2.trans started.2) moved
  | noIndicators _ _ _ _ =>
      refine absurd ?_ moved
      split_ifs
      · exact freezeRecoveryProgress_bars.trans (accounted.2.trans started.2)
      · exact accounted.2.trans started.2
  | @market _ _ m computed _ _ decided =>
      have known : ((s.startFrame f).accountEquity c f).entryHistory = .established := by
        rw [accountEquity_entryHistory, (startFrame_of_held held).2]
      have started' := enterBar_congr (c := c) (f := f) (accounted.1.trans started.1)
        (accounted.2.trans started.2)
      have confirms' : Confirms c f layer ((s.startFrame f).accountEquity c f) t := by
        refine ⟨by rwa [accounted.2, started.2], ?_⟩
        simpa only [observeLayers, started'.2.1] using confirms.2
      simpa only [scalesAt, computed] using
        decideMarket_acts_iff bars held known decided confirms'

end Strategy

section Runs

open Semantics Strategy

variable {F : Type} [F64 F] {c : StrategyConfig F}

/-- Along every run, a breakout confirmed in an evaluation is handled by its decision, or
still confirmed after it, exactly when the evaluation neither resumes nor scales up. Every
accepted configuration asks for at least one bar. -/
theorem breakout_acts_iff (bars : 0 < c.breakoutConfirmBars) (continuity : Bool)
    (s : Strategy F) (frames : List (MarketFrame F)) :
    ∀ taken ∈ trace (fun f s => s.evaluateInner c f continuity) s frames, ∀ layer,
      Confirms c taken.input layer taken.before taken.after →
      (ActsOn layer taken.output.lp ∨ Retains c layer taken.after ↔
        taken.before.scalesAt c taken.input continuity = false) := by
  intro taken mem layer confirms
  obtain ⟨eq, -⟩ := eq_transition_of_mem_trace _ mem
  rw [eq] at confirms ⊢
  exact evaluateInner_acts_iff bars rfl confirms

end Runs

namespace Shipped

open Semantics

/-- The legacy profile with short windows, which confirms a breakout after two bars. -/
def shortBreakout : Config ℚ :=
  { robinhood with
    strategy := { robinhood.strategy with
      volShortHours := 2
      volLongHours := 3
      emaFastHours := 2
      emaSlowHours := 3
      resumeHealthyHours := 1
      cooldownHours := 1
      recoveryStepHours := 1
      breakoutConfirmBars := 2 } }

theorem shortBreakout_valid : shortBreakout.validate parsers = .ok () :=
  Config.validate_eq_ok.mpr ⟨by decide +kernel, by decide +kernel, venues_valid false _⟩

/-- A held position between 90 and 110. -/
def heldFrame (hours offset : Nat) (price hedgePrice : ℚ) : MarketFrame ℚ :=
  frame hours offset 100 price hedgePrice (heldPortfolio "core" 90 110 6000 2500 1500)

/-- The position is adopted, a basis risk pauses, the strategy resumes after an hour and sees
the price above the range for one bar. -/
def recovering : List (MarketFrame ℚ) :=
  [heldFrame 10 1000 100 100, heldFrame 10 20000 100 90, heldFrame 11 1000 100 100,
    heldFrame 11 60000 100 100, heldFrame 11 2701000 112 112]

/-- The second bar confirms the breakout, but the decision is the next scale-up, and in the
bar after that the strategy only holds. -/
theorem breakout_lost :
    shortBreakout.validate parsers = .ok () ∧
      let step := Strategy.evaluateWithContinuity shortBreakout.strategy
      let lost := transition step (run step Strategy.default recovering)
        (heldFrame 12 61000 112 112)
      let next := transition step lost.after (heldFrame 12 961000 112 112)
      Strategy.Confirms shortBreakout.strategy lost.input "core" lost.before lost.after ∧
        lost.output.lp = .deploy 0.5 ∧
        ¬Strategy.Retains shortBreakout.strategy "core" lost.after ∧
        next.after.lastDecisionBar = lost.after.lastDecisionBar + 1 ∧
        next.output.lp = .hold := by
  refine ⟨shortBreakout_valid, ?_⟩
  unfold Strategy.Confirms Strategy.Retains
  decide +kernel

/-- Only that scale-up loses a breakout. -/
theorem breakout_acts_iff_on_short :
    shortBreakout.validate parsers = .ok () ∧
      ∀ taken ∈ trace (fun f s => s.evaluateInner shortBreakout.strategy f true)
          Strategy.default (recovering ++ [heldFrame 12 61000 112 112]), ∀ layer,
        Strategy.Confirms shortBreakout.strategy taken.input layer taken.before taken.after →
        (Strategy.ActsOn layer taken.output.lp ∨
            Strategy.Retains shortBreakout.strategy layer taken.after ↔
          taken.before.scalesAt shortBreakout.strategy taken.input true = false) :=
  ⟨shortBreakout_valid, breakout_acts_iff (by decide) true _ _⟩

end Shipped

end LpMaker
