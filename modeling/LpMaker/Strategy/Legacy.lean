import LpMaker.Strategy.Feature
import LpMaker.Strategy.Progress

/-!
# The legacy evaluator

`evaluateInner` follows one observation through the gates of the source: frame
validity, drawdown, indicators, market risk, the healthy-hour count, the phase
transition and the per-layer breakout counters. Each stage is a definition of its
own, so that invariants are proved stage by stage.
-/

namespace LpMaker.Strategy

variable {F : Type} [F64 F]

open F64 (isFinite)

/-- A warm start with known or unknown history waits in `Paused` while flat. -/
def enterFromWarmup (f : MarketFrame F) (s : Strategy F) : Strategy F :=
  if s.phase = .warmup ∧ s.entryHistory ≠ .initial ∧ f.portfolio.positions = [] then
    { s with phase := .paused, pauseSince := f.nowMs }
  else s

/-- The pool or the hedge market was observed too long ago. -/
def stale (c : StrategyConfig F) (f : MarketFrame F) : Bool :=
  f.nowMs - f.pool.timeMs > c.maxDataAgeSeconds * 1000
    || f.nowMs - f.hedgeTimeMs > c.maxDataAgeSeconds * 1000

/-- Prices and balances are usable numbers. -/
def validFrame (f : MarketFrame F) : Bool :=
  ([f.pool.price, f.hedgePrice, f.portfolio.equity f.pool.price, f.portfolio.base,
      f.portfolio.shortBase].all fun x => isFinite x)
    && f.pool.price > 0 && f.hedgePrice > 0

/-- An unusable frame: continuity freezes the progress, otherwise it pauses. -/
def onUnusableFrame (f : MarketFrame F) (continuity : Bool) (s : Strategy F) : Strategy F :=
  if continuity then s.freezeRecoveryProgress
  else
    let s := if s.phase ≠ .halted then { s with phase := .paused, pauseSince := f.nowMs } else s
    { s with healthyHours := 0 }

/-- Equity fell below the allowed drawdown from the peak. -/
def drawdownBreached (equity : F) (c : StrategyConfig F) (s : Strategy F) : Bool :=
  equity < s.peakEquity * (1 - c.maxDrawdown)

/-- The state a frame is evaluated in: the observed positions settle the entry history. -/
def startFrame (f : MarketFrame F) (s : Strategy F) : Strategy F :=
  (s.observeLp (!f.portfolio.positions.isEmpty)).enterFromWarmup f

/-- Raise the peak and halt on a breached drawdown. -/
def accountEquity (c : StrategyConfig F) (f : MarketFrame F) (s : Strategy F) : Strategy F :=
  let equity := f.portfolio.equity f.pool.price
  let s := s.trackPeak equity c
  s.haltWhen (s.drawdownBreached equity c)

/-- The current market risks, which are also the reasons reported for them. -/
def marketRisks (c : StrategyConfig F) (f : MarketFrame F) (m : Metrics F) : List String :=
  let p := f.pool.price
  let fast : Bool := m.return1h < -c.fastDrop1h || p / m.lastClose - 1 < -c.fastDrop1h
  let basis := |p / f.hedgePrice - 1| * 10000
  let shock : Bool := m.volRatio > c.volPauseRatio
  (if fast then ["fast_drop"] else [])
    ++ (if shock then ["volatility_spike"] else [])
    ++ (if m.downtrend then ["persistent_downtrend"] else [])
    ++ (if basis > c.maxBasisBps then ["pool_perp_basis_limit"] else [])

/-- A market risk pauses the strategy and clears its progress. -/
def pauseForRisk (f : MarketFrame F) (continuity : Bool) (blockers : List String)
    (s : Strategy F) : Strategy F :=
  let s := if s.phase ≠ .paused then { s with pauseSince := f.nowMs } else s
  let s := { s with phase := .paused }
  let s :=
    if continuity then
      { s with
        recoveryProgress := { s.recoveryProgress with pendingRevalidation := false } }
        |>.resetHealthyProgress f.nowMs (blockers.headD "hour_not_healthy")
    else { s with healthyHours := 0 }
  { s with fraction := 0, layers := s.layers.clearStreaks }

/-- Clear the healthy hours, with a recorded reason under continuity. -/
def clearHours (f : MarketFrame F) (reasoned : Bool) (reason : String) (s : Strategy F) :
    Strategy F :=
  if reasoned then s.resetHealthyProgress f.nowMs reason else { s with healthyHours := 0 }

/-- Count a newly completed hour, at most once, and only as healthy. -/
def countHour (f : MarketFrame F) (m : Metrics F) (continuity unsafeMarket healthy : Bool)
    (s : Strategy F) (event : String) : Strategy F × String :=
  if m.lastCloseMs > s.lastHour then
    let s :=
      if s.lastHour > 0 ∧ m.lastCloseMs - s.lastHour > 3600000 then
        s.clearHours f continuity "hourly_gap"
      else s
    let s := { s with lastHour := m.lastCloseMs }
    if healthy then
      ({ s with healthyHours := saturatingSucc s.healthyHours }, "hour_counted")
    else (s.clearHours f (continuity && !unsafeMarket) "hour_not_healthy", event)
  else (s, event)

/-- Whether a paused strategy may recover: confirmed hours and an elapsed cooldown. -/
def canResume (c : StrategyConfig F) (f : MarketFrame F)
    (continuity unsafeMarket healthy : Bool) (s : Strategy F) : Bool :=
  !unsafeMarket && (!continuity || healthy) && s.healthyHours ≥ c.resumeHealthyHours
    && f.nowMs - s.pauseSince ≥ c.cooldownHours * 3600000

/-- The phase transition. `none` means that a paused strategy keeps waiting. -/
def advance (c : StrategyConfig F) (f : MarketFrame F)
    (continuity unsafeMarket healthy : Bool) (s : Strategy F) :
    Strategy F × Option (LpIntent F × List String) :=
  if s.phase = .paused then
    if s.entryHistory = .initial ∧ !unsafeMarket then
      ({ s with phase := .active, fraction := 1 },
        some (.deploy 1, ["initial_entry: cooldown and healthy-hour waiting waived"]))
    else if s.canResume c f continuity unsafeMarket healthy then
      ({ s with
          phase := .recovering
          fraction := c.recoveryFraction
          lastScale := f.nowMs },
        some (.deploy c.recoveryFraction, []))
    else (s, none)
  else if s.phase = .warmup then
    ({ s with phase := .active, fraction := 1 },
      some (if f.portfolio.positions = [] then
        (.deploy 1, ["initial_entry: current-market checks passed"]) else (.hold, [])))
  else if s.phase = .recovering ∧ (!continuity || healthy) ∧
      s.healthyHours ≥ c.resumeHealthyHours ∧
      f.nowMs - s.lastScale ≥ c.recoveryStepHours * 3600000 then
    let fraction := min (s.fraction + c.recoveryFraction) 1
    ({ s with
        fraction := fraction
        lastScale := f.nowMs
        phase := if fraction ≥ 1 then .active else s.phase },
      some (.deploy fraction, []))
  else (s, some (.hold, []))

/-- A new decision bar; a skipped bar forgets the breakout streaks. -/
def enterBar (c : StrategyConfig F) (f : MarketFrame F) (s : Strategy F) : Strategy F × Bool :=
  let bucket := f.nowMs / (c.decisionBarSeconds * 1000)
  if bucket > s.lastDecisionBar then
    ({ s with
        layers :=
          if s.lastDecisionBar > 0 ∧ bucket > s.lastDecisionBar + 1 then s.layers.clearStreaks
          else s.layers
        lastDecisionBar := bucket }, true)
  else (s, false)

/-- Accumulator of the pass over the positions. -/
structure LayerPass (F : Type) where
  layers : Layers
  target : F
  emergency : Bool
  resets : List String

/-- Full hedge below the range, released once the price is clearly back inside. -/
def protectLayer (c : StrategyConfig F) (p : F) (pos : LpPosition F) (s : LayerState) :
    LayerState :=
  let s := if p < pos.lower then { s with isProtected := true } else s
  if p > pos.lower * (1 + c.hedgeReleaseBuffer) then { s with isProtected := false } else s

/-- Count a decision bar outside the range; a confirmed breakout starts over. -/
def countBreakout (c : StrategyConfig F) (p : F) (pos : LpPosition F) (s : LayerState) :
    LayerState × Bool :=
  let side : Int :=
    if p < pos.lower * (1 - c.breakoutBuffer) then -1
    else if p > pos.upper * (1 + c.breakoutBuffer) then 1
    else 0
  let count :=
    if side = 0 then 0 else if side = s.outsideSide then s.outsideCount + 1 else 1
  let confirmed : Bool := count ≥ c.breakoutConfirmBars
  ({ s with outsideSide := side, outsideCount := if confirmed then 0 else count }, confirmed)

/-- Protection flag, hedge target and breakout counter of one position. -/
def observeLayer (c : StrategyConfig F) (p : F) (newBar : Bool) (pass : LayerPass F)
    (pos : LpPosition F) : LayerPass F :=
  let s := protectLayer c p pos (pass.layers.entry pos.layer)
  let counted := if newBar then countBreakout c p pos s else (s, false)
  { layers := pass.layers.insert pos.layer counted.1
    target := pass.target + pos.base * if s.isProtected then 1 else c.insideHedgeRatio
    emergency := pass.emergency || s.isProtected
    resets := if counted.2 then pass.resets ++ [pos.layer] else pass.resets }

/-- The pass over all positions, starting from the wallet inventory. -/
def observeLayers (c : StrategyConfig F) (f : MarketFrame F) (newBar : Bool)
    (s : Strategy F) : LayerPass F :=
  f.portfolio.positions.foldl (observeLayer c f.pool.price newBar)
    ⟨s.layers, f.portfolio.walletBase, false, []⟩

/-- The exit intent of a strategy which keeps waiting in `Paused`. -/
def waitDecision (c : StrategyConfig F) (f : MarketFrame F) (reasons : List String)
    (s : Strategy F) : Decision F :=
  let remaining := ceilSeconds (c.cooldownHours * 3600000 - (f.nowMs - s.pauseSince))
  let hours := s.healthyHours
  let required := c.resumeHealthyHours
  { state := "Paused"
    reasons := reasons ++
      [s!"resume_wait: cooldown_remaining_seconds={remaining}, healthy_hours={hours}/{required}"]
    lp := .exitToQuote
    targetShortBase := f.portfolio.base
    emergency := true }

/-- The layer pass and the final decision once the phase is settled. -/
def settle (c : StrategyConfig F) (f : MarketFrame F) (lp : LpIntent F) (reasons : List String)
    (s : Strategy F) : Strategy F × Decision F :=
  let entered := s.enterBar c f
  let pass := entered.1.observeLayers c f entered.2
  let s := { entered.1 with layers := pass.layers }
  (s, {
    state := s.phase.format
    reasons := reasons
    lp := if lp = .hold ∧ pass.resets ≠ [] then .recenter pass.resets else lp
    targetShortBase := max pass.target 0
    emergency := pass.emergency })

/-- A market risk pauses; otherwise continuity settles frozen progress. The result is the
state, the added reasons and the counter event. -/
def applyRisk (c : StrategyConfig F) (f : MarketFrame F) (continuity : Bool) (m : Metrics F)
    (s : Strategy F) : Strategy F × List String × String :=
  let risks := marketRisks c f m
  let blockers := Progress.blockers c f m risks
  if risks ≠ [] then
    (s.pauseForRisk f continuity blockers, [],
      if continuity then "reset_market_risk" else "unchanged")
  else if continuity then s.recheckProgress f m blockers
  else (s, [], "unchanged")

/-- Count the completed hour and, under continuity, report the progress. -/
def creditHour (c : StrategyConfig F) (f : MarketFrame F) (continuity : Bool) (m : Metrics F)
    (event : String) (s : Strategy F) : Strategy F :=
  let risks := marketRisks c f m
  let blockers := Progress.blockers c f m risks
  let counted := s.countHour f m continuity (!risks.isEmpty) blockers.isEmpty event
  if continuity then
    counted.1.reportProgress c f m blockers
      (if counted.2 = "unchanged" then "waiting_next_hour" else counted.2)
  else counted.1

/-- The state and the reasons after the risks and the completed hour have been processed. -/
def observeMarket (c : StrategyConfig F) (f : MarketFrame F) (continuity : Bool) (m : Metrics F)
    (s : Strategy F) : Strategy F × List String :=
  let applied := s.applyRisk c f continuity m
  (applied.1.creditHour c f continuity m applied.2.2, marketRisks c f m ++ applied.2.1)

/-- Decide at a usable frame with usable indicators. -/
def decideMarket (c : StrategyConfig F) (f : MarketFrame F) (continuity : Bool) (m : Metrics F)
    (s : Strategy F) : Strategy F × Decision F :=
  let risks := marketRisks c f m
  let healthy := (Progress.blockers c f m risks).isEmpty
  let observed := s.observeMarket c f continuity m
  let advanced := observed.1.advance c f continuity (!risks.isEmpty) healthy
  match advanced.2 with
  | none => (advanced.1, advanced.1.waitDecision c f observed.2)
  | some (lp, added) => advanced.1.settle c f lp (observed.2 ++ added)

/-- The exit intent of a halted strategy. -/
def haltDecision (f : MarketFrame F) (reasons : List String) : Decision F where
  state := "Halted"
  reasons := reasons
  lp := .exitToQuote
  targetShortBase := f.portfolio.base
  emergency := true

/-- One evaluation: the frame, the drawdown and the indicators are checked in turn. -/
def evaluateInner (c : StrategyConfig F) (f : MarketFrame F) (continuity : Bool)
    (s : Strategy F) : Strategy F × Decision F :=
  let s := s.startFrame f
  if stale c f || !validFrame f then
    let s := s.onUnusableFrame f continuity
    (s, { s.hold f with
      reasons := ["stale_or_invalid_data: no transactions using uncertain prices"] })
  else
    let s := s.accountEquity c f
    if s.phase = .halted then
      (s, haltDecision f
        (if s.drawdownBreached (f.portfolio.equity f.pool.price) c then
          ["portfolio_drawdown_limit"] else []))
    else
      match Indicators.calculate f.candles c f.nowMs with
      | .error e =>
          (if continuity then s.freezeRecoveryProgress else s, { s.hold f with
            reasons := ["indicator_warmup_or_gap: " ++ e]
            targetShortBase := f.portfolio.base
            emergency := !f.portfolio.positions.isEmpty })
      | .ok m => s.decideMarket c f continuity m

/-- The evaluator without continuity, used by the Solana runner. -/
def evaluate (c : StrategyConfig F) (f : MarketFrame F) (s : Strategy F) :
    Strategy F × Decision F :=
  s.evaluateInner c f false

end LpMaker.Strategy
