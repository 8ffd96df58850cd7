import LpMaker.Strategy.Band
import LpMaker.Strategy.Legacy

/-!
# The persistent ETH evaluator

Keeps one range open, hedges part of its inventory on a fixed interval, and leaves
on danger, drawdown or a confirmed breakout. `evaluateWithContinuity` selects the
evaluator of the configured profile.
-/

namespace LpMaker

variable {F : Type} [F64 F]

open F64 (isFinite)

namespace Persistent

/-- A pause set elsewhere starts a new cooldown. -/
def anchorPause (c : StrategyConfig F) (s : Strategy F) (st : PersistentState F) :
    Strategy F × PersistentState F :=
  if s.phase = .paused ∧ st.pauseAnchorMs ≠ s.pauseSince then
    ({ s with healthyHours := 0 }, { st with
      pauseAnchorMs := s.pauseSince
      reentryNotBeforeMs := s.pauseSince + c.cooldownHours * hourMs
      pendingHedgeTarget := none })
  else (s, st)

/-- Price below, inside or above a position with its breakout buffer. -/
def side (c : StrategyConfig F) (p : F) (pos : LpPosition F) : Int :=
  if p < pos.lower * (1 - c.breakoutBuffer) then -1
  else if p > pos.upper * (1 + c.breakoutBuffer) then 1
  else 0

/-- Leave the pool. A mere breakout waits for one decision bar only. -/
def exit (c : StrategyConfig F) (f : MarketFrame F) (danger : Option String) (outside : Bool)
    (s : Strategy F) (st : PersistentState F) : Strategy F × PersistentState F × Decision F :=
  let wait :=
    if outside ∧ danger.isNone then c.decisionBarSeconds * 1000 else c.cooldownHours * hourMs
  let left := Strategy.leave f (f.nowMs + wait) s st
  let s := { left.1 with
    healthyHours := if !outside ∨ danger.isSome then 0 else left.1.healthyHours
    fraction := 0
    layers := ∅ }
  (s, { left.2 with pendingHedgeTarget := none }, { s.hold f with
    lp := .exitToQuote
    emergency := true
    targetShortBase := f.portfolio.base
    reasons := [if s.phase = .halted then "portfolio_drawdown_limit"
      else danger.getD "range_recenter"] })

/-- When the current wait ends. -/
def reentryDeadline (c : StrategyConfig F) (s : Strategy F) (st : PersistentState F) : Nat :=
  if st.reentryNotBeforeMs > 0 then st.reentryNotBeforeMs
  else s.pauseSince + c.cooldownHours * hourMs

/-- Enter once the wait is over, otherwise keep waiting. -/
def enterOrWait (c : StrategyConfig F) (f : MarketFrame F) (s : Strategy F)
    (st : PersistentState F) : Strategy F × PersistentState F × Decision F :=
  let awaited := Strategy.awaitCooldown c f s st
  let s := awaited.1
  let st := awaited.2
  let deadline := reentryDeadline c s st
  if s.entryHistory = .initial ∨
      (f.nowMs ≥ deadline ∧ s.healthyHours ≥ c.resumeHealthyHours) then
    let s := { s with
      phase := .active
      fraction := 1
      lastDecisionBar := f.nowMs / (c.decisionBarSeconds * 1000) }
    (s, { st with lastHedgeCheckMs := f.nowMs, pendingHedgeTarget := none },
      { s.hold f with lp := .deploy 1 })
  else
    let s := { s with phase := .paused }
    let remaining := (deadline - f.nowMs) / 1000
    let hours := s.healthyHours
    let required := c.resumeHealthyHours
    (s, st, { s.hold f with
      lp := .exitToQuote
      targetShortBase := f.portfolio.base
      emergency := true
      reasons := [s!"resume_wait: cooldown_remaining_seconds={remaining}, " ++
        s!"healthy_hours={hours}/{required}"] })

/-- The hedge clock and the short position to hold. An unfilled target is kept. -/
def adjustHedge (profile : PersistentConfig F) (c : StrategyConfig F) (f : MarketFrame F)
    (st : PersistentState F) : PersistentState F × F :=
  let st :=
    if f.nowMs - st.lastHedgeCheckMs ≥ profile.hedgeIntervalHours * hourMs then
      { st with
        lastHedgeCheckMs := f.nowMs
        pendingHedgeTarget := some (f.portfolio.base * c.insideHedgeRatio) }
    else st
  match st.pendingHedgeTarget with
  | some target =>
      if |target - f.portfolio.shortBase| * f.pool.price ≥ c.hedgeDeadbandUsd then (st, target)
      else ({ st with pendingHedgeTarget := none }, f.portfolio.shortBase)
  | none => (st, f.portfolio.shortBase)

/-- Keep the range and adjust the hedge on its interval. -/
def holdPosition (profile : PersistentConfig F) (c : StrategyConfig F) (f : MarketFrame F)
    (s : Strategy F) (st : PersistentState F) :
    Strategy F × PersistentState F × Decision F :=
  let s := { s with phase := .active }
  let hedged := adjustHedge profile c f st
  (s, hedged.1, { s.hold f with targetShortBase := hedged.2 })

/-- What one usable frame establishes before anything is decided. -/
structure Observation (F : Type) where
  s : Strategy F
  st : PersistentState F
  danger : Option String
  outside : Bool

/-- Account the frame: clocks, peak and halt, healthy hours and breakout counters. -/
def observe (profile : PersistentConfig F) (c : StrategyConfig F) (f : MarketFrame F)
    (x : Feature F) (s : Strategy F) : Observation F :=
  let p := f.pool.price
  let eq := f.portfolio.equity p
  let s := s.observeLp (!f.portfolio.positions.isEmpty)
  let anchored := anchorPause c s (s.ethPersistent.getD .default)
  let s := anchored.1.forgetAfterGap c f anchored.2
  let st := { anchored.2 with lastObservedMs := f.nowMs }
  let s := s.trackPeak eq c
  let s := s.haltWhen (eq ≤ s.peakEquity * (1 - c.maxDrawdown))
  let guard := profile.guard c
  let danger := guard.dangerOrBasis c f x
  let s := s.countHealthyHour guard danger x p
  let newBar : Bool := f.nowMs / c.decisionBarSeconds / 1000 > s.lastDecisionBar
  let breakouts := s.observeBreakouts c f newBar (side c p)
  ⟨breakouts.1, st, danger, breakouts.2⟩

/-- The exit conditions of an accounted frame. -/
def Observation.leaves (o : Observation F) : Prop :=
  o.s.phase = .halted ∨ o.danger.isSome ∨ o.outside

instance (o : Observation F) : Decidable o.leaves := by
  unfold Observation.leaves; infer_instance

/-- Leave, enter or hold on an accounted frame. -/
def act (profile : PersistentConfig F) (c : StrategyConfig F) (f : MarketFrame F)
    (o : Observation F) : Strategy F × PersistentState F × Decision F :=
  if o.leaves then exit c f o.danger o.outside o.s o.st
  else if f.portfolio.positions = [] then enterOrWait c f o.s o.st
  else holdPosition profile c f o.s o.st

/-- The evaluator without a band, after the frame and the feature have been validated. -/
def evaluateRange (profile : PersistentConfig F) (c : StrategyConfig F) (f : MarketFrame F)
    (x : Feature F) (s : Strategy F) : Strategy F × Decision F :=
  let acted := act profile c f (observe profile c f x s)
  let s := acted.1
  let st := { acted.2.1 with
    report := some {
      observedMs := f.nowMs
      completedHourMs := x.time
      return1h := x.r1
      return24h := x.r24
      return72h := x.r72
      vol6h := x.vol6
      pauseVol := (profile.guard c).vol
      healthyHours := s.healthyHours
      requiredHours := c.resumeHealthyHours
      cooldownRemainingSeconds := (acted.2.1.reentryNotBeforeMs - f.nowMs) / 1000 } }
  ({ s with ethPersistent := some st }, { acted.2.2 with state := s.phase.format })

/-- Validate the frame and the feature and hand over to the configured evaluator. -/
def evaluateFeature (profile : PersistentConfig F) (c : StrategyConfig F) (f : MarketFrame F)
    (x : Feature F) (s : Strategy F) : Strategy F × Decision F :=
  if x.unusable c f then
    let s := { s with healthyHours := 0 }
    (s, { s.hold f with
      reasons := ["stale_or_invalid_data: persistent observation unavailable"] })
  else
    match profile.band with
    | some band => Band.evaluate profile band c f x s
    | none => evaluateRange profile c f x s

/-- The frame supports a drawdown check although its hourly history is unusable. -/
def drawdownCheckable (c : StrategyConfig F) (f : MarketFrame F) : Bool :=
  ([f.pool.price, f.hedgePrice, f.portfolio.equity f.pool.price].all fun v => isFinite v)
    && f.pool.price > 0 && f.hedgePrice > 0
    && f.pool.timeMs ≤ f.nowMs && f.hedgeTimeMs ≤ f.nowMs
    && f.nowMs - f.pool.timeMs ≤ c.maxDataAgeSeconds * 1000
    && f.nowMs - f.hedgeTimeMs ≤ c.maxDataAgeSeconds * 1000

/-- A broken hourly history holds, but never hides a verifiable drawdown. -/
def onBrokenHistory (c : StrategyConfig F) (f : MarketFrame F) (e : String) (s : Strategy F) :
    Strategy F × Decision F :=
  let s := { s with healthyHours := 0 }
  let d := { s.hold f with
    reasons := ["stale_or_invalid_data: persistent hourly history: " ++ e] }
  if drawdownCheckable c f then
    let raw := f.portfolio.equity f.pool.price
    let managed := if c.band.isSome then Band.managedEquity s c raw else (s, raw)
    let s := managed.1.trackPeak managed.2 c
    if s.phase = .halted ∨ managed.2 ≤ s.peakEquity * (1 - c.maxDrawdown) then
      ({ s with phase := .halted }, {
        state := "Halted"
        reasons := ["portfolio_drawdown_limit"]
        lp := .exitToQuote
        targetShortBase := f.portfolio.base
        emergency := true })
    else (s, d)
  else (s, d)

/-- The evaluator of the persistent ETH profiles. -/
def evaluate (profile : PersistentConfig F) (c : StrategyConfig F) (f : MarketFrame F)
    (s : Strategy F) : Strategy F × Decision F :=
  match Feature.latest f.candles f.nowMs with
  | .ok x => evaluateFeature profile c f x s
  | .error e => onBrokenHistory c f e s

end Persistent

/-- The evaluator of the EVM runner. -/
def Strategy.evaluateWithContinuity (c : StrategyConfig F) (f : MarketFrame F)
    (s : Strategy F) : Strategy F × Decision F :=
  match c.ethPersistent with
  | some profile => Persistent.evaluate profile c f s
  | none => s.evaluateInner c f true

end LpMaker
