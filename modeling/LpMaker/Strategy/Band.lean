import LpMaker.Strategy.Feature

/-!
# The band evaluator

Single-range net-exposure strategy. Risk is measured on the change of the whole
account since its first trusted observation, so idle funds never enlarge the loss
limit, and a restart never records a loss as the new base.
-/

namespace LpMaker

variable {F : Type} [F64 F]

namespace BandConfig

/-- Widths below and above the price: the narrower side follows a rise over 24 hours. -/
def widths (band : BandConfig F) (x : Feature F) : F × F :=
  let n := min band.lowerWidth band.upperWidth
  let w := max band.lowerWidth band.upperWidth
  if x.r24 > 0 then (n, w) else (w, n)

/-- The short position which brings the net exposure back into the band. -/
def target (band : BandConfig F) (portfolio : Portfolio F) (price : F) : F :=
  let net := (portfolio.base - portfolio.shortBase) * price
  let target :=
    if net > band.netUpperUsd then max (portfolio.base - band.netUpperUsd / price) 0
    else if net < band.netLowerUsd then max (portfolio.base - band.netLowerUsd / price) 0
    else portfolio.shortBase
  min target (F64.clamp portfolio.hedgeEquity 0 60 * 2.55 / price)

/-- The drawdown at which the band profile leaves the pool. -/
def tripDrawdown (band : BandConfig F) (bs : BandState F) : F :=
  min (max band.pauseDrawdown (bs.entryDrawdown + band.reentryLossBudget)) 0.0475

end BandConfig

namespace StrategyConfig

/-- `band::config`. -/
def band (c : StrategyConfig F) : Option (BandConfig F) :=
  c.ethPersistent.bind PersistentConfig.band

end StrategyConfig

namespace Band

/-- Risk equity relative to the first observation, which is recorded once. -/
def managedEquity (s : Strategy F) (c : StrategyConfig F) (raw : F) : Strategy F × F :=
  let st := s.ethPersistent.getD .default
  let bs := st.band.getD .default
  let origin := bs.accountOriginEquity.getD raw
  let equity := c.totalCapital + raw - origin
  ({ s with
      ethPersistent := some { st with
        band := some { bs with accountOriginEquity := some origin, riskEquity := equity } } },
    equity)

/-- A pause set elsewhere starts a new cooldown and forgets the holding clock. -/
def anchorPause (c : StrategyConfig F) (s : Strategy F) (st : PersistentState F) :
    Strategy F × PersistentState F :=
  if s.phase = .paused ∧ st.pauseAnchorMs ≠ s.pauseSince then
    ({ s with healthyHours := 0 }, { st with
      pauseAnchorMs := s.pauseSince
      reentryNotBeforeMs := s.pauseSince + c.cooldownHours * hourMs
      pendingHedgeTarget := none
      band := st.band.map fun bs => { bs with enteredMs := 0 } })
  else (s, st)

/-- Position clock, episode peak and pause threshold of the current observation. -/
def observeEpisode (band : BandConfig F) (f : MarketFrame F) (eq dd : F) (bs : BandState F) :
    BandState F :=
  let bs := { bs with
    netExposureUsd := (f.portfolio.base - f.portfolio.shortBase) * f.pool.price }
  let bs :=
    if !f.portfolio.positions.isEmpty ∧ bs.enteredMs = 0 then
      let bs := { bs with enteredMs := f.nowMs }
      if bs.episodePeak = 0 then { bs with episodePeak := eq, entryDrawdown := dd } else bs
    else bs
  let bs := { bs with episodePeak := max bs.episodePeak eq }
  { bs with pauseThreshold := band.tripDrawdown bs }

/-- A new episode. Its holding clock starts when the position is first observed. -/
def beginEpisode (eq dd : F) (bs : BandState F) : BandState F :=
  { bs with enteredMs := 0, episodePeak := eq, entryDrawdown := dd }

/-- Price below, inside or above a position. -/
def side (p : F) (pos : LpPosition F) : Int :=
  if p < pos.lower then -1 else if p > pos.upper then 1 else 0

/-- Leave the pool and wait for the cooldown. -/
def exit (c : StrategyConfig F) (f : MarketFrame F) (reason : String) (s : Strategy F)
    (st : PersistentState F) : Strategy F × PersistentState F × Decision F :=
  let left := Strategy.leave f (f.nowMs + c.cooldownHours * hourMs) s st
  let s := { left.1 with healthyHours := 0, fraction := 0, layers := ∅ }
  (s, { left.2 with pendingHedgeTarget := none }, { s.hold f with
    lp := .exitToQuote
    targetShortBase := f.portfolio.base
    emergency := true
    reasons := [if s.phase = .halted then "portfolio_drawdown_limit" else reason] })

/-- The hedge clock and the short position to hold. While a target is unfilled it is
recomputed from the actual inventory. -/
def adjustHedge (profile : PersistentConfig F) (band : BandConfig F) (c : StrategyConfig F)
    (f : MarketFrame F) (st : PersistentState F) : PersistentState F × F :=
  if f.nowMs - st.lastHedgeCheckMs ≥ profile.hedgeIntervalHours * hourMs ∨
      st.pendingHedgeTarget.isSome then
    let st :=
      if st.pendingHedgeTarget.isNone then { st with lastHedgeCheckMs := f.nowMs } else st
    let target := band.target f.portfolio f.pool.price
    if |target - f.portfolio.shortBase| * f.pool.price ≥ c.hedgeDeadbandUsd then
      ({ st with pendingHedgeTarget := some target }, target)
    else ({ st with pendingHedgeTarget := none }, f.portfolio.shortBase)
  else (st, f.portfolio.shortBase)

/-- Hold the position, recentre it after the minimum holding time, or adjust the hedge. -/
def holdPosition (profile : PersistentConfig F) (band : BandConfig F) (c : StrategyConfig F)
    (f : MarketFrame F) (eq dd : F) (outside : Bool) (bs : BandState F) (s : Strategy F)
    (st : PersistentState F) :
    Strategy F × PersistentState F × BandState F × Decision F :=
  let s := { s with phase := .active }
  if outside ∧ f.nowMs - bs.enteredMs ≥ band.minimumHoldingHours * hourMs then
    ({ s with layers := ∅ },
      { st with pendingHedgeTarget := none, lastHedgeCheckMs := f.nowMs },
      beginEpisode eq dd bs,
      { s.hold f with
        lp := .recenter (f.portfolio.positions.map LpPosition.layer)
        reasons := ["range_recenter"] })
  else
    let hedged := adjustHedge profile band c f st
    (s, hedged.1, bs, { s.hold f with targetShortBase := hedged.2 })

/-- Enter once the wait is over, otherwise keep waiting. -/
def enterOrWait (guard : Guard F) (c : StrategyConfig F) (f : MarketFrame F) (x : Feature F)
    (eq dd : F) (bs : BandState F) (s : Strategy F) (st : PersistentState F) :
    Strategy F × PersistentState F × BandState F × Decision F :=
  let awaited := Strategy.awaitCooldown c f s st
  let s := awaited.1
  let st := awaited.2
  if s.entryHistory = .initial ∨ (f.nowMs ≥ st.reentryNotBeforeMs ∧
      s.healthyHours ≥ c.resumeHealthyHours ∧ guard.recovered x f.pool.price) then
    let s := { s with
      phase := .active
      fraction := 1
      lastDecisionBar := f.nowMs / (c.decisionBarSeconds * 1000) }
    (s, { st with
        pendingHedgeTarget := none
        lastHedgeCheckMs := f.nowMs
        reentryNotBeforeMs := 0 },
      beginEpisode eq dd bs,
      { s.hold f with lp := .deploy 1 })
  else
    let s := { s with phase := .paused }
    let remaining := (st.reentryNotBeforeMs - f.nowMs) / 1000
    let hours := s.healthyHours
    let required := c.resumeHealthyHours
    (s, st, bs, { s.hold f with
      lp := .exitToQuote
      targetShortBase := f.portfolio.base
      emergency := true
      reasons := [s!"resume_wait: cooldown_remaining_seconds={remaining}, " ++
        s!"healthy_hours={hours}/{required}"] })

/-- What one usable frame establishes before anything is decided. -/
structure Observation (F : Type) where
  s : Strategy F
  st : PersistentState F
  bs : BandState F
  eq : F
  dd : F
  danger : Option String
  soft : Bool
  globally : Bool
  outside : Bool

/-- Account the frame: risk equity, clocks, peak and halt, healthy hours, episode and
breakout counters. -/
def observe (profile : PersistentConfig F) (band : BandConfig F) (c : StrategyConfig F)
    (f : MarketFrame F) (x : Feature F) (s : Strategy F) : Observation F :=
  let p := f.pool.price
  let managed := managedEquity s c (f.portfolio.equity p)
  let eq := managed.2
  let s := managed.1.observeLp (!f.portfolio.positions.isEmpty)
  let anchored := anchorPause c s (s.ethPersistent.getD .default)
  let s := anchored.1.forgetAfterGap c f anchored.2
  let st := { anchored.2 with lastObservedMs := f.nowMs }
  let s := s.trackPeak eq c
  let dd := 1 - eq / s.peakEquity
  let s := s.haltWhen (dd ≥ c.maxDrawdown)
  let guard := profile.guard c
  let danger := guard.dangerOrBasis c f x
  let s := s.countHealthyHour guard danger x p
  let bs := observeEpisode band f eq dd (st.band.getD .default)
  let hasLp := !f.portfolio.positions.isEmpty
  let soft : Bool := hasLp && 1 - eq / bs.episodePeak ≥ band.episodeDrawdown
  let globally : Bool := hasLp && dd ≥ bs.pauseThreshold
  let newBar : Bool := f.nowMs / (c.decisionBarSeconds * 1000) > s.lastDecisionBar
  let breakouts := s.observeBreakouts c f newBar (side p)
  ⟨breakouts.1, st, bs, eq, dd, danger, soft, globally, breakouts.2⟩

/-- The exit conditions of an accounted frame. -/
def Observation.leaves (o : Observation F) : Prop :=
  o.s.phase = .halted ∨ o.danger.isSome ∨ o.soft ∨ o.globally

instance (o : Observation F) : Decidable o.leaves := by
  unfold Observation.leaves; infer_instance

/-- Leave, hold or enter on an accounted frame. -/
def act (profile : PersistentConfig F) (band : BandConfig F) (c : StrategyConfig F)
    (f : MarketFrame F) (x : Feature F) (o : Observation F) :
    Strategy F × PersistentState F × BandState F × Decision F :=
  if o.leaves then
    let left := exit c f (o.danger.getD
      (if o.globally then "global_drawdown_pause" else "early_drawdown_pause")) o.s o.st
    (left.1, left.2.1, o.bs, left.2.2)
  else if f.portfolio.positions ≠ [] then
    holdPosition profile band c f o.eq o.dd o.outside o.bs o.s o.st
  else enterOrWait (profile.guard c) c f x o.eq o.dd o.bs o.s o.st

/-- The band state machine, after the frame and the feature have been validated. -/
def evaluate (profile : PersistentConfig F) (band : BandConfig F) (c : StrategyConfig F)
    (f : MarketFrame F) (x : Feature F) (s : Strategy F) : Strategy F × Decision F :=
  let acted := act profile band c f x (observe profile band c f x s)
  let s := acted.1
  let st := { acted.2.1 with
    band := some acted.2.2.1
    report := some {
      observedMs := f.nowMs
      completedHourMs := x.time
      return1h := x.r1
      return24h := x.r24
      return72h := x.r72
      vol6h := x.vol6
      pauseVol := (profile.guard c).vol
      healthyHours := s.healthyHours
      requiredHours := c.resumeHealthyHours
      cooldownRemainingSeconds :=
        if s.phase = .paused then (acted.2.1.reentryNotBeforeMs - f.nowMs) / 1000 else 0 } }
  ({ s with ethPersistent := some st }, { acted.2.2.2 with state := s.phase.format })

/-- The check repeated between the chain transactions of an entry. -/
def entryEquitySafe (s : Strategy F) (c : StrategyConfig F) (raw : F) : Bool :=
  match c.band with
  | none => true
  | some band =>
      match s.ethPersistent.bind PersistentState.band with
      | none => false
      | some bs =>
          match bs.accountOriginEquity with
          | none => false
          | some origin =>
              let eq := c.totalCapital + raw - origin
              F64.isFinite raw && s.phase ≠ .halted
                && eq > s.peakEquity * (1 - c.maxDrawdown)
                && eq > s.peakEquity * (1 - band.tripDrawdown bs)
                && eq > bs.episodePeak * (1 - band.episodeDrawdown)

end Band

end LpMaker
