import LpMaker.Strategy.Feature

/-!
# The SOL regime evaluator

Completed hourly bars decide trend and volatility; the live price only triggers the
intrahour protections. The shared state fields are reused with their own meaning:
the healthy hours count confirmed entry hours.
-/

namespace LpMaker.Regime

/-- Windows and limits of the regime. -/
structure Config (F : Type) where
  emaEntryHours : Nat
  emaExitHours : Nat
  momentumHours : Nat
  minMomentum : F
  maxHourlyVol : F
  entryVolFraction : F
  maxMomentum : F
  maxBarRange : F
  exitBuffer : F
  entryConfirmHours : Nat

/-- The signals of the completed bars. -/
structure Signals (F : Type) where
  entry : Bool
  exit : Bool
  lastClose : F
  lastHour : Nat
  reason : String
deriving DecidableEq

variable {F : Type} [F64 F]

open F64 (isFinite)

namespace Config

/-- The accepted windows and limits. -/
def validate (c : Config F) : Except String Unit := do
  ensure ((2 ≤ c.emaEntryHours ∧ c.emaEntryHours ≤ 144) ∧
      (2 ≤ c.emaExitHours ∧ c.emaExitHours ≤ 144) ∧
      (2 ≤ c.momentumHours ∧ c.momentumHours ≤ 168) ∧
      1 ≤ c.entryConfirmHours ∧ c.entryConfirmHours ≤ 72)
    "invalid SOL regime windows"
  ensure ((0 ≤ c.minMomentum ∧ c.minMomentum ≤ 0.1) ∧
      (c.minMomentum ≤ c.maxMomentum ∧ c.maxMomentum ≤ 1) ∧
      (0.1 ≤ c.entryVolFraction ∧ c.entryVolFraction ≤ 1) ∧
      (0.001 ≤ c.maxHourlyVol ∧ c.maxHourlyVol ≤ 0.03) ∧
      (0.005 ≤ c.maxBarRange ∧ c.maxBarRange ≤ 0.1) ∧
      0 ≤ c.exitBuffer ∧ c.exitBuffer ≤ 0.02)
    "invalid SOL regime risk limits"

/-- Bars needed by the slowest window. -/
def historyHours (c : Config F) : Nat :=
  max (max (max c.emaEntryHours c.emaExitHours * 3) (c.momentumHours + 1)) 25

end Config

/-- Exponential moving average of the closes. -/
def ema (rows : List (Candle F)) (n : Nat) : F :=
  let a : F := 2 / (n + 1)
  (rows.drop 1).foldl (fun v r => a * r.close + (1 - a) * v)
    (rows.headD Indicators.emptyCandle).close

/-- Trend, volatility and momentum of the completed bars. -/
def signals (c : Config F) (s : StrategyConfig F) (bars : List (Candle F)) (now : Nat) :
    Except String (Signals F) := do
  let m ← Indicators.calculate bars s now
  let rows := Indicators.completed bars now
  let need := c.historyHours
  ensure (rows.length ≥ need) "SOL regime history insufficient"
  let rows := Indicators.lastN rows need
  rows.forM fun row => ensure (Indicators.validBar row) "invalid SOL regime OHLC"
  (Indicators.windows rows).forM fun (previous, next) =>
    ensure (next.openMs = previous.openMs + 3600000) "SOL regime hourly gap"
  let n := rows.length
  let close (i : Nat) : F := (rows.getD i Indicators.emptyCandle).close
  let last := rows.getD (n - 1) Indicators.emptyCandle
  let entryEma := ema rows c.emaEntryHours
  let exitEma := ema rows c.emaExitHours
  let prevExitEma := ema (rows.take (n - 1)) c.emaExitHours
  let returns := Indicators.logReturns ((rows.drop (n - 25)).map Candle.close)
  let vol := Indicators.stddev returns
  let momentum := last.close / close (n - 1 - c.momentumHours) - 1
  let highVol : Bool := vol > c.maxHourlyVol ∨ last.high / last.low - 1 > c.maxBarRange ∨
    m.volRatio > s.volPauseRatio
  let down : Bool := m.downtrend ∨
    (last.close < exitEma * (1 - c.exitBuffer) ∧ exitEma < prevExitEma)
  let fast : Bool := m.return1h < -s.fastDrop1h
  .ok {
    entry := !highVol && !down && !fast && last.close > entryEma && momentum ≥ c.minMomentum
      && momentum ≤ c.maxMomentum && vol ≤ c.maxHourlyVol * c.entryVolFraction
      && exitEma ≥ prevExitEma
    exit := highVol || down || fast
    lastClose := last.close
    lastHour := last.closeMs
    reason := if highVol then "sol_high_volatility" else if down then "sol_downtrend"
      else if fast then "sol_fast_drop" else "sol_trend_not_confirmed" }

/-- The frame is not usable for a decision. -/
def unusable (s : StrategyConfig F) (f : MarketFrame F) : Bool :=
  let p := f.pool.price
  !isFinite p || p ≤ 0 || !isFinite f.hedgePrice || f.hedgePrice ≤ 0
    || !isFinite (f.portfolio.equity p) || !isFinite f.portfolio.base
    || !isFinite f.portfolio.shortBase
    || f.pool.timeMs > f.nowMs + 2000 || f.hedgeTimeMs > f.nowMs + 2000
    || f.nowMs - f.pool.timeMs > s.maxDataAgeSeconds * 1000
    || f.nowMs - f.hedgeTimeMs > s.maxDataAgeSeconds * 1000

/-- The risk which makes the regime leave the pool, if there is one. -/
def danger (c : Config F) (s : StrategyConfig F) (f : MarketFrame F) (sig : Option (Signals F)) :
    Option String :=
  let p := f.pool.price
  let basis : Bool := |p / f.hedgePrice - 1| * 10000 > s.maxBasisBps
  let fastNow := sig.any fun v => p / v.lastClose - 1 < -s.fastDrop1h
  let largeNow := sig.any fun v => |p / v.lastClose - 1| > c.maxBarRange
  if sig.all (fun v => v.exit) || fastNow || largeNow || basis then
    some (if basis then "pool_perp_basis_limit"
      else if fastNow then "sol_intrahour_fast_drop"
      else if largeNow then "sol_intrahour_large_move"
      else (sig.map Signals.reason).getD "sol_indicator_gap")
  else none

/-- Leave the pool for a risk, or because the strategy is halted. -/
def exit (f : MarketFrame F) (reason : String) (state : Strategy F) : Strategy F × Decision F :=
  let state := { state with
    phase := if state.phase = .halted then .halted else .paused
    pauseSince :=
      if state.phase ≠ .halted ∧ state.phase ≠ .paused then f.nowMs else state.pauseSince
    fraction := 0
    healthyHours := 0
    layers := ∅ }
  (state, {
    state := state.phase.format
    lp := .exitToQuote
    targetShortBase := f.portfolio.base
    emergency := true
    reasons := [if state.phase = .halted then "portfolio_drawdown_limit" else reason] })

/-- Count a newly completed hour as an entry confirmation or start over. -/
def countHour (sig : Signals F) (state : Strategy F) : Strategy F :=
  if sig.lastHour > state.lastHour then
    let state :=
      if state.lastHour > 0 ∧ sig.lastHour - state.lastHour ≠ 3600000 then
        { state with healthyHours := 0 }
      else state
    { state with
      healthyHours := if sig.entry then state.healthyHours + 1 else 0
      lastHour := sig.lastHour }
  else state

/-- Enter on a confirmed trend after the cooldown, otherwise wait. -/
def enterOrWait (c : Config F) (s : StrategyConfig F) (f : MarketFrame F) (sig : Signals F)
    (state : Strategy F) : Strategy F × Decision F :=
  let cooled : Bool := state.entryHistory = .initial ∨
    f.nowMs - state.pauseSince ≥ s.cooldownHours * 3600000
  if sig.entry ∧ state.healthyHours ≥ c.entryConfirmHours ∧ cooled then
    let state := { state with phase := .active, fraction := 1, lastScale := f.nowMs }
    (state, { state.hold f with lp := .deploy 1 })
  else
    let state := { state with phase := .paused }
    (state, { state.hold f with
      lp := .exitToQuote
      emergency := true
      reasons := ["sol_wait_for_trend_and_cooldown"] })

/-- The price is out of a position's range. -/
def outsideRange (f : MarketFrame F) : Bool :=
  f.portfolio.positions.any fun x => f.pool.price < x.lower || f.pool.price > x.upper

/-- Keep the position, or leave when the price is out of a range. -/
def holdPosition (f : MarketFrame F) (state : Strategy F) : Strategy F × Decision F :=
  if outsideRange f then
    let state := { state with
      phase := .paused
      pauseSince := f.nowMs
      healthyHours := 0
      fraction := 0 }
    (state, { state.hold f with
      lp := .exitToQuote
      emergency := true
      reasons := ["sol_outside_range_exit_and_wait"] })
  else
    let state := { state with phase := .active }
    (state, state.hold f)

/-- The hedge target of a decision taken without a risk exit. -/
def hedgeTarget (s : StrategyConfig F) (f : MarketFrame F) (d : Decision F) : F :=
  f.portfolio.walletBase + (f.portfolio.positions.map fun x =>
    x.base * if f.pool.price < x.lower ∨ d.lp = .exitToQuote then 1
      else s.insideHedgeRatio).sum

/-- Raise the peak and halt on a breached drawdown. -/
def account (s : StrategyConfig F) (f : MarketFrame F) (state : Strategy F) : Strategy F :=
  let equity := f.portfolio.equity f.pool.price
  let state := state.trackPeak equity s
  state.haltWhen (equity < state.peakEquity * (1 - s.maxDrawdown))

/-- Leave, enter or hold on an accounted frame. -/
def act (c : Config F) (s : StrategyConfig F) (f : MarketFrame F) (sig : Option (Signals F))
    (state : Strategy F) : Strategy F × Decision F :=
  let danger := danger c s f sig
  if state.phase = .halted ∨ danger.isSome then exit f (danger.getD "") state
  else
    match sig with
    | none => (state, state.hold f)
    | some sig =>
        let state := countHour sig state
        let acted :=
          if f.portfolio.positions = [] then enterOrWait c s f sig state
          else holdPosition f state
        (acted.1, { acted.2 with targetShortBase := hedgeTarget s f acted.2 })

/-- Decide on already computed signals, as the runner and the replay do. -/
def evaluateWithSignals (c : Config F) (s : StrategyConfig F) (f : MarketFrame F)
    (sig : Option (Signals F)) (state : Strategy F) : Strategy F × Decision F :=
  let state := state.observeLp (!f.portfolio.positions.isEmpty)
  if unusable s f then
    let state := { state with healthyHours := 0 }
    (state, { state.hold f with reasons := ["stale_or_invalid_data: no transactions"] })
  else act c s f sig (account s f state)

/-- Evaluate on the signals of the frame's own bars. -/
def evaluate (c : Config F) (s : StrategyConfig F) (f : MarketFrame F) (state : Strategy F) :
    Strategy F × Decision F :=
  evaluateWithSignals c s f (signals c s f.candles f.nowMs).toOption state

end LpMaker.Regime
