import Mathlib
import LpMaker.Semantics.Replay
import LpMaker.Solana.Ledger

/-!
# The research simulator

One account is replayed over the bars of a dataset: mark and decide at the opening prices,
execute, follow the bar to its low and its close, and credit the assumed fees. What a bar
reads of the dataset is collected in a `Row`.
-/

namespace LpMaker.Research

variable {F : Type} [F64 F]

/-- One bar of the pool. The time is in seconds. -/
structure Bar (F : Type) where
  timestamp : Nat
  open_ : F
  high : F
  low : F
  close : F
deriving DecidableEq

structure Data (F : Type) where
  stepMs : Nat
  intrabarStress : Bool
  pool : List (Bar F)
  hedge : List (Candle F)
  funding : Nat → Option F

/-- The parts of the configuration which the simulator reads. -/
structure Config (F : Type) where
  strategy : StrategyConfig F
  leverage : Nat
  regime : Regime.Config F

/-- The isolated margin of the hedge. -/
structure MarginGuard (F : Type) where
  short : F
  accountEquity : F
  isolatedEquity : F

namespace MarginGuard

def default : MarginGuard F := ⟨0, 0, 0⟩

def observe (p : Dlmm.Paper F) (price : F) (guard : MarginGuard F) : MarginGuard F :=
  let settled :=
    if guard.short > 0 then guard.isolatedEquity + (p.hedgeEquity - guard.accountEquity)
    else guard.isolatedEquity
  { short := p.short
    accountEquity := p.hedgeEquity
    isolatedEquity :=
      if p.short > guard.short then
        settled + (p.short - guard.short) * price / (p.leverage : F)
      else if guard.short > 0 then settled * (p.short / guard.short)
      else settled }

/-- The margin is below the buffer at an adverse price. -/
def unsafeAt (price adversePrice : F) (guard : MarginGuard F) : Bool :=
  guard.short > 0 ∧
    guard.isolatedEquity - guard.short * (adversePrice - price) ≤
      guard.short * adversePrice * 0.10

end MarginGuard

/-- The assumed fees of a bar, on the smaller endpoint principal of the positions in range. -/
def feeForBar (paper : Dlmm.Paper F) (b : Bar F) (apr hours : F) : F :=
  (paper.positions.map fun position =>
    let p := position.position
    if b.low < p.lower ∨ b.high > p.upper then 0
    else
      let startValue := p.base * b.open_ + p.quote
      let q := (position.mark b.close).position
      max (min startValue (q.base * b.close + q.quote)) 0 * apr * hours / (365 * 24)).sum

def frame (s : StrategyConfig F) (paper : Dlmm.Paper F) (t : Nat) (p h : F) : MarketFrame F where
  nowMs := t
  pool := ⟨t, p⟩
  hedgePrice := h
  hedgeTimeMs := t
  candles := []
  portfolio := paper.portfolio s

/-- The signals at a time, from the last 450 candles closed before it. -/
def signalAt (c : Config F) (data : Data F) (t : Nat) : Option (Regime.Signals F) :=
  let closed := data.hedge.takeWhile fun x => x.closeMs < t
  (Regime.signals c.regime c.strategy (closed.drop (closed.length - 450)) t).toOption

/-- The signals at the opening of every bar. -/
def cachedSignals (c : Config F) (data : Data F) : List (Option (Regime.Signals F)) :=
  data.pool.map fun b => signalAt c data (b.timestamp * 1000)

/-- What one bar of the loop reads of the dataset. -/
structure Row (F : Type) where
  bar : Bar F
  hedge : Option (Candle F)
  funding : Option F
  previous : Option Nat
  signal : Option (Regime.Signals F)

namespace Row

/-- The opening time in milliseconds. -/
def time (row : Row F) : Nat := row.bar.timestamp * 1000

/-- The bar comes later than one step after its predecessor. -/
def afterGap (stepMs : Nat) (row : Row F) : Bool :=
  row.previous.any fun previous => row.time > previous * 1000 + stepMs

end Row

namespace Data

/-- What the bar at one index of the pool reads. -/
def row (data : Data F) (signals : List (Option (Regime.Signals F))) (indexed : Bar F × Nat) :
    Row F :=
  let t := indexed.1.timestamp * 1000
  { bar := indexed.1
    hedge := data.hedge.find? fun h => h.openMs = t
    funding := data.funding (t / hourMs * hourMs)
    previous :=
      if indexed.2 > 0 then data.pool[indexed.2 - 1]?.map Bar.timestamp else none
    signal := signals[indexed.2]?.join }

/-- The rows of the bars from `start` to before `end_`. -/
def rows (data : Data F) (signals : List (Option (Regime.Signals F))) (start end_ : Nat) :
    List (Row F) :=
  (data.pool.zipIdx.filter fun indexed =>
    start ≤ indexed.1.timestamp * 1000 ∧ indexed.1.timestamp * 1000 < end_).map
      (data.row signals)

end Data

/-- One recorded point of the equity curve. -/
structure Point (F : Type) where
  timeMs : Nat
  price : F
  equity : F
  lpValue : F
  fees : F
  phase : String

/-- What a replay keeps fixed. -/
structure Setup (F : Type) where
  original : Config F
  stepMs : Nat
  intrabarStress : Bool
  apr : F
  costMultiplier : F
  curve : Bool
  account : Bool
  nativeSol : F
  nativeValue : F

/-- The mutable state of a replay. The working copy of the configuration is part of it. -/
structure Sim (F : Type) where
  strategy : StrategyConfig F
  paper : Dlmm.Paper F
  margin : MarginGuard F
  rejections : Finset String
  state : Strategy F
  peak : F
  dd : F
  fees : F
  active : F
  eligible : F
  exits : String → Nat
  points : List (Point F)
  last : F × F

namespace Setup

/-- Cost of one operation. -/
def cost (setup : Setup F) : F := 0.10 * setup.costMultiplier

/-- Fee rate of the hedge. -/
def feeRate (setup : Setup F) : F := 0.00075 * setup.costMultiplier

/-- The reserve with the native coins at a price. -/
def reserveAt (setup : Setup F) (price : F) : F :=
  setup.original.strategy.reserve - setup.nativeValue + setup.nativeSol * price

/-- Hours of one bar. -/
def hours (setup : Setup F) : F := (setup.stepMs : F) / (hourMs : F)

end Setup

namespace Sim

/-- Count every reason of an exit. -/
def countExits (label : String → String) (reasons : List String) (sim : Sim F) : Sim F :=
  { sim with
    exits := reasons.foldl (fun exits reason =>
      Function.update exits (label reason) (exits (label reason) + 1)) sim.exits }

/-- Note a rejection of the account model. -/
def rejectWhen (rejected : Bool) (reason : String) (sim : Sim F) : Sim F :=
  if rejected then { sim with rejections := insert reason sim.rejections } else sim

/-- Charge the stress multiplier on the swaps since `oldSwaps`. -/
def chargeSwaps (setup : Setup F) (oldSwaps : F) (sim : Sim F) : Sim F :=
  let extra := (sim.paper.swapCosts - oldSwaps) * (setup.costMultiplier - 1)
  { sim with paper := { sim.paper with
      cash := sim.paper.cash - extra
      swapCosts := sim.paper.swapCosts + extra } }

/-- Mark the account and the reserve, and settle the funding of the hour. -/
def markOpen (setup : Setup F) (row : Row F) (h : Candle F) (rate : F) (sim : Sim F) : Sim F :=
  { sim with
    paper := (sim.paper.mark row.bar.open_ h.open_).funding rate h.open_
      (row.time / hourMs * hourMs)
    strategy := { sim.strategy with reserve := setup.reserveAt row.bar.open_ } }

/-- Observe the margin at the opening, and limit the collateral to what is left of it. -/
def guardOpen (setup : Setup F) (h : Candle F) (sim : Sim F) : Sim F :=
  if setup.account then
    let margin := sim.margin.observe sim.paper h.open_
    let sim := { sim with margin := margin }.rejectWhen (margin.unsafeAt h.open_ h.open_)
      "isolated_margin_buffer"
    { sim with strategy := { sim.strategy with
        hedgeCollateral :=
          min setup.original.strategy.hedgeCollateral (max sim.paper.hedgeEquity 0) } }
  else sim

end Sim

/-- The exit outside the evaluator. -/
def forcedExit (state : String) : Decision F where
  state := state
  reasons := []
  lp := .exitToQuote
  targetShortBase := 0
  emergency := true

namespace Sim

/-- The phase of a replay after a gap. -/
def pauseForGap (row : Row F) (sim : Sim F) : Sim F :=
  { sim with state := { sim.state with
      phase := .paused
      pauseSince := row.time
      healthyHours := 0 } }

/-- The decision at the opening. -/
def evaluateOpen (setup : Setup F) (row : Row F) (h : Candle F) (sim : Sim F) :
    Sim F × Decision F :=
  let f := frame sim.strategy sim.paper row.time row.bar.open_ h.open_
  let evaluated :=
    Regime.evaluateWithSignals setup.original.regime sim.strategy f row.signal sim.state
  let sim := { sim with state := evaluated.1 }
  (if evaluated.2.lp = .exitToQuote ∧ sim.paper.positions ≠ [] then
      sim.countExits id evaluated.2.reasons
    else sim, evaluated.2)

variable [FloorRing F]

/-- A data gap pauses the strategy and leaves the pool. -/
def leaveForGap (setup : Setup F) (row : Row F) (h : Candle F) (sim : Sim F) :
    Except String (Sim F) :=
  if row.afterGap setup.stepMs then do
    let sim := sim.pauseForGap row
    let paper ← sim.paper.apply (forcedExit "DataGap") sim.strategy row.bar.open_ h.open_
      row.time 0 setup.cost setup.feeRate
    pure { sim with paper := paper }
  else pure sim

/-- What is known and decided at the opening of a bar. -/
def decide_ (setup : Setup F) (row : Row F) (sim : Sim F) :
    Except String (Sim F × Decision F) := do
  let h ← context row.hedge "missing paired HL hour"
  let rate ← context row.funding "missing funding hour"
  let sim := (sim.markOpen setup row h rate).guardOpen setup h
  let sim ← sim.leaveForGap setup row h
  pure (sim.evaluateOpen setup row h)

/-- The hedge around a mint: fully at first, then the strategic target. -/
def hedgeEntry (setup : Setup F) (row : Row F) (h : Candle F) (d : Decision F)
    (sim : Sim F) : Sim F :=
  if d.lp.opens then
    let inventory := sim.paper.portfolio sim.strategy
    let target := inventoryHedgeTarget sim.strategy inventory row.bar.open_
    let paper := sim.paper.hedge inventory.base h.open_ true sim.strategy setup.feeRate
    { sim with paper := paper.hedge target h.open_ true sim.strategy setup.feeRate }
  else sim

/-- Execute the decision at the opening prices. -/
def executeOpen (setup : Setup F) (row : Row F) (h : Candle F) (d : Decision F)
    (sim : Sim F) : Except String (Sim F) := do
  let oldSwaps := sim.paper.swapCosts
  let paper ← sim.paper.apply d sim.strategy row.bar.open_ h.open_ row.time
    sim.state.fraction setup.cost setup.feeRate
  let sim := ({ sim with paper := paper }.hedgeEntry setup row h d).chargeSwaps setup oldSwaps
  pure { sim with state := sim.state.observeLp (!sim.paper.positions.isEmpty) }

omit [FloorRing F] in
/-- Observe the margin after the execution. -/
def guardEntry (setup : Setup F) (h : Candle F) (sim : Sim F) : Sim F :=
  if setup.account then
    let margin := sim.margin.observe sim.paper h.open_
    let short := sim.paper.short * h.open_ / (sim.paper.leverage : F)
    (({ sim with margin := margin }.rejectWhen (margin.unsafeAt h.open_ h.high)
      "isolated_margin_intrabar_buffer").rejectWhen (short > max sim.paper.hedgeEquity 0)
      "insufficient_hedge_equity").rejectWhen (sim.paper.cash < 0) "negative_quote_cash"
  else sim

/-- The hedge price at the low of a bar, with the basis of its opening. -/
def lowHedge (row : Row F) (h : Candle F) : F := row.bar.low * h.open_ / row.bar.open_

omit [FloorRing F] in
/-- Mark the account at the low of the bar and evaluate there. -/
def evaluateLow (setup : Setup F) (row : Row F) (h : Candle F) (sim : Sim F) :
    Sim F × Decision F :=
  let low := lowHedge row h
  let sim := { sim with
    paper := sim.paper.mark row.bar.low low
    strategy := { sim.strategy with reserve := setup.reserveAt row.bar.low } }
  let f := frame sim.strategy sim.paper (row.time + setup.stepMs / 3) row.bar.low low
  let lowEquity := f.portfolio.equity row.bar.low
  let peak := max sim.peak lowEquity
  let evaluated :=
    Regime.evaluateWithSignals setup.original.regime sim.strategy f row.signal sim.state
  ({ sim with
    peak := peak
    dd := max sim.dd ((peak - lowEquity) / peak)
    state := evaluated.1 }, evaluated.2)

/-- Leave the pool at the low of the bar. -/
def exitLow (setup : Setup F) (row : Row F) (h : Candle F) (risk : Decision F) (sim : Sim F) :
    Except String (Sim F) :=
  if risk.lp = .exitToQuote then do
    let sim := sim.countExits (fun reason => "intrabar:" ++ reason) risk.reasons
    let old := sim.paper.swapCosts
    let paper ← sim.paper.apply risk sim.strategy row.bar.low (lowHedge row h)
      (row.time + setup.stepMs / 3) 0 setup.cost setup.feeRate
    pure ({ sim with paper := paper }.chargeSwaps setup old)
  else pure sim

/-- The stress path over the low of the bar. -/
def stress (setup : Setup F) (row : Row F) (h : Candle F) (sim : Sim F) :
    Except String (Sim F) :=
  if setup.intrabarStress ∧ sim.paper.positions ≠ [] then do
    let evaluated := sim.evaluateLow setup row h
    let sim ← evaluated.1.exitLow setup row h evaluated.2
    pure { sim with paper := sim.paper.mark row.bar.open_ h.open_ }
  else pure sim

omit [FloorRing F] in
/-- Credit the fees and mark the account at the close. -/
def close (setup : Setup F) (row : Row F) (h : Candle F) (sim : Sim F) : Sim F :=
  let hours := setup.hours
  let fee := feeForBar sim.paper row.bar setup.apr hours
  let paper := { sim.paper with cash := sim.paper.cash + fee }.mark row.bar.close h.close
  let strategy := { sim.strategy with reserve := setup.reserveAt row.bar.close }
  let p := paper.portfolio strategy
  let equity := p.equity row.bar.close
  let peak := max sim.peak equity
  let fees := sim.fees + fee
  { sim with
    strategy := strategy
    paper := paper
    margin :=
      if setup.account then sim.margin.observe paper h.close else sim.margin
    peak := peak
    dd := max sim.dd ((peak - equity) / peak)
    fees := fees
    active := if sim.paper.positions = [] then sim.active else sim.active + hours
    eligible := if fee > 0 then sim.eligible + hours else sim.eligible
    points :=
      if setup.curve ∧ (row.time + setup.stepMs) % hourMs = 0 then
        sim.points ++ [{
          timeMs := row.time + setup.stepMs
          price := row.bar.close
          equity := equity
          lpValue := (p.positions.map fun x => x.base * row.bar.close + x.quote).sum
          fees := fees
          phase := sim.state.phase.format }]
      else sim.points
    last := (row.bar.close, h.close) }

/-- Follow the bar after the decision at its opening. -/
def follow (setup : Setup F) (row : Row F) (d : Decision F) (sim : Sim F) :
    Except String (Sim F) := do
  let h ← context row.hedge "missing paired HL hour"
  let sim ← sim.executeOpen setup row h d
  let sim ← (sim.guardEntry setup h).stress setup row h
  pure (sim.close setup row h)

end Sim

variable [FloorRing F]

/-- The loop over the bars: the decision at the opening, and what follows it. -/
def player (setup : Setup F) :
    Semantics.Player (Row F) (Sim F) (Sim F × Decision F) String where
  opening row sim := sim.decide_ setup row
  follow row opened := opened.1.follow setup row opened.2

/-- One played bar. -/
abbrev BarRun (F : Type) := Semantics.Played (Row F) (Sim F) (Sim F × Decision F) String

/-- What a replay reports. -/
structure Outcome (F : Type) where
  startMs : Nat
  endMs : Nat
  pnl : F
  lpFees : F
  priceAndHedgePnl : F
  hedgeCost : F
  swapCost : F
  operationCost : F
  funding : F
  maxDrawdownPct : F
  activeHours : F
  eligibleFeeHours : F
  operations : Nat
  phase : String
  exits : String → Nat
  equityCurve : List (Point F)
  nativeReservePnl : F
  nativeReserveCost : F
  modelRejections : Finset String

/-- The checks before a replay and its state before the first bar. -/
def begin_ (c : Config F) (data : Data F) (signals : List (Option (Regime.Signals F)))
    (start end_ : Nat) (apr costMultiplier : F) (curve : Bool) (account : Option F) :
    Except String (Setup F × Sim F) := do
  ensure (signals.length = data.pool.length) "signal/price length mismatch"
  ensure (F64.isFinite apr ∧ apr ≥ 0 ∧ F64.isFinite costMultiplier ∧ costMultiplier ≥ 1)
    "invalid research costs/APR"
  let first ← context
    (data.pool.find? fun b => start ≤ b.timestamp * 1000 ∧ b.timestamp * 1000 < end_)
    "empty research interval"
  let nativeSol := account.getD 0
  ensure (F64.isFinite nativeSol ∧ nativeSol ≥ 0) "invalid native reserve"
  let nativeValue := nativeSol * first.open_
  ensure (nativeValue ≤ c.strategy.reserve) "native rent reserve exceeds allocated capital"
  let fresh := Dlmm.Paper.new c.strategy
  let paper := { fresh with
    leverage := c.leverage
    cash := fresh.cash - nativeValue * 0.0034 * costMultiplier }
  pure ({
    original := c
    stepMs := data.stepMs
    intrabarStress := data.intrabarStress
    apr := apr
    costMultiplier := costMultiplier
    curve := curve
    account := account.isSome
    nativeSol := nativeSol
    nativeValue := nativeValue }, {
    strategy := c.strategy
    paper := paper
    margin := MarginGuard.default.observe paper first.open_
    rejections := ∅
    state := Strategy.default
    peak := c.strategy.totalCapital
    dd := 0
    fees := 0
    active := 0
    eligible := 0
    exits := fun _ => 0
    points := []
    last := (0, 0) })

/-- Liquidate what is left and report. -/
def finish (setup : Setup F) (start end_ : Nat) (sim : Sim F) : Except String (Outcome F) := do
  ensure (sim.last.1 > 0) "empty research interval"
  let oldSwaps := sim.paper.swapCosts
  let paper ← sim.paper.apply (forcedExit "EndOfTest") sim.strategy sim.last.1 sim.last.2 end_
    0 setup.cost setup.feeRate
  let sim := { sim with paper := paper }.chargeSwaps setup oldSwaps
  let sellCost := setup.nativeSol * sim.last.1 * 0.0034 * setup.costMultiplier
  let nativeCost := setup.nativeValue * 0.0034 * setup.costMultiplier + sellCost
  let paper := { sim.paper with cash := sim.paper.cash - sellCost }
  let capital := sim.strategy.totalCapital
  let pnl := (paper.portfolio sim.strategy).equity sim.last.1 - capital
  let nativePnl := setup.nativeSol * sim.last.1 - setup.nativeValue
  pure {
    startMs := start
    endMs := end_
    pnl := pnl
    lpFees := sim.fees
    priceAndHedgePnl := pnl - sim.fees - nativePnl + nativeCost
    hedgeCost := paper.hedgeFees
    swapCost := paper.swapCosts
    operationCost := paper.operationCosts
    funding := paper.fundingPnl
    maxDrawdownPct := max sim.dd ((sim.peak - capital - pnl) / sim.peak) * 100
    activeHours := sim.active
    eligibleFeeHours := sim.eligible
    operations := paper.operations
    phase := sim.state.phase.format
    exits := sim.exits
    equityCurve :=
      if setup.curve then
        sim.points ++ [⟨end_, sim.last.1, capital + pnl, 0, sim.fees, "ClosedForValuation"⟩]
      else sim.points
    nativeReservePnl := nativePnl
    nativeReserveCost := nativeCost
    modelRejections := sim.rejections }

/-- The bars of a replay. -/
def replay (c : Config F) (data : Data F) (signals : List (Option (Regime.Signals F)))
    (start end_ : Nat) (apr costMultiplier : F) (curve : Bool) (account : Option F) :
    List (BarRun F) :=
  match begin_ c data signals start end_ apr costMultiplier curve account with
  | .ok (setup, sim) => (player setup).playAll sim (data.rows signals start end_)
  | .error _ => []

/-- `simulate_inner`: without an account model this is `simulate`, else `simulate_account`. -/
def simulateInner (c : Config F) (data : Data F) (signals : List (Option (Regime.Signals F)))
    (start end_ : Nat) (apr costMultiplier : F) (curve : Bool) (account : Option F) :
    Except String (Outcome F) := do
  let begun ← begin_ c data signals start end_ apr costMultiplier curve account
  let sim ← (player begun.1).finish begun.2 (data.rows signals start end_)
  finish begun.1 start end_ sim

end LpMaker.Research
