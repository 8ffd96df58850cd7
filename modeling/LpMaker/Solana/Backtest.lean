import LpMaker.Semantics.Replay
import LpMaker.Solana.Ledger
import LpMaker.Strategy.Legacy

/-!
# The month replay

The replay of the legacy strategy over paired prices: settle the funding since the previous
row, decide at the opening prices, execute, and weigh the fees of the row under three assumed
capitals. What one row reads of the dataset is collected in an `Entry`.
-/

namespace LpMaker.Backtest

variable {F : Type} [F64 F]

structure Row (F : Type) where
  time : Nat
  pool : F
  hedge : F
  fees : F
  feeComplete : Bool
  closePool : F
  closeHedge : F

structure Data (F : Type) where
  rows : List (Row F)
  hourly : List (Candle F)
  funding : List (Nat × F)
  step : Nat

/-- What one iteration reads of the dataset. -/
structure Entry (F : Type) where
  row : Row F
  closed : List (Candle F)
  funding : List (Nat × F)

namespace Data

/-- The candles closed before a row and the funding up to it. -/
def entry (data : Data F) (row : Row F) : Entry F where
  row := row
  closed := data.hourly.filter fun b => b.closeMs < row.time
  funding := data.funding.filter fun f => f.1 ≤ row.time

def entries (data : Data F) (start end_ : Nat) : List (Entry F) :=
  (data.rows.filter fun r => start ≤ r.time ∧ r.time < end_).map data.entry

end Data

/-- Hourly rows cannot see the bars within an hour. -/
def sampled (step : Nat) (s : StrategyConfig F) : StrategyConfig F :=
  if step = 3600000 then
    { s with
      breakoutConfirmBars := (s.decisionBarSeconds * s.breakoutConfirmBars + 3599) / 3600
      decisionBarSeconds := 3600 }
  else s

structure Setup (F : Type) where
  strategy : StrategyConfig F
  step : Nat
  feeRate : F

structure Sim (F : Type) where
  paper : Dlmm.Paper F
  state : Strategy F
  peak : F
  dd : F
  active : F
  total : Nat
  missing : Nat
  scenario : List F
  previous : Nat
  lastTime : Nat
  finalPrice : F
  finalHedge : F

/-- The assumed capitals in the active bin. -/
def capitals : List F := [5000, 25000, 100000]

namespace Sim

/-- Mark the drawdown of the account at a price. -/
def track (equity : F) (sim : Sim F) : Sim F :=
  let peak := max sim.peak equity
  { sim with peak := peak, dd := max sim.dd ((peak - equity) / peak) }

/-- The decision at the opening of a row, on the hedge held before it. -/
def decide_ (setup : Setup F) (entry : Entry F) (sim : Sim F) : Sim F × Decision F :=
  let r := entry.row
  let due := entry.funding.filter fun f => f.1 > sim.previous
  let settled := due.foldl (fun paper f => paper.funding f.2 r.hedge f.1) sim.paper
  let paper := settled.mark r.pool r.hedge
  let p := paper.portfolio setup.strategy
  let sim := { sim with paper := paper, previous := r.time }.track (p.equity r.pool)
  let f : MarketFrame F := {
    nowMs := r.time
    pool := ⟨r.time, r.pool⟩
    hedgePrice := r.hedge
    hedgeTimeMs := r.time
    candles := entry.closed
    portfolio := p }
  let evaluated := sim.state.evaluate setup.strategy f
  ({ sim with state := evaluated.1 }, evaluated.2)

/-- The value of the positions in range, for one bin each. -/
def own (price : F) (sim : Sim F) : F :=
  ((sim.paper.positions.filter fun p =>
    price ≥ p.position.lower ∧ price ≤ p.position.upper).map fun p =>
      (p.position.base * price + p.position.quote) / (p.bins.length : F)).sum

/-- Weigh the fees of a row under the assumed capitals. -/
def weighFees (r : Row F) (sim : Sim F) : Sim F :=
  if r.feeComplete then
    { sim with scenario := (capitals.zip sim.scenario).map fun scenario =>
        scenario.2 + r.fees * sim.own r.pool / (scenario.1 + sim.own r.pool) }
  else { sim with missing := sim.missing + 1 }

variable [FloorRing F]

/-- Execute a decision, unless the observation was unusable. -/
def execute (setup : Setup F) (r : Row F) (d : Decision F) (sim : Sim F) :
    Except String (Sim F) :=
  if d.reasons.any (fun reason => reason.startsWith "stale_or_invalid") then pure sim
  else do
    let paper ← sim.paper.apply d setup.strategy r.pool r.hedge r.time sim.state.fraction 0.10
      setup.feeRate
    pure { sim with paper := paper }

/-- What follows the decision of a row. -/
def follow (setup : Setup F) (r : Row F) (d : Decision F) (sim : Sim F) :
    Except String (Sim F) := do
  let sim ← sim.execute setup r d
  let sim := { sim with state := sim.state.observeLp (!sim.paper.positions.isEmpty) }
  let sim := sim.track ((sim.paper.portfolio setup.strategy).equity r.pool)
  let sim := { sim with
    active :=
      if sim.paper.positions = [] then sim.active
      else sim.active + (setup.step : F) / 3600000 }
  let sim := sim.weighFees r
  pure { sim with
    total := sim.total + 1
    lastTime := r.time
    finalPrice := r.closePool
    finalHedge := r.closeHedge }

end Sim

variable [FloorRing F]

def player (setup : Setup F) :
    Semantics.Player (Entry F) (Sim F) (Sim F × Decision F) String where
  opening entry sim := .ok (sim.decide_ setup entry)
  follow entry opened := opened.1.follow setup entry.row opened.2

abbrev EntryRun (F : Type) := Semantics.Played (Entry F) (Sim F) (Sim F × Decision F) String

/-- What a replay reports. -/
structure Outcome (F : Type) where
  startMs : Nat
  endMs : Nat
  observations : Nat
  pnlExcludingLpFees : F
  returnExcludingLpFeesPct : F
  maxDrawdownPct : F
  lpActiveHours : F
  lpOperations : Nat
  hedgeFees : F
  swapCosts : F
  operationCosts : F
  fundingPnl : F
  feeDataMissingBars : Nat
  feeSensitivity : List (F × F × F)
  breakEvenFeeUsd : F
  phase : String

/-- The state before the first row. -/
def begin_ (s : StrategyConfig F) (leverage : Nat) (data : Data F) (start end_ : Nat)
    (feeRate : F) : Except String (Setup F × Sim F) := do
  let s := sampled data.step s
  let first ← context (data.rows.find? fun r => start ≤ r.time ∧ r.time < end_)
    "empty backtest period"
  pure (⟨s, data.step, feeRate⟩, {
    paper := { Dlmm.Paper.new s with leverage := leverage }
    state := Strategy.default
    peak := s.totalCapital
    dd := 0
    active := 0
    total := 0
    missing := 0
    scenario := [0, 0, 0]
    previous := start
    lastTime := start
    finalPrice := first.pool
    finalHedge := first.hedge })

/-- Mark the open positions at the last close and report. -/
def finish (setup : Setup F) (start : Nat) (sim : Sim F) : Outcome F :=
  let paper := sim.paper.mark sim.finalPrice sim.finalHedge
  let finalEquity := (paper.portfolio setup.strategy).equity sim.finalPrice
  let sim := sim.track finalEquity
  let pnl := finalEquity - setup.strategy.totalCapital
  { startMs := start
    endMs := sim.lastTime + setup.step
    observations := sim.total
    pnlExcludingLpFees := pnl
    returnExcludingLpFeesPct := pnl / setup.strategy.totalCapital * 100
    maxDrawdownPct := sim.dd * 100
    lpActiveHours := sim.active
    lpOperations := paper.operations
    hedgeFees := paper.hedgeFees
    swapCosts := paper.swapCosts
    operationCosts := paper.operationCosts
    fundingPnl := paper.fundingPnl
    feeDataMissingBars := sim.missing
    feeSensitivity := (capitals.zip sim.scenario).map fun scenario =>
      (scenario.1, scenario.2, pnl + scenario.2)
    breakEvenFeeUsd := max (-pnl) 0
    phase := sim.state.phase.format }

/-- The rows of a replay. -/
def replay (s : StrategyConfig F) (leverage : Nat) (data : Data F) (start end_ : Nat)
    (feeRate : F) : List (EntryRun F) :=
  match begin_ s leverage data start end_ feeRate with
  | .ok (setup, sim) => (player setup).playAll sim (data.entries start end_)
  | .error _ => []

/-- The month replay of the source. -/
def simulate (s : StrategyConfig F) (leverage : Nat) (data : Data F) (start end_ : Nat)
    (feeRate : F) : Except String (Outcome F) := do
  let begun ← begin_ s leverage data start end_ feeRate
  let sim ← (player begun.1).finish begun.2 (data.entries start end_)
  pure (finish begun.1 start sim)

end LpMaker.Backtest
