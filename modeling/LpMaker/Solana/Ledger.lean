import Mathlib
import LpMaker.Engine.EntryGuard
import LpMaker.Engine.Paper

/-!
# The DLMM research ledger

The simulated account of the Solana pool: discrete bins which convert as the price crosses
them, a hedge which trades in whole hundredths, and the execution of a decision with its
swap and operation costs.
-/

namespace LpMaker.Dlmm

variable {F : Type} [F64 F]

/-- `as i32`, which saturates. -/
def toI32 (x : ℤ) : ℤ := max (-2147483648) (min x 2147483647)

structure Bin (F : Type) where
  id : ℤ
  base : F
  quote : F

namespace Bin

/-- A bin holds base below its price and quote above it. -/
def mark (price : F) (b : Bin F) : Bin F :=
  let p : F := binPrice b.id
  if price > p then { b with quote := b.quote + b.base * p, base := 0 }
  else if price < p then { b with base := b.base + b.quote / p, quote := 0 }
  else b

end Bin

structure PaperPosition (F : Type) where
  layer : String
  sinceMs : Nat
  bins : List (Bin F)

/-- The simulated account. -/
structure Paper (F : Type) where
  leverage : Nat
  positions : List (PaperPosition F)
  cash : F
  hedgeEquity : F
  short : F
  lastHedge : F
  fundingPnl : F
  hedgeFees : F
  swapCosts : F
  operationCosts : F
  operations : Nat
  lastFundingMs : Nat

namespace PaperPosition

def mark (price : F) (position : PaperPosition F) : PaperPosition F :=
  { position with bins := position.bins.map (Bin.mark price) }

/-- A position with its bins summed up. The source takes the first and the last bin, which
every position has. -/
def position (position : PaperPosition F) : LpPosition F where
  layer := position.layer
  tokenId := none
  lower := binPrice ((position.bins.head?.map Bin.id).getD 0)
  upper := binPrice ((position.bins.getLast?.map Bin.id).getD 0)
  liquidity := 0
  rawLiquidity := ""
  unclaimedBase := 0
  unclaimedQuote := 0
  base := (position.bins.map Bin.base).sum
  quote := (position.bins.map Bin.quote).sum

end PaperPosition

namespace Paper

def new (s : StrategyConfig F) : Paper F where
  leverage := 3
  positions := []
  cash := s.lpBudget
  hedgeEquity := s.hedgeCollateral
  short := 0
  lastHedge := 0
  fundingPnl := 0
  hedgeFees := 0
  swapCosts := 0
  operationCosts := 0
  operations := 0
  lastFundingMs := 0

/-- Mark the account to market. -/
def mark (price hedge : F) (paper : Paper F) : Paper F :=
  { paper with
    hedgeEquity :=
      if paper.lastHedge > 0 then
        paper.hedgeEquity + paper.short * (paper.lastHedge - hedge)
      else paper.hedgeEquity
    lastHedge := hedge
    positions := paper.positions.map (PaperPosition.mark price) }

def portfolio (s : StrategyConfig F) (paper : Paper F) : Portfolio F where
  positions := paper.positions.map PaperPosition.position
  walletBase := 0
  walletQuote := paper.cash
  shortBase := paper.short
  hedgeEquity := paper.hedgeEquity
  reserve := s.reserve

/-- Settle a funding rate once. -/
def funding (rate price : F) (time : Nat) (paper : Paper F) : Paper F :=
  if time > paper.lastFundingMs then
    let v := paper.short * price * rate
    { paper with
      hedgeEquity := paper.hedgeEquity + v
      fundingPnl := paper.fundingPnl + v
      lastFundingMs := time }
  else paper

/-- Take the holdings of one position into cash. -/
def withdraw (price : F) (paper : Paper F) (position : PaperPosition F) : Paper F :=
  let p := position.position
  let swap := p.base * price * 0.0034
  { paper with
    swapCosts := paper.swapCosts + swap
    cash := paper.cash + (p.base * price + p.quote - swap) }

/-- Close the positions of the named layers and pay for the operation. -/
def close (names : List String) (price cost : F) (paper : Paper F) : Paper F :=
  let closed := paper.positions.filter fun p => p.layer ∈ names
  let paper := closed.foldl (withdraw price) paper
  { paper with
    positions := paper.positions.filter fun p => p.layer ∉ names
    cash := paper.cash - cost
    operationCosts := paper.operationCosts + cost
    operations := paper.operations + 1 }

end Paper

/-- The layers an intent touches. -/
def touched (s : StrategyConfig F) : LpIntent F → List String
  | .recenter layers => layers
  | _ => s.layers.map LayerConfig.name

/-- The deployed fraction of the budget. -/
def deployed (fraction : F) : LpIntent F → F
  | .deploy fraction => fraction
  | _ => fraction

variable [FloorRing F]

/-- The bin of a price. -/
def priceBin (price : F) : ℤ := toI32 ⌊F64.ln (price / 1000) / F64.ln (1.0004 : F)⌋

/-- The bins of a range around a price. -/
def bounds (price width : F) : ℤ × ℤ :=
  let active := priceBin price
  let n := toI32 ⌈F64.ln (1 + width) / F64.ln (1.0004 : F)⌉
  (active - n, active + n)

/-- A new position holds the same value in every bin, and quote in the active one. -/
def PaperPosition.new (layer : String) (value width price : F) (now : Nat) :
    PaperPosition F :=
  let range := bounds price width
  let count := range.2 - range.1 + 1
  let perBin := value / (count : F)
  { layer := layer
    sinceMs := now
    bins := (List.range count.toNat).map fun i =>
      let id := range.1 + i
      if binPrice id > price then ⟨id, perBin / price, 0⟩ else ⟨id, 0, perBin⟩ }

namespace Paper

/-- Trade the hedge, unless the difference is small or the collateral does not carry it. -/
def hedge (target price : F) (emergency : Bool) (s : StrategyConfig F) (feeRate : F)
    (paper : Paper F) : Paper F :=
  let delta := target - paper.short
  let value := |delta| * price
  if value < if emergency ∨ target = 0 then 0.01 else s.hedgeDeadbandUsd then paper
  else if delta > 0 ∧
      (value < 10 ∨ target * price / (paper.leverage : F) > s.hedgeCollateral * 0.9) then
    paper
  else
    let rounded : F := (⌊target * 100⌋ : F) / 100
    let fee := |rounded - paper.short| * price * feeRate
    { paper with
      hedgeEquity := paper.hedgeEquity - fee
      hedgeFees := paper.hedgeFees + fee
      short := rounded }

/-- Open one layer with its share of the budget, as far as the cash goes. -/
def open_ (s : StrategyConfig F) (deploy price : F) (now : Nat) (paper : Paper F)
    (layer : LayerConfig F) : Paper F :=
  let value := min (s.lpBudget * deploy * layer.weight) (max paper.cash 0) * 0.995
  if value < 1 then paper
  else
    let swap := value * 0.5 * 0.0034
    { paper with
      cash := paper.cash - value
      swapCosts := paper.swapCosts + swap
      positions := paper.positions ++
        [.new layer.name (value - swap) layer.halfWidth price now] }

/-- Close and reopen the layers of an intent which is not to hold. -/
def rebuild (lp : LpIntent F) (s : StrategyConfig F) (price hedge : F) (now : Nat)
    (fraction cost feeRate : F) (paper : Paper F) : Paper F :=
  let names := touched s lp
  let paper := paper.close names price cost
  if lp = .exitToQuote then paper.hedge 0 hedge true s feeRate
  else
    let layers := s.layers.filter fun l => l.name ∈ names
    let paper := layers.foldl (open_ s (deployed fraction lp) price now) paper
    paper.hedge (inventoryHedgeTarget s (paper.portfolio s) price) hedge true s feeRate

/-- Execute a decision. -/
def apply (d : Decision F) (s : StrategyConfig F) (price hedge : F) (now : Nat)
    (fraction cost feeRate : F) (paper : Paper F) : Except String (Paper F) := do
  ensure (F64.isFinite price ∧ price > 0 ∧ F64.isFinite hedge ∧ hedge > 0)
    "invalid simulation price"
  if d.lp = .hold then
    pure (paper.hedge d.targetShortBase hedge d.emergency s feeRate)
  else
    let paper := paper.hedge (paper.portfolio s).base hedge true s feeRate
    if d.lp = .exitToQuote ∧ paper.positions = [] then
      pure (paper.hedge 0 hedge true s feeRate)
    else pure (paper.rebuild d.lp s price hedge now fraction cost feeRate)

end Paper

end LpMaker.Dlmm
