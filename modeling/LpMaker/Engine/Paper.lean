import LpMaker.Math
import LpMaker.Strategy.Band

/-!
# The paper ledger

The simulated execution of decisions: marking to market, the pending hedge order, swaps
with their costs, and the three ways an intent changes the positions (an exit, scaling
held positions, opening layers). LP fees are not simulated.
-/

namespace LpMaker

variable {F : Type} [F64 F]

/-- Cost of a swap as a fraction of its value: the pool fee and the allowed slippage. -/
def LiquidityConfig.swapRate (c : LiquidityConfig F) : F :=
  (c.fee : F) / 1000000 + (c.slippageBps : F) / 10000

/-- The short position which hedges an inventory. -/
def inventoryHedgeTarget (c : StrategyConfig F) (p : Portfolio F) (price : F) : F :=
  match c.band with
  | some band => band.target p price
  | none =>
      if c.ethPersistent.isSome then p.base * c.insideHedgeRatio
      else p.walletBase + (p.positions.map fun pos =>
        pos.base * if price ≤ pos.lower * (1 + c.hedgeReleaseBuffer) then 1
          else c.insideHedgeRatio).sum

/-- A resting simulated hedge order. -/
structure PaperOrder (F : Type) where
  target : F
  buy : Bool
  price : F
  submitted : Nat
  emergency : Bool
deriving DecidableEq

/-- The simulated account. -/
structure Paper (F : Type) where
  portfolio : Portfolio F
  lastHedgePrice : F
  pending : Option (PaperOrder F)
  hedgeFees : F
  swapCosts : F
  fundingPnl : F
  lastFundingMs : Nat
deriving DecidableEq

namespace Paper

/-- A flat account with the configured budgets. -/
def new (c : Config F) (now : Nat) : Paper F where
  portfolio := {
    positions := []
    walletBase := 0
    walletQuote := c.strategy.lpBudget
    shortBase := 0
    hedgeEquity := c.strategy.hedgeCollateral
    reserve := c.strategy.reserve }
  lastHedgePrice := 0
  pending := none
  hedgeFees := 0
  swapCosts := 0
  fundingPnl := 0
  lastFundingMs := now

/-- Fill a hedge order at its execution price. -/
def fill (target execution feeRate : F) (paper : Paper F) : Paper F :=
  let delta := target - paper.portfolio.shortBase
  let fee := |delta| * execution * feeRate
  { paper with
    portfolio := { paper.portfolio with
      hedgeEquity :=
        paper.portfolio.hedgeEquity + (delta * (execution - paper.lastHedgePrice) - fee)
      shortBase := target }
    hedgeFees := paper.hedgeFees + fee }

/-- Fill the pending order when the hedge price crosses it, or on expiry if it is urgent. -/
def settlePending (hedge : F) (now : Nat) (c : Config F) (paper : Paper F) : Paper F :=
  match paper.pending with
  | none => paper
  | some o =>
      let crossed : Bool :=
        now > o.submitted && if o.buy then hedge < o.price else hedge > o.price
      let expired : Bool := now - o.submitted ≥ c.hyperliquid.makerWaitSeconds * 1000
      if crossed then { paper.fill o.target o.price 0.00015 with pending := none }
      else if expired then
        let execution := hedge * (1 + (if o.buy then 1 else -1) *
          (c.hyperliquid.emergencySlippageBps : F) / 10000)
        { if o.emergency then paper.fill o.target execution 0.00045 else paper with
          pending := none }
      else paper

/-- A position marked at price `p`. -/
def markPosition (p : F) (pos : LpPosition F) : LpPosition F :=
  let held := Math.amounts pos.liquidity pos.lower pos.upper p
  { pos with base := held.1, quote := held.2 }

/-- The holdings of a position are those of its liquidity at price `p`. -/
def Marked (p : F) (pos : LpPosition F) : Prop :=
  (pos.base, pos.quote) = Math.amounts pos.liquidity pos.lower pos.upper p

/-- Mark the account to market. -/
def mark (p hedge : F) (now : Nat) (c : Config F) (paper : Paper F) : Paper F :=
  let portfolio := paper.portfolio
  let hedgeEquity :=
    if paper.lastHedgePrice > 0 then
      portfolio.hedgeEquity + portfolio.shortBase * (paper.lastHedgePrice - hedge)
    else portfolio.hedgeEquity
  settlePending hedge now c { paper with
    portfolio := { portfolio with
      positions := portfolio.positions.map (markPosition p)
      hedgeEquity := hedgeEquity }
    lastHedgePrice := hedge }

/-- Settle the funding rows newer than the last one, given as time and rate. -/
def applyFunding (rows : List (Nat × F)) (paper : Paper F) : Paper F :=
  rows.foldl (fun paper row =>
    if row.1 > paper.lastFundingMs then
      let pnl := paper.portfolio.shortBase * paper.lastHedgePrice * row.2
      { paper with
        portfolio := { paper.portfolio with hedgeEquity := paper.portfolio.hedgeEquity + pnl }
        fundingPnl := paper.fundingPnl + pnl
        lastFundingMs := row.1 }
    else paper) paper

/-- Value of the wallet at price `p`. -/
def walletValue (p : F) (paper : Paper F) : F :=
  paper.portfolio.walletBase * p + paper.portfolio.walletQuote

/-- Swap until the wallet holds `target` base, paying the swap cost in quote. -/
def swapToBase (target p : F) (c : Config F) (paper : Paper F) : Paper F :=
  let delta := target - paper.portfolio.walletBase
  let cost := |delta| * p * c.liquidity.swapRate
  { paper with
    portfolio := { paper.portfolio with
      walletQuote := paper.portfolio.walletQuote - (delta * p + cost)
      walletBase := target }
    swapCosts := paper.swapCosts + cost }

/-- Pay holdings out of the wallet. -/
def spend (holdings : F × F) (paper : Paper F) : Paper F :=
  { paper with portfolio := { paper.portfolio with
    walletBase := paper.portfolio.walletBase - holdings.1
    walletQuote := paper.portfolio.walletQuote - holdings.2 } }

/-- Close the positions of the named layers into the wallet. -/
def remove (layers : List String) (paper : Paper F) : Paper F :=
  let closed := paper.portfolio.positions.filter fun pos => pos.layer ∈ layers
  { paper with portfolio := { paper.portfolio with
    positions := paper.portfolio.positions.filter fun pos => pos.layer ∉ layers
    walletBase := paper.portfolio.walletBase + (closed.map LpPosition.base).sum
    walletQuote := paper.portfolio.walletQuote + (closed.map LpPosition.quote).sum } }

/-- Leave every position and the hedge. -/
def exitToQuote (c : Config F) (p hedge : F) (paper : Paper F) : Paper F :=
  let paper := { paper with pending := none }
  let paper := paper.remove (paper.portfolio.positions.map LpPosition.layer)
  let paper := paper.swapToBase 0 p c
  if paper.portfolio.shortBase > 0 then
    paper.fill 0 (hedge * (1 + (c.hyperliquid.emergencySlippageBps : F) / 10000)) 0.00045
  else paper

/-- The value by which a held position is scaled towards its share of the budget. -/
def scaleValue (c : StrategyConfig F) (fraction p : F) (layer : LayerConfig F)
    (pos : LpPosition F) (paper : Paper F) : F :=
  let desired := c.lpBudget * fraction * layer.weight - (pos.base * p + pos.quote)
  min desired (paper.walletValue p) * 0.995

/-- Add liquidity worth `value` to a position in range. -/
def increase (c : Config F) (p value : F) (pos : LpPosition F) (paper : Paper F) :
    Except String (LpPosition F × Paper F) := do
  ensure (p > pos.lower ∧ p < pos.upper) "cannot scale an out-of-range paper position"
  let added ← Math.liquidityForValue value pos.lower pos.upper p
  let spent := Math.amounts added pos.lower pos.upper p
  let paper := paper.swapToBase spent.1 p c
  ensure (paper.portfolio.walletQuote ≥ spent.2) "insufficient paper scaling quote"
  .ok (markPosition p { pos with liquidity := pos.liquidity + added }, paper.spend spent)

/-- Scale one held position. Small differences are left alone. -/
def scalePosition (c : Config F) (fraction p : F) (pos : LpPosition F) (paper : Paper F) :
    Except String (LpPosition F × Paper F) :=
  match c.strategy.layers.find? fun l => l.name = pos.layer with
  | none => .error "unknown paper layer"
  | some layer =>
      let value := scaleValue c.strategy fraction p layer pos paper
      if value < 10 then .ok (pos, paper) else increase c p value pos paper

/-- Scale the held positions in order. -/
def scalePositions (c : Config F) (fraction p : F) :
    List (LpPosition F) → Paper F → Except String (List (LpPosition F) × Paper F)
  | [], paper => .ok ([], paper)
  | pos :: rest, paper => do
      let scaled ← scalePosition c fraction p pos paper
      let others ← scalePositions c fraction p rest scaled.2
      .ok (scaled.1 :: others.1, others.2)

/-- The range of a new position: the widths of the band profile, or the layer's own. -/
def rangeOf (widths : Option (F × F)) (p : F) (layer : LayerConfig F) : F × F :=
  match widths with
  | some w => (p * (1 - w.1), p * (1 + w.2))
  | none => Math.range p layer.halfWidth

/-- Open a position of `layer` worth `value`. -/
def openLayer (c : Config F) (widths : Option (F × F)) (p value : F) (layer : LayerConfig F)
    (paper : Paper F) : Except String (Paper F) := do
  let bounds := rangeOf widths p layer
  let liquidity ← Math.liquidityForValue value bounds.1 bounds.2 p
  let held := Math.amounts liquidity bounds.1 bounds.2 p
  let paper := paper.swapToBase held.1 p c
  ensure (paper.portfolio.walletQuote + 1e-6 ≥ held.2) "paper insufficient quote"
  let paper := paper.spend held
  .ok { paper with portfolio := { paper.portfolio with
    positions := paper.portfolio.positions ++ [{
      layer := layer.name
      tokenId := none
      lower := bounds.1
      upper := bounds.2
      liquidity := liquidity
      rawLiquidity := "paper"
      unclaimedBase := 0
      unclaimedQuote := 0
      base := held.1
      quote := held.2 }] } }

/-- Open positions for the layers, splitting `budget` by their weights. -/
def openLayers (c : Config F) (widths : Option (F × F)) (p budget weightSum : F) :
    List (LayerConfig F) → Paper F → Except String (Paper F)
  | [], paper => .ok paper
  | layer :: rest, paper => do
      let paper ← openLayer c widths p (budget * layer.weight / weightSum) layer paper
      openLayers c widths p budget weightSum rest paper

/-- The configured layers among the named ones. -/
def namedLayers (c : StrategyConfig F) (names : List String) : List (LayerConfig F) :=
  c.layers.filter fun l => l.name ∈ names

def weightSum (layers : List (LayerConfig F)) : F := (layers.map LayerConfig.weight).sum

/-- Close the named layers and open them again within `limit` and the wallet. -/
def reopen (c : Config F) (widths : Option (F × F)) (p : F) (names : List String)
    (limit : F → F) (paper : Paper F) : Except String (Paper F) :=
  let paper := paper.remove names
  let available := paper.walletValue p
  let layers := namedLayers c.strategy names
  let budget := min (limit available) available * 0.995
  openLayers c widths p budget (weightSum layers) layers paper

/-- What an intent does to the positions. -/
def trade (lp : LpIntent F) (c : Config F) (p hedge : F) (widths : Option (F × F))
    (paper : Paper F) : Except String (Paper F) :=
  match lp with
  | .hold => .ok paper
  | .exitToQuote => .ok (paper.exitToQuote c p hedge)
  | .deploy fraction =>
      if paper.portfolio.positions ≠ [] then do
        let scaled ← scalePositions c fraction p paper.portfolio.positions paper
        .ok { scaled.2 with portfolio := { scaled.2.portfolio with positions := scaled.1 } }
      else
        reopen c widths p (c.strategy.layers.map LayerConfig.name)
          (fun _ => c.strategy.lpBudget * fraction) paper
  | .recenter layers =>
      reopen c widths p layers
        (fun available => if widths.isSome then c.strategy.lpBudget else available) paper

/-- Place or replace the pending hedge order. -/
def orderHedge (d : Decision F) (c : Config F) (p hedge : F) (now : Nat)
    (widths : Option (F × F)) (paper : Paper F) : Paper F :=
  let target :=
    if d.lp.opens then inventoryHedgeTarget c.strategy paper.portfolio p else d.targetShortBase
  let paper :=
    if paper.pending.any fun o => |o.target - target| * hedge ≥ c.strategy.hedgeDeadbandUsd then
      { paper with pending := none }
    else paper
  let diff := target - paper.portfolio.shortBase
  let entryBand : Bool := widths.isSome && d.lp.opens
  let minimum := if entryBand then 10 else c.strategy.hedgeDeadbandUsd
  if |diff| * hedge ≥ minimum ∧ paper.pending.isNone then
    let buy : Bool := diff < 0
    { paper with pending := some {
      target := target
      buy := buy
      price := hedge * if buy then 0.9999 else 1.0001
      submitted := now
      emergency := d.emergency || entryBand ||
        paper.portfolio.positions.any fun pos => p < pos.lower } }
  else paper

/-- Execute a decision. An exit closes the hedge at once and places no order. -/
def applyWithWidths (d : Decision F) (c : Config F) (p hedge : F) (now : Nat)
    (widths : Option (F × F)) (paper : Paper F) : Except String (Paper F) := do
  ensure (¬(c.strategy.band.isSome ∧ d.lp.opens) ∨ widths.isSome)
    "band paper entry requires observed hourly feature"
  let paper ← paper.trade d.lp c p hedge widths
  .ok (if d.lp = .exitToQuote then paper else paper.orderHedge d c p hedge now widths)

/-- Execute a decision of a profile without widths. -/
def apply (d : Decision F) (c : Config F) (p hedge : F) (now : Nat) (paper : Paper F) :
    Except String (Paper F) :=
  paper.applyWithWidths d c p hedge now none

end Paper

end LpMaker
