import Mathlib
import LpMaker.Numeric.F64

/-!
# Market observations, portfolios and intents

The records exchanged between the strategy, the ledger and the venues. A frame
is one observation of the market together with the reconciled portfolio; a
decision is an intent which an executor may still refuse.
-/

namespace LpMaker

/-- One hourly bar. -/
structure Candle (F : Type) where
  openMs : Nat
  closeMs : Nat
  open_ : F
  high : F
  low : F
  close : F
deriving DecidableEq

/-- The observed pool, reduced to what decisions and sizing read. -/
structure PoolSnapshot (F : Type) where
  timeMs : Nat
  price : F
deriving DecidableEq

/-- One concentrated-liquidity position of a layer. -/
structure LpPosition (F : Type) where
  layer : String
  tokenId : Option String
  lower : F
  upper : F
  liquidity : F
  rawLiquidity : String
  unclaimedBase : F
  unclaimedQuote : F
  base : F
  quote : F
deriving DecidableEq

/-- The LP positions, the idle wallet and the hedge account. -/
structure Portfolio (F : Type) where
  positions : List (LpPosition F)
  walletBase : F
  walletQuote : F
  shortBase : F
  hedgeEquity : F
  reserve : F
deriving DecidableEq

variable {F : Type}

namespace Portfolio

variable [F64 F]

/-- Base inventory held in the wallet and inside the positions. -/
def base (portfolio : Portfolio F) : F :=
  portfolio.walletBase + (portfolio.positions.map LpPosition.base).sum

/-- Account value at price `p`. -/
def equity (portfolio : Portfolio F) (p : F) : F :=
  portfolio.base * p + portfolio.walletQuote
    + (portfolio.positions.map LpPosition.quote).sum
    + portfolio.hedgeEquity + portfolio.reserve

end Portfolio

/-- One observation handed to an evaluator. -/
structure MarketFrame (F : Type) where
  nowMs : Nat
  pool : PoolSnapshot F
  hedgePrice : F
  hedgeTimeMs : Nat
  candles : List (Candle F)
  portfolio : Portfolio F
deriving DecidableEq

namespace MarketFrame

/-- Whether the reconciled portfolio shows a liquidity position. -/
abbrev hasLp (frame : MarketFrame F) : Prop := frame.portfolio.positions ≠ []

end MarketFrame

/-- What a decision asks the liquidity executor to do. -/
inductive LpIntent (F : Type) where
  | hold
  | exitToQuote
  | deploy (fraction : F)
  | recenter (layers : List String)
deriving DecidableEq

namespace LpIntent

/-- The intents that open or enlarge positions. -/
def opens : LpIntent F → Bool
  | deploy _ | recenter _ => true
  | hold | exitToQuote => false

/-- `matches!(lp, LpIntent::Deploy { .. })`. -/
def isDeploy : LpIntent F → Bool
  | deploy _ => true
  | _ => false

@[simp] theorem opens_hold : (hold : LpIntent F).opens = false := rfl
@[simp] theorem opens_exitToQuote : (exitToQuote : LpIntent F).opens = false := rfl
@[simp] theorem opens_deploy (fraction : F) : (deploy fraction).opens = true := rfl
@[simp] theorem opens_recenter (layers : List String) :
    (recenter layers : LpIntent F).opens = true := rfl

theorem opens_iff {intent : LpIntent F} :
    intent.opens = true ↔
      (∃ fraction, intent = deploy fraction) ∨ ∃ layers, intent = recenter layers := by
  cases intent <;> simp [opens]

end LpIntent

/-- The outcome of one evaluation. -/
structure Decision (F : Type) where
  state : String
  reasons : List String
  lp : LpIntent F
  targetShortBase : F
  emergency : Bool
deriving DecidableEq

end LpMaker
