import LpMaker.Config
import LpMaker.Hyperliquid.Market

/-!
# The hedge

Bring the short position to its target: a passive order first, and in an emergency an immediate
order for what remains. Every decision is made on a position read while no order works.
-/

namespace LpMaker

namespace Runtime

/-- The largest value of a counter. -/
def saturate (n : Nat) : Nat := min n (2 ^ 64 - 1)

def fresh (sourceMs nowMs maxAgeSeconds : Nat) : Except Hyperliquid.Failure Unit :=
  ensure (¬(sourceMs = 0 ∨ sourceMs > saturate (nowMs + 5000) ∨
      nowMs - sourceMs > saturate (maxAgeSeconds * 1000)))
    (.readUnavailable "observation expired or timestamp invalid; refresh before acting")

end Runtime

namespace Hyperliquid

open Semantics

variable {F : Type} [F64 F]

abbrev HedgeProgram (F : Type) := Program (HedgeOp F) HedgeOp.Reply Failure

namespace Market

abbrev call (op : HedgeOp F) : HedgeProgram F op.Reply := Program.call op

abbrev readAccount : HedgeProgram F (Account F) := call .account
abbrev readPosition : HedgeProgram F F := call .perpAccount
abbrev readBook : HedgeProgram F (Book F) := call .book
abbrev readAsset : HedgeProgram F (Nat × Asset) := call .asset
abbrev freshCloid : HedgeProgram F String := call .freshCloid
abbrev clock : HedgeProgram F Nat := call .clock

/-- A program on the stored files and on the order queries. -/
abbrev onDesk {α : Type} (program : DeskProgram α) : HedgeProgram F α :=
  program.embed .desk fun _ reply => reply

abbrev lift {α : Type} (result : Except Failure α) : HedgeProgram F α := Program.ofExcept result

end Market

open Market

/-- The size up to which a target is as good as none. -/
def effectiveTarget (target : F) (book : Book F) : F :=
  if target * book.mid < 0.01 then 0 else target

/-- The row of a residual, unless it is worthless. -/
def residualRow (target actual price : F) (reason : String) : Option (Residual F) :=
  if |target - actual| * price < 0.01 then none
  else some ⟨target, actual, target - actual, |target - actual| * price, reason⟩

namespace Controller

def hedgeResidual (target actual price : F) (reason : String) : HedgeProgram F Unit := do
  call (.writeResidual (residualRow target actual price reason))
  match residualRow target actual price reason with
  | none => pure ()
  | some _ => onDesk (Desk.call .record)

variable (text : Decimal.Text) (conversion : F → Option Decimal)

def managedOrder (buy : Bool) (price size tif cloid : String) : HedgeProgram F Unit := do
  let (id, asset) ← readAsset
  let wire ← lift ((Orders.wire text id asset buy price size tif buy (some cloid)).mapError .other)
  call (.order wire)

variable [FloorRing F] (hl : HyperliquidConfig) (s : StrategyConfig F) (user : String)

/-- The slippage which an immediate order accepts. -/
def slippage : F := (hl.emergencySlippageBps : F) / 10000

/-- After the immediate order, which must leave little. -/
def checkSweep (target mid : F) : HedgeProgram F Unit := do
  let position ← readPosition
  let actual := -position
  lift (ensure (|target - actual| * mid < min s.hedgeDeadbandUsd 10)
    (.other "emergency IOC only partially filled; inventory reconciliation required"))
  onDesk (Desk.call (.writeHedgeOrder .null))
  hedgeResidual target actual mid "confirmed_execution_residual"

/-- The immediate order of an emergency, for what the passive one left. -/
def sweep (target current mid : F) (asset : Asset) : HedgeProgram F Unit := do
  let remaining := target - current
  let book ← readBook
  let now ← clock
  lift (Runtime.fresh book.time now s.maxDataAgeSeconds)
  let buy : Bool := remaining < 0
  let slip : F := slippage hl
  let px ← lift ((Orders.price conversion text
    (if buy then book.ask * (1 + slip) else book.bid * (1 - slip)) asset.szDecimals buy).mapError
      .other)
  let sz ← lift ((Orders.quantity conversion text |remaining| asset.szDecimals).mapError .other)
  let worthwhile ← lift ((Orders.tradeable text px sz buy).mapError .other)
  if worthwhile = false then
    hedgeResidual target current book.mid "partial_fill_dust_deferred"
  else if sz ≠ "0" then
    let id ← freshCloid
    managedOrder text buy px sz "Ioc" id
    checkSweep s target mid
  else checkSweep s target mid

/-- After the passive order is over. -/
def settle (target mid : F) (emergency : Bool) (asset : Asset) : HedgeProgram F Unit := do
  onDesk (Desk.call (.writeHedgeOrder .null))
  -- the position is read after the cancel, which may race a fill
  let position ← readPosition
  let current := -position
  if emergency = true ∧ |target - current| * mid ≥ 0.01 then
    sweep text conversion hl s target current mid asset
  else
    onDesk (Desk.call (.writeHedgeOrder .null))
    hedgeResidual target current mid "confirmed_execution_residual"

/-- The passive order, until it is rejected, cancelled or filled. -/
def passive (buy : Bool) (px size cloid : String) : HedgeProgram F Unit := do
  match ← (managedOrder text buy px size "Alo" cloid).attempt with
  | .ok _ => onDesk (cancelIfOpen user cloid)
  | .error failure =>
    let pending ← onDesk Desk.readPending
    if pending.isNull = false ∨ failure.isExchangeRejected = false then Program.throw failure
    else onDesk (Desk.call .record)

/-- The collateral which an increase of the short needs. -/
def checkBudget (account : Account F) (target delta mid : F) : Except Failure Unit := do
  ensure (¬(target * mid / hl.leverage > s.hedgeCollateral * 0.9))
    (.other "hedge margin budget exceeded")
  ensure (¬(delta * mid / hl.leverage > account.availableShortUsdc))
    (.other "insufficient free hedge collateral")

/-- Trade the difference, unless it is too small. -/
def trade (target current : F) (account : Account F) (book : Book F) (emergency : Bool) :
    HedgeProgram F Unit := do
  let mid := book.mid
  let delta := target - current
  let now ← clock
  lift (Runtime.fresh book.time now s.maxDataAgeSeconds)
  if |delta| * mid < if target = 0 ∨ emergency = true then 0.01 else s.hedgeDeadbandUsd then
    hedgeResidual target current mid "within_hedge_deadband"
  else
    lift (if delta > 0 then checkBudget hl s account target delta mid else .ok ())
    let (_, asset) ← readAsset
    let size ← lift ((Orders.quantity conversion text |delta| asset.szDecimals).mapError .other)
    let buy : Bool := delta < 0
    let cloid ← freshCloid
    let px ← lift ((Orders.price conversion text (if buy then book.bid else book.ask)
      asset.szDecimals (!buy)).mapError .other)
    let worthwhile ← lift ((Orders.tradeable text px size buy).mapError .other)
    if worthwhile = false then
      hedgeResidual target current mid "below_opening_minimum_or_lot_precision"
    else
      passive text user buy px size cloid
      settle text conversion hl s target mid emergency asset

def hedge (target : F) (emergency : Bool) : HedgeProgram F Unit := do
  lift (ensure (F64.isFinite target = true ∧ target ≥ 0) (.other "invalid hedge target"))
  let account ← readAccount
  lift (ensure (account.position ≤ 0) (.other "unexpected long position"))
  let book ← readBook
  trade text conversion hl s user (effectiveTarget target book) (-account.position) account book
    emergency

end Controller

end Hyperliquid

end LpMaker
