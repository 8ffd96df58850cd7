import LpMaker.Engine.EntryGuard
import LpMaker.Math

/-!
# The workflow of the live executor

A decision which changes the liquidity is executed step by step: positions are removed, the
inventory is swapped, hedged and minted again. The decision is on disk from the first step to the
last. A process which finds one at its start sells everything, and never continues it.
-/

namespace LpMaker.Live

open Semantics

variable {F : Type}

/-- Why an operation fails. -/
inductive Failure where
  /-- `ExchangeRejected` -/
  | rejected
  /-- `HedgeBudgetUnavailable` -/
  | budget
  /-- `BandEntryRisk` -/
  | bandRisk
  | other (message : String)
deriving DecidableEq

/-- A failed check of the program itself. -/
def Failure.ofMessage (message : String) : Failure :=
  if message = "band entry risk changed during workflow" then .bandRisk else .other message

/-- One change of the liquidity or of the inventory, on chain. -/
inductive Mutation (F : Type) where
  | removePosition (p : LpPosition F)
  | swapInventory (sellBase : Bool) (amount : F)
  | mintLayer (layer : String) (value width : F)
  | mintBoundedLayer (layer : String) (value : F) (widths : F × F)
  | increasePosition (p : LpPosition F) (value : F)

/-- What one entry guard reads. -/
structure Observation (F : Type) where
  started : Nat
  checkpoint : Option (Strategy F)
  frame : MarketFrame F

/-- What happened, for the statements about a run. No program reads it. -/
inductive Event (F : Type) where
  | began (d : Decision F)
  | cleared
  | restarted
  /-- An entry guard accepted. -/
  | guarded (o : Observation F)
  /-- The inventory which `Live::portfolio` found. -/
  | inventory (p : Portfolio F)
  /-- The hedge controller has finished. -/
  | hedged (target : F) (emergency : Bool)
  /-- A transaction which was attempted. -/
  | mutated (m : Mutation F)

/-- `workflow.json`, and what happened, the last first. -/
structure World (F : Type) where
  workflow : Option (Decision F)
  log : List (Event F)

def World.note (event : Event F) (w : World F) : World F := { w with log := event :: w.log }

inductive Op (F : Type) where
  | start
  | reconcile
  | pending
  | readWorkflow
  | writeWorkflow (value : Option (Decision F))
  | record
  | snapshot
  | portfolio
  | walletBalances
  | collateral
  | syncOrders (recoverManaged : Bool)
  | hedge (target : F) (emergency : Bool)
  | entryGuard
  | mintBaseRequirement (value width : F)
  | boundedBaseRequirement (value : F) (widths : F × F)
  | execute (m : Mutation F)

@[reducible] def Op.Reply : Op F → Type
  | pending => Bool
  | readWorkflow => Option (Decision F)
  | snapshot => PoolSnapshot F
  | portfolio => Portfolio F
  | walletBalances | collateral => F × F
  | entryGuard => Option (Feature F)
  | mintBaseRequirement _ _ | boundedBaseRequirement _ _ => F
  | start | reconcile | writeWorkflow _ | record | syncOrders _ | hedge _ _ | execute _ => Unit

/-- The environment at one operation: a failure, whether a failed write took effect, and what the
venues show. -/
structure Input (F : Type) where
  failure : Option Failure
  applied : Bool
  flag : Bool
  snapshot : PoolSnapshot F
  portfolio : Portfolio F
  amounts : F × F
  observation : Observation F

/-- A question to a venue or to the store. -/
def World.ask {α : Type} (input : Input F) (reply : α) (w : World F) :
    Except Failure α × World F :=
  match input.failure with
  | none => (.ok reply, w)
  | some failure => (.error failure, w)

/-- What is written when the write succeeds, and maybe when it fails. -/
def World.write (input : Input F) (w written : World F) : Except Failure Unit × World F :=
  match input.failure with
  | none => (.ok (), written)
  | some failure => (.error failure, if input.applied then written else w)

/-- `workflow.json` is replaced as a whole. -/
def World.store (value : Option (Decision F)) (w : World F) : World F where
  workflow := value
  log := match value with
    | some d => .began d :: w.log
    | none => .cleared :: w.log

section Step

variable [F64 F]

/-- The outcome of an entry guard on what it reads. -/
def guardOutcome (c : Config F) (o : Observation F) : Except Failure (Option (Feature F)) :=
  (Live.entryGuard c.strategy c.runtime.observationTimeoutSeconds o.started o.checkpoint
    o.frame).mapError Failure.ofMessage

def step (c : Config F) :
    (op : Op F) → Input F → World F → Except Failure (op.Reply) × World F
  | .start, _, w => (.ok (), w.note .restarted)
  | .reconcile, input, w | .record, input, w | .syncOrders _, input, w => w.ask input ()
  | .pending, input, w => w.ask input input.flag
  | .readWorkflow, input, w => w.ask input w.workflow
  | .writeWorkflow value, input, w => w.write input (w.store value)
  | .snapshot, input, w => w.ask input input.snapshot
  | .portfolio, input, w =>
      match input.failure with
      | none => (.ok input.portfolio, w.note (.inventory input.portfolio))
      | some failure => (.error failure, w)
  | .walletBalances, input, w | .collateral, input, w => w.ask input input.amounts
  | .mintBaseRequirement _ _, input, w | .boundedBaseRequirement _ _, input, w =>
      w.ask input input.amounts.1
  | .hedge target emergency, input, w =>
      match input.failure with
      | none => (.ok (), w.note (.hedged target emergency))
      | some failure => (.error failure, w)
  | .entryGuard, input, w =>
      match input.failure with
      | some failure => (.error failure, w)
      | none =>
          match guardOutcome c input.observation with
          | .ok x => (.ok x, w.note (.guarded input.observation))
          | .error failure => (.error failure, w)
  -- a transaction which fails may have taken effect
  | .execute m, input, w => (w.note (.mutated m)).ask input ()

def machine (c : Config F) : Machine (Op F) Op.Reply Failure (World F) (Input F) where
  step := step c

end Step

abbrev Program (F α : Type) := Semantics.Program (Op F) Op.Reply Failure α

abbrev call (op : Op F) : Program F op.Reply := Semantics.Program.call op

/-- A computation of the program itself. -/
def lift {α : Type} (result : Except String α) : Program F α :=
  .ofExcept (result.mapError Failure.ofMessage)

variable [F64 F] (c : Config F)

/-- Bring the base of the wallet to what the next transaction needs. -/
def balance (delta price : F) : Program F Unit :=
  if |delta| * price > 1 then
    call (.execute (.swapInventory (decide (delta < 0))
      (if delta < 0 then -delta else delta * price)))
  else pure ()

/-- Hedge all the base there is. -/
def hedgeInventory : Program F Unit := do
  let inventory ← call .portfolio
  call (.hedge inventory.base true)

def scalePosition (fraction : F) (pos : LpPosition F) : Program F Unit := do
  let _ ← call .entryGuard
  let s ← call .snapshot
  let layer ← lift (context (c.strategy.layers.find? fun l => l.name = pos.layer) "unknown layer")
  let (walletB, walletQ) ← call .walletBalances
  let desired := c.strategy.lpBudget * fraction * layer.weight - (pos.base * s.price + pos.quote)
  let value := min desired (walletB * s.price + walletQ) * 0.995
  if value < 10 then pure ()
  else do
    lift (ensure (s.price > pos.lower ∧ s.price < pos.upper) "cannot scale an out-of-range layer")
    let l ← lift (Math.liquidityForValue value pos.lower pos.upper s.price)
    let neededB := (Math.amounts l pos.lower pos.upper s.price).1
    balance (neededB - walletB) s.price
    hedgeInventory
    let _ ← call .entryGuard
    call (.execute (.increasePosition pos (value * 0.998)))

def scalePositions (fraction : F) : List (LpPosition F) → Program F Unit
  | [] => pure ()
  | pos :: positions => do
    scalePosition c fraction pos
    scalePositions fraction positions

/-- Whether the hedge account can carry the whole new deployment. -/
def checkCollateral (fraction equity available : F) : Except Failure Unit :=
  let required := Runner.requiredCollateral c fraction
  ensure (¬(required > c.strategy.hedgeCollateral ∨ required > equity ∨ required > available))
    .budget

def preflightEntry (d : Decision F) (portfolio : Portfolio F) : Program F Unit :=
  match d.lp with
  | .deploy fraction =>
      if portfolio.positions = [] then do
        lift (ensure (F64.isFinite fraction ∧ fraction > 0 ∧ fraction ≤ 1)
          "invalid deployment fraction")
        let (equity, available) ← call .collateral
        lift (ensure (F64.isFinite equity ∧ F64.isFinite available)
          "invalid hedge collateral observation")
        .ofExcept (checkCollateral c fraction equity available)
      else pure ()
  | _ => pure ()

/-- Only an exit goes on when the exchange has refused its hedge. -/
def continueUnhedged (d : Decision F) (failure : Failure) : Program F Unit :=
  if d.lp ≠ .exitToQuote then .throw failure
  else do
    let pending ← call .pending
    if pending ∨ ¬(failure = .rejected ∨ failure = .budget) then .throw failure
    else call .record

/-- The band keeps its short position, every other profile is fully hedged in the meantime. -/
def protect (d : Decision F) (portfolio : Portfolio F) : Program F Unit :=
  if c.strategy.band.isSome then call (.syncOrders true)
  else do
    let result : Except Failure Unit ←
      Semantics.Program.tryCall (.hedge portfolio.base true : Op F)
    match result with
    | .ok () => pure ()
    | .error failure => continueUnhedged d failure

/-- The hedge which the inventory needs in the end. -/
def settleHedge : Program F Unit := do
  let inventory ← call .portfolio
  let s ← call .snapshot
  call (.hedge (inventoryHedgeTarget c.strategy inventory s.price) true)

def sell (base : F) : Program F Unit :=
  if base > 1e-8 then call (.execute (.swapInventory true base)) else pure ()

/-- The sale comes first, then the short position is closed. -/
def leave : Program F Unit := do
  let (base, _) ← call .walletBalances
  sell base
  let remaining ← call .walletBalances
  call (.hedge remaining.1 true)

/-- The widths of the band, or none. -/
def bandWidths (feature : Option (Feature F)) : Except String (Option (F × F)) :=
  match c.strategy.band with
  | none => .ok none
  | some band => do
      let x ← context feature "validated ETH feature"
      pure (some (band.widths x))

def baseRequirement (value width : F) (widths : Option (F × F)) : Program F F :=
  match widths with
  | some w => call (.boundedBaseRequirement value w)
  | none => call (.mintBaseRequirement value width)

def mint (l : LayerConfig F) (value : F) (widths : Option (F × F)) : Program F Unit :=
  match widths with
  | some w => call (.execute (.mintBoundedLayer l.name (value * 0.998) w))
  | none => call (.execute (.mintLayer l.name (value * 0.998) l.halfWidth))

/-- The short position of the band is kept until the end. -/
def hedgeUnlessBand : Program F Unit :=
  if c.strategy.band.isSome then pure () else hedgeInventory

def buildLayer (value : F) (l : LayerConfig F) : Program F Unit := do
  let feature ← call .entryGuard
  let widths ← lift (bandWidths c feature)
  let s ← call .snapshot
  let targetBase ← baseRequirement value l.halfWidth widths
  let (current, _) ← call .walletBalances
  balance (targetBase - current) s.price
  hedgeUnlessBand c
  let _ ← call .entryGuard
  mint l value widths

def buildLayers (budget totalWeight : F) : List (LayerConfig F) → Program F Unit
  | [] => pure ()
  | l :: layers => do
    buildLayer c (budget * l.weight / totalWeight) l
    buildLayers budget totalWeight layers

/-- The layers which a decision builds. -/
def chosenLayers (d : Decision F) : List (LayerConfig F) :=
  match d.lp with
  | .recenter layers => c.strategy.layers.filter fun l => l.name ∈ layers
  | _ => c.strategy.layers

def chosenFraction (d : Decision F) : F :=
  match d.lp with
  | .deploy fraction => fraction
  | _ => 1

def totalWeight (layers : List (LayerConfig F)) : F := (layers.map LayerConfig.weight).sum

/-- What a rebuild spends. -/
def rebuildBudget (d : Decision F) (available : F) : F :=
  min (c.strategy.lpBudget * chosenFraction d * totalWeight (chosenLayers c d)) available * 0.995

def rebuild (d : Decision F) : Program F Unit := do
  let s ← call .snapshot
  let (base, quote) ← call .walletBalances
  let available := base * s.price + quote
  buildLayers c (rebuildBudget c d available) (totalWeight (chosenLayers c d)) (chosenLayers c d)
  settleHedge c

def removePositions : List (LpPosition F) → Program F Unit
  | [] => pure ()
  | pos :: positions => do
    call (.execute (.removePosition pos))
    removePositions positions

/-- The positions which a decision removes. -/
def removed (d : Decision F) (portfolio : Portfolio F) : List (LpPosition F) :=
  match d.lp with
  | .recenter layers => portfolio.positions.filter fun p => p.layer ∈ layers
  | _ => portfolio.positions

/-- A position which is moved waits first. -/
def rollWait (d : Decision F) : Program F Unit :=
  match c.strategy.band, d.lp with
  | some _, .recenter _ => call .record
  | _, _ => pure ()

/-- The steps of a decision which changes the liquidity. -/
def change (d : Decision F) (portfolio : Portfolio F) : Program F Unit :=
  match d.lp, portfolio.positions with
  | .deploy fraction, p :: positions => do
    scalePositions c fraction (p :: positions)
    settleHedge c
  | _, _ => do
    removePositions (removed d portfolio)
    rollWait c d
    if d.lp = .exitToQuote then leave else rebuild c d

def execute (d : Decision F) : Program F Unit := do
  let portfolio ← call .portfolio
  preflightEntry c d portfolio
  call (.writeWorkflow (some d))
  protect c d portfolio
  change c d portfolio
  call (.writeWorkflow none)

/-- A hedge of nearly all the base is urgent. -/
def urgent (d : Decision F) : Program F Bool :=
  if d.emergency then pure true
  else if d.targetShortBase > 0 then do
    let portfolio ← call .portfolio
    pure (decide (d.targetShortBase ≥ portfolio.base * 0.99))
  else pure false

def apply (d : Decision F) : Program F Unit :=
  if d.lp = .hold then do
    let emergency ← urgent d
    call (.hedge d.targetShortBase emergency)
  else execute c d

def holdObserved (d : Decision F) (f : MarketFrame F) : Program F Unit := do
  lift (ensure (d.lp = .hold) "observed hold cannot execute LP mutations")
  lift (Runner.fresh f.pool.timeMs f.nowMs c.strategy.maxDataAgeSeconds)
  call (.hedge d.targetShortBase (d.emergency ||
    decide (d.targetShortBase > 0 ∧ d.targetShortBase ≥ f.portfolio.base * 0.99)))

/-- The exit after a restart which finds a workflow. -/
def restartExit : Decision F where
  state := "Paused"
  reasons := ["restart_recovery"]
  lp := .exitToQuote
  targetShortBase := 0
  emergency := true

/-- The band has refused an entry: exit, unless a transaction is unsettled. -/
def exitOnRisk (failure : Failure) : Program F Unit :=
  if failure ≠ .bandRisk then .throw failure
  else do
    let pending ← call .pending
    if pending then .throw failure
    else do
      call .record
      apply c Runner.riskExit

/-- A refused entry is left, every other failure ends the process. -/
def recover (result : Except Failure Unit) : Program F Unit :=
  match result with
  | .ok () => pure ()
  | .error failure => exitOnRisk c failure

/-- What the loop does with one decision. -/
def perform (d : Decision F) (f : MarketFrame F) : Program F Unit :=
  if d.lp = .hold then do
    holdObserved c d f
    call (.syncOrders false)
  else do
    let result ← (apply c d).attempt
    recover c result
    call (.syncOrders false)
    let _ ← call .portfolio
    pure ()

def reconcilePending : Program F Unit := do
  let pending ← call .pending
  if pending then call .reconcile else pure ()

/-- A transaction without an outcome is settled first, then a workflow which was interrupted. -/
def startup : Program F Unit := do
  call .start
  reconcilePending
  let _ ← call .portfolio
  call (.syncOrders true)
  let _ ← call .portfolio
  call .record
  let unfinished ← call .readWorkflow
  if unfinished.isSome then do
    call .record
    apply c restartExit
  else pure ()

def loop : List (Decision F × MarketFrame F) → Program F Unit
  | [] => pure ()
  | (d, f) :: rest => do
    perform c d f
    loop rest

/-- One process, and the decisions which its loop comes to. -/
def session (decisions : List (Decision F × MarketFrame F)) : Program F Unit := do
  startup c
  loop c decisions

end LpMaker.Live
