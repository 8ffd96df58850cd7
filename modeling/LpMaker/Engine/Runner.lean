import LpMaker.Engine.Lifecycle
import LpMaker.Engine.Paper
import LpMaker.Semantics.Program

/-!
# The engine over its state files

Loading and saving the checkpoint, the permit of a rearmed entry and one pass of the engine
loop, as programs over the files of the state directory. A file is replaced as a whole, and the
process may stop between any two operations. The journal and the status reports, which nothing
reads back, are left out.
-/

namespace LpMaker.Runner

open Semantics
open EntryRearm (Permit)

variable {F : Type}

/-- `checkpoint.json`. -/
structure Checkpoint (F : Type) where
  schema : Nat
  mode : Mode
  strategy : Strategy F
  paper : Option (Paper F)

/-- The state directory, as far as the engine loop reads it. -/
structure Files (F : Type) where
  checkpoint : Option (Checkpoint F)
  strategy : Option (Strategy F)
  paper : Option (Paper F)
  /-- Whether the marker of `lp_history.json`, if there is one, says `ever_opened`. -/
  lpHistory : Option Bool
  /-- `nfts.json` registers a position. -/
  registered : Bool
  /-- `equity_baseline.json` exists. -/
  baseline : Bool
  permit : Option Permit
  backups : List (String × Checkpoint F)

/-- What happened, for the statements about a run. No program reads it. -/
inductive Event where
  /-- The marker of `lp_history.json` was written. -/
  | recorded
  | saved (history : EntryHistory)
  | loaded (history : EntryHistory)
  | confirmed (history : EntryHistory)
  | stepped (history : EntryHistory)
  | written (permit : Permit)
  /-- An evaluation went by the rules of a first entry. -/
  | waived (id : String)
  /-- A deployment reached the execution, under this permit if it was waived. -/
  | executed (waived : Option String)
deriving DecidableEq

/-- What outlives the process. The log has the latest event first. -/
structure World (F : Type) where
  files : Files F
  /-- How many identifiers have been generated. -/
  generated : Nat
  log : List Event

/-- Records of other components which may still be open. -/
inductive Outstanding where
  | pending
  | workflow
  | hedgeOrder
  | openOrders
deriving DecidableEq

inductive Op (F : Type) where
  | readCheckpoint
  | writeCheckpoint (checkpoint : Checkpoint F)
  | readStrategy
  | writeStrategy (strategy : Strategy F)
  | readPaper
  | writePaper (paper : Paper F)
  | readLpHistory
  | writeLpHistory
  | readRegistered
  | writeRegistered (registered : Bool)
  | readBaseline
  | writeBaseline
  | readPermit
  | writePermit (permit : Permit)
  | writeBackup (id : String) (checkpoint : Checkpoint F)
  | newId
  | now
  | outstanding (what : Outstanding)
  /-- Equity and available collateral of the hedge account. -/
  | collateral
  | hold
  /-- `Live::apply`. The reply is false where the band refuses the entry. -/
  | execute (d : Decision F) (waived : Option String)
  /-- Whether the venue shows a position. -/
  | positions
  | note (event : Event)

@[reducible] def Op.Reply : Op F → Type
  | readCheckpoint => Option (Checkpoint F)
  | readStrategy => Option (Strategy F)
  | readPaper => Option (Paper F)
  | readLpHistory => Option Bool
  | readPermit => Option Permit
  | newId => String
  | now => Nat
  | collateral => F × F
  | readRegistered | readBaseline | outstanding _ | execute _ _ | positions => Bool
  | _ => Unit

/-- What the environment chooses for one operation. -/
structure Input (F : Type) where
  succeeds : Bool
  /-- Whether a failing write took effect. -/
  effective : Bool
  flag : Bool
  now : Nat
  collateral : F × F
  /-- What the transactions of an execution leave in the registry, if they change it. -/
  registered : Option Bool
  /-- Whether an execution has recorded an opened position. -/
  recorded : Bool

/-- The reply, or an input/output error. -/
def Input.reply {α : Type} (input : Input F) (value : α) : Except String α :=
  if input.succeeds then .ok value else .error "input/output error"

/-- The effect of a write which may fail before or after it. -/
def Input.effect (input : Input F) (before after : World F) : World F :=
  if input.succeeds ∨ input.effective then after else before

/-- The marker is never replaced. -/
def World.record (w : World F) : World F :=
  if w.files.lpHistory.isSome then w
  else { w with files := { w.files with lpHistory := some true }, log := .recorded :: w.log }

def World.note (event : Event) (w : World F) : World F := { w with log := event :: w.log }

/-- What the transactions of an execution write. -/
def World.transact (input : Input F) (w : World F) : World F :=
  let w := { w with files := { w.files with
    registered := input.registered.getD w.files.registered } }
  if input.recorded then w.record else w

/-- Generated identifiers are the values of `ids`. -/
def step (ids : Nat → String) : (op : Op F) → Input F → World F → Except String op.Reply × World F
  | .readCheckpoint, input, w => (input.reply w.files.checkpoint, w)
  | .writeCheckpoint checkpoint, input, w =>
      (input.reply (), input.effect w { w with
        files := { w.files with checkpoint := some checkpoint }
        log := .saved checkpoint.strategy.entryHistory :: w.log })
  | .readStrategy, input, w => (input.reply w.files.strategy, w)
  | .writeStrategy strategy, input, w =>
      (input.reply (), input.effect w { w with
        files := { w.files with strategy := some strategy } })
  | .readPaper, input, w => (input.reply w.files.paper, w)
  | .writePaper paper, input, w =>
      (input.reply (), input.effect w { w with files := { w.files with paper := some paper } })
  | .readLpHistory, input, w => (input.reply w.files.lpHistory, w)
  | .writeLpHistory, input, w =>
      (input.reply (), input.effect w { w with
        files := { w.files with lpHistory := some true }
        log := .recorded :: w.log })
  | .readRegistered, input, w => (input.reply w.files.registered, w)
  | .writeRegistered registered, input, w =>
      (input.reply (), input.effect w { w with
        files := { w.files with registered := registered } })
  | .readBaseline, input, w => (input.reply w.files.baseline, w)
  | .writeBaseline, input, w =>
      (input.reply (), input.effect w { w with files := { w.files with baseline := true } })
  | .readPermit, input, w => (input.reply w.files.permit, w)
  | .writePermit permit, input, w =>
      (input.reply (), input.effect w { w with
        files := { w.files with permit := some permit }
        log := .written permit :: w.log })
  | .writeBackup id checkpoint, input, w =>
      (input.reply (), input.effect w { w with
        files := { w.files with backups := (id, checkpoint) :: w.files.backups } })
  | .newId, input, w =>
      (input.reply (ids w.generated), { w with generated := w.generated + 1 })
  | .now, input, w => (input.reply input.now, w)
  | .outstanding _, input, w => (input.reply input.flag, w)
  | .collateral, input, w => (input.reply input.collateral, w)
  | .hold, input, w => (input.reply (), w)
  | .execute d waived, input, w =>
      (input.reply input.flag,
        if d.lp.isDeploy then (w.transact input).note (.executed waived) else w.transact input)
  | .positions, input, w => (input.reply input.flag, w)
  | .note event, _, w => (.ok (), w.note event)

abbrev machine (ids : Nat → String) : Machine (Op F) Op.Reply String (World F) (Input F) :=
  ⟨step ids⟩

abbrev Program (F : Type) := Semantics.Program (Op F) Op.Reply String

/-- Perform one operation and fail where it fails. -/
abbrev call (op : Op F) : Program F op.Reply := Semantics.Program.call op

/-- What the process holds in memory. -/
structure Memory (F : Type) where
  strategy : Strategy F
  paper : Paper F

/-- A configuration with the hash which binds a permit to it. -/
structure Setup (F : Type) where
  config : Config F
  binding : String

section Recovery

/-- `record_lp_history`. -/
def recordLpHistory : Program F Unit := do
  match ← call .readLpHistory with
  | some everOpened => (ensure everOpened "invalid LP history marker" : Except String Unit)
  | none => call .writeLpHistory

/-- The registry and the state itself are evidence of an earlier position. -/
def recordEvidence (registered : Bool) (s : Strategy F) : Program F Unit :=
  if registered || s.entryHistory = .established then recordLpHistory else pure ()

/-- The entry history of a state beside the marker. -/
def settleHistory (s : Strategy F) : Option Bool → Except String (Strategy F)
  | some everOpened => do
      ensure everOpened "invalid LP history marker"
      .ok { s with entryHistory := .established }
  | none =>
      -- Warmup has never passed the initial-entry state transition.
      .ok (if s.entryHistory = .legacyUnknown ∧ s.phase = .warmup then
        { s with entryHistory := .initial } else s)

def restoreEntryHistory (s : Strategy F) : Program F (Strategy F) := do
  let registered ← call .readRegistered
  recordEvidence registered s
  let history ← call .readLpHistory
  settleHistory s history

def Checkpoint.of (c : Config F) (m : Memory F) : Checkpoint F where
  schema := 1
  mode := c.mode
  strategy := m.strategy
  paper := if c.mode = .paper then some m.paper else none

def exportPaper : Option (Paper F) → Program F Unit
  | some paper => call (.writePaper paper)
  | none => pure ()

/-- The compatibility files, after the checkpoint. -/
def exportFiles (checkpoint : Checkpoint F) : Program F Unit := do
  call (.writeStrategy checkpoint.strategy)
  exportPaper checkpoint.paper

def save (c : Config F) (m : Memory F) : Program F Unit := do
  call (.writeCheckpoint (.of c m))
  exportFiles (.of c m)

variable [F64 F]

/-- The saved ledger, or a new one. -/
def paperOrNew (c : Config F) : Option (Paper F) → Program F (Paper F)
  | some paper => pure paper
  | none => do
      let now ← call .now
      pure (.new c now)

def loadCheckpoint (c : Config F) (checkpoint : Checkpoint F) : Program F (Memory F) := do
  (ensure (checkpoint.schema = 1 ∧ checkpoint.mode = c.mode)
    "checkpoint schema/mode mismatch; refusing to reset state" : Except String Unit)
  (ensure (c.mode ≠ .paper ∨ checkpoint.paper.isSome) "paper checkpoint has no ledger" :
    Except String Unit)
  let strategy ← restoreEntryHistory checkpoint.strategy
  -- Repair a crash between the commit and the compatibility files.
  exportFiles { checkpoint with strategy := strategy }
  let paper ← paperOrNew c checkpoint.paper
  pure ⟨strategy, paper⟩

/-- Without a strategy there may be no baseline either. -/
def requireState : Option (Strategy F) → Program F Unit
  | some _ => pure ()
  | none => do
      let baseline ← call .readBaseline
      (ensure (baseline = false)
        ("risk state/checkpoint missing from an existing account; refusing to reset " ++
          "drawdown history") : Except String Unit)

/-- Take over the files of before the checkpoint. -/
def loadLegacy (c : Config F) : Program F (Memory F) := do
  let strategy ← call .readStrategy
  let paper ← call .readPaper
  requireState strategy
  (ensure (c.mode ≠ .paper ∨ strategy.isSome = paper.isSome)
    "incomplete legacy paper files; refusing to reset balances or risk phase" :
    Except String Unit)
  let strategy ← restoreEntryHistory (strategy.getD .default)
  let paper ← paperOrNew c paper
  save c ⟨strategy, paper⟩
  pure ⟨strategy, paper⟩

def load (c : Config F) : Program F (Memory F) := do
  match ← call .readCheckpoint with
  | some checkpoint => loadCheckpoint c checkpoint
  | none => loadLegacy c

/-- The assertion of a first entry for a state whose history is unknown. -/
def confirmLegacy (portfolio : Portfolio F) (s : Strategy F) : Program F (Strategy F) := do
  let pending ← call (.outstanding .pending)
  let workflow ← call (.outstanding .workflow)
  (ensure (!pending && !workflow)
    "first entry requires completed transaction/workflow reconciliation" : Except String Unit)
  (ensure (portfolio.positions = [] ∧ |portfolio.walletBase| ≤ 1e-8 ∧
      |portfolio.shortBase| ≤ 1e-8)
    "first entry confirmation requires flat reconciled inventory" : Except String Unit)
  pure { s with entryHistory := .initial }

def confirmFirstEntry (portfolio : Portfolio F) (s : Strategy F) : Program F (Strategy F) := do
  let s ← restoreEntryHistory (s.observeLp (!portfolio.positions.isEmpty))
  if s.entryHistory ≠ .legacyUnknown ∨ s.phase = .halted then pure s
  else confirmLegacy portfolio s

end Recovery

section EntryRearm

variable [F64 F]

/-- The permit, if it belongs to this configuration. -/
def readPermit (setup : Setup F) : Program F (Option Permit) := do
  let permit ← call .readPermit
  (ensure (permit.all fun permit => permit.schema = 1 ∧ permit.binding = setup.binding)
    "entry rearm belongs to another configuration or schema" : Except String Unit)
  pure permit

/-- Nothing is left to reconcile. -/
def settled (permit : Option Permit) : Program F EntryRearm.Store := do
  let pending ← call (.outstanding .pending)
  let workflow ← call (.outstanding .workflow)
  let hedgeOrder ← call (.outstanding .hedgeOrder)
  let openOrders ← call (.outstanding .openOrders)
  let store : EntryRearm.Store := ⟨permit, pending, workflow, hedgeOrder, openOrders⟩
  EntryRearm.settled store
  pure store

def armAnew (setup : Setup F) : Program F Permit := do
  let checkpoint ← call .readCheckpoint
  let checkpoint ← (context checkpoint "missing checkpoint" : Except String (Checkpoint F))
  (ensure (checkpoint.mode = .live ∧ checkpoint.schema = 1) "invalid live checkpoint" :
    Except String Unit)
  let id ← call .newId
  let requested ← call .now
  let updated ← call .now
  let permit : Permit := ⟨1, id, setup.binding, requested, .armed, updated⟩
  call (.writeBackup id checkpoint)
  call (.writePermit permit)
  pure permit

/-- Repeating the request keeps an armed permit. -/
def arm (setup : Setup F) (s : Strategy F) (actual : Portfolio F) : Program F Permit := do
  (ensure (setup.config.mode = .live) "entry rearm is an EVM live operator action" :
    Except String Unit)
  (ensure (s.phase = .paused) "entry rearm requires Paused; Halted is never reset" :
    Except String Unit)
  (ensure (EntryRearm.flat actual) "重新入场要求 LP、WETH 库存和合约均为空仓" :
    Except String Unit)
  let _ ← settled none
  let permit ← readPermit setup
  match permit.filter fun permit => permit.status = .armed with
  | some permit => pure permit
  | none => armAnew setup

/-- An evaluation with the permit it was waived under. -/
structure Evaluated (F : Type) where
  strategy : Strategy F
  decision : Decision F
  waived : Option String

def Evaluated.ordinary (c : Config F) (f : MarketFrame F) (s : Strategy F) : Evaluated F :=
  let evaluated := s.evaluateWithContinuity c.strategy f
  ⟨evaluated.1, evaluated.2, none⟩

def cancel (permit : Permit) : Program F Unit := do
  let now ← call .now
  call (.writePermit (permit.cancel now))

/-- A waived deployment names its permit instead of the first entry. -/
def nameWaiver (permit : Permit) (d : Decision F) : Decision F :=
  if d.lp.isDeploy then
    { d with
      reasons := d.reasons.filter (fun r => !r.startsWith "initial_entry:")
        ++ [EntryRearm.reason ++ permit.id] }
  else d

/-- A drawdown halt ends the permit. -/
def cancelOnHalt (permit : Permit) (s : Strategy F) : Program F Unit :=
  if s.phase = .halted then cancel permit else pure ()

def evaluateWaived (setup : Setup F) (permit : Permit) (f : MarketFrame F) (s : Strategy F) :
    Program F (Evaluated F) := do
  let _ ← settled (some permit)
  call (.note (.waived permit.id))
  let trial := EntryRearm.evaluateTrial setup.config.strategy f s
  cancelOnHalt permit trial.1
  pure ⟨trial.1, nameWaiver permit trial.2, some permit.id⟩

def evaluateArmed (setup : Setup F) (permit : Permit) (f : MarketFrame F) (s : Strategy F) :
    Program F (Evaluated F) := do
  (ensure (setup.config.mode = .live) "entry rearm cannot be used in paper mode" :
    Except String Unit)
  if s.phase ≠ .paused ∨ !EntryRearm.flat f.portfolio then do
    cancel permit
    pure (.ordinary setup.config f s)
  else evaluateWaived setup permit f s

/-- `entry_rearm::evaluate`. -/
def evaluate (setup : Setup F) (f : MarketFrame F) (s : Strategy F) :
    Program F (Evaluated F) := do
  let permit ← readPermit setup
  match permit.filter fun permit => permit.status = .armed with
  | some permit => evaluateArmed setup permit f s
  | none => pure (.ordinary setup.config f s)

/-- `str::strip_prefix`. -/
def stripPrefix (mark text : String) : Option String :=
  if mark.toList.isPrefixOf text.toList then
    some (String.ofList (text.toList.drop mark.toList.length))
  else none

/-- The permit which a decision names. -/
def waiverOf (d : Decision F) : Option String :=
  d.reasons.findSome? (stripPrefix EntryRearm.reason)

def consumePermit (setup : Setup F) (id : String) : Program F Unit := do
  let permit ← readPermit setup
  let permit ← (context permit "missing entry rearm permit" : Except String Permit)
  (ensure (permit.id = id ∧ permit.status = .armed)
    "entry rearm already consumed or replaced" : Except String Unit)
  let now ← call .now
  call (.writePermit { permit with status := .consumed, updatedMs := now })

/-- Use the permit up before anything is committed or executed. -/
def consume (setup : Setup F) (d : Decision F) : Program F Unit :=
  if d.lp.isDeploy then
    match waiverOf d with
    | some id => consumePermit setup id
    | none => pure ()
  else pure ()

end EntryRearm

section Loop

variable [F64 F]

/-- What one pass of the loop observes. -/
structure Observed (F : Type) where
  /-- The frame with the portfolio of the venues. -/
  frame : MarketFrame F
  /-- The funding rows fetched with new candles. -/
  funding : List (Nat × F)
  markedMs : Nat

/-- The source is recent and not from the future. -/
def fresh (sourceMs nowMs maxAgeSeconds : Nat) : Except String Unit :=
  ensure (¬(sourceMs = 0 ∨ sourceMs > nowMs + 5000 ∨ nowMs - sourceMs > maxAgeSeconds * 1000))
    "observation expired or timestamp invalid; refresh before acting"

/-- `Live::portfolio` records an opened position. -/
def recordPositions (present : Bool) : Program F Unit :=
  if present then recordLpHistory else pure ()

def Observed.markPaper (o : Observed F) (c : Config F) (paper : Paper F) : Paper F :=
  (if paper.lastHedgePrice > 0 then paper.applyFunding o.funding else paper).mark
    o.frame.pool.price o.frame.hedgePrice o.markedMs c

/-- The live portfolio is the one of the venues, the paper portfolio is marked to market. -/
def observe (c : Config F) (o : Observed F) (m : Memory F) :
    Program F (Memory F × MarketFrame F) :=
  match c.mode with
  | .live => do
      recordPositions (!o.frame.portfolio.positions.isEmpty)
      pure (m, o.frame)
  | .paper =>
      let paper := o.markPaper c m.paper
      pure ({ m with paper := paper }, { o.frame with portfolio := paper.portfolio })

/-- `equity_baseline`, of which a restart only reads whether it exists. -/
def equityBaseline : Program F Unit := do
  let baseline ← call .readBaseline
  if baseline then pure () else call .writeBaseline

/-- The collateral which the hedge of a whole new deployment needs. -/
def requiredCollateral (c : Config F) (fraction : F) : F :=
  c.strategy.lpBudget * fraction / (c.hyperliquid.leverage : F) / 0.9

/-- Whether an entry may buy inventory. -/
def preflightDeploy (c : Config F) (fraction : F) : Program F Bool := do
  (ensure (F64.isFinite fraction ∧ fraction > 0 ∧ fraction ≤ 1) "invalid deployment fraction" :
    Except String Unit)
  let funds ← call .collateral
  (ensure (F64.isFinite funds.1 ∧ F64.isFinite funds.2) "invalid hedge collateral observation" :
    Except String Unit)
  let required := requiredCollateral c fraction
  pure (!(required > c.strategy.hedgeCollateral || required > funds.1 || required > funds.2))

def preflightEntry (c : Config F) (d : Decision F) (portfolio : Portfolio F) :
    Program F Bool :=
  match d.lp with
  | .deploy fraction => if portfolio.positions = [] then preflightDeploy c fraction else pure true
  | _ => pure true

/-- An evaluation as the loop goes on with it. -/
structure Decided (F : Type) extends Evaluated F where
  deferred : Bool

/-- Defer a deployment without collateral. -/
def Evaluated.deferUnless (funded : Bool) (previous : Strategy F) (portfolio : Portfolio F)
    (evaluated : Evaluated F) : Decided F :=
  if funded then ⟨evaluated, false⟩
  else
    let deferred := deferEntry previous portfolio evaluated.strategy evaluated.decision
    ⟨⟨deferred.1, deferred.2, evaluated.waived⟩, deferred.2.lp = .hold⟩

def preflight (c : Config F) (previous : Strategy F) (portfolio : Portfolio F)
    (evaluated : Evaluated F) : Program F (Decided F) :=
  match c.mode with
  | .live => do
      let funded ← preflightEntry c evaluated.decision portfolio
      pure (evaluated.deferUnless funded previous portfolio)
  | .paper => pure ⟨evaluated, false⟩

/-- The permit is used up and the phase committed before the venues hear of a decision. -/
def commit (setup : Setup F) (d : Decision F) (m : Memory F) : Program F Unit :=
  match setup.config.mode with
  | .live => do
      consume setup d
      save setup.config m
  | .paper => pure ()

/-- The exit after the band has refused an entry. -/
def riskExit : Decision F where
  state := "Paused"
  reasons := ["band_workflow_risk_exit"]
  lp := .exitToQuote
  targetShortBase := 0
  emergency := true

/-- Leave after a refused entry, unless a transaction is unsettled. -/
def leaveOnRisk (done : Bool) (s : Strategy F) : Program F (Strategy F) :=
  if done then pure s
  else do
    let pending ← call (.outstanding .pending)
    (ensure (pending = false) "band entry risk changed during workflow" : Except String Unit)
    let left ← call (.execute riskExit none)
    (ensure left "band entry risk changed during workflow" : Except String Unit)
    let paused ← call .now
    let invalidated ← call .now
    pure (Recovery.finishWorkflowRecovery paused invalidated s)

def performLive (f : MarketFrame F) (decided : Decided F) (m : Memory F) :
    Program F (Memory F) :=
  if decided.decision.lp = .hold then do
    call .hold
    pure { m with strategy := m.strategy.observeLp (!f.portfolio.positions.isEmpty) }
  else do
    let done ← call (.execute decided.decision decided.waived)
    let s ← leaveOnRisk done m.strategy
    let present ← call .positions
    recordPositions present
    pure { m with strategy := s.observeLp present }

/-- The widths of the band profile at this frame. -/
def bandWidths (c : Config F) (f : MarketFrame F) : Except String (Option (F × F)) :=
  match c.strategy.band with
  | none => .ok none
  | some band => do
      let x ← Feature.latest f.candles f.nowMs
      .ok (some (band.widths x))

def performPaper (c : Config F) (f : MarketFrame F) (d : Decision F) (m : Memory F) :
    Program F (Memory F) := do
  let widths ← (bandWidths c f : Except String (Option (F × F)))
  let paper ← (m.paper.applyWithWidths d c f.pool.price f.hedgePrice f.nowMs widths :
    Except String (Paper F))
  let m : Memory F := ⟨m.strategy.observeLp (!paper.portfolio.positions.isEmpty), paper⟩
  save c m
  pure m

/-- Execute a decision which is neither deferred nor made without data. -/
def perform (c : Config F) (f : MarketFrame F) (decided : Decided F) (m : Memory F) :
    Program F (Memory F) :=
  if decided.deferred ||
      decided.decision.reasons.any (fun r => r.startsWith "stale_or_invalid_data") then pure m
  else
    match c.mode with
    | .live => performLive f decided m
    | .paper => performPaper c f decided.decision m

/-- One pass of the loop. -/
def iterate (setup : Setup F) (o : Observed F) (m : Memory F) : Program F (Memory F) := do
  let observed ← observe setup.config o m
  let m := observed.1
  let f := observed.2
  fresh f.pool.timeMs f.nowMs setup.config.strategy.maxDataAgeSeconds
  fresh f.hedgeTimeMs f.nowMs setup.config.strategy.maxDataAgeSeconds
  equityBaseline
  let evaluated ← evaluate setup f m.strategy
  let decided ← preflight setup.config m.strategy f.portfolio evaluated
  let m := { m with strategy := decided.strategy }
  commit setup decided.decision m
  let m ← perform setup.config f decided m
  save setup.config m
  pure m

/-- Everything a process does to its state after loading it. -/
inductive Command (F : Type) where
  | iterate (o : Observed F)
  | arm (actual : Portfolio F)
  | save
  | confirmFirstEntry (portfolio : Portfolio F)
  | observeLp (hasPositions : Bool)
  | recordLpHistory
  | register (registered : Bool)
  | prepareObservationRevalidation
  | invalidateObservationStreaks (now : Nat)
  | finishWorkflowRecovery (paused invalidated : Nat)
  | pauseIncompleteInventory (actualLayers : List String) (paused invalidated : Nat)

def Command.run (setup : Setup F) (m : Memory F) : Command F → Program F (Memory F)
  | iterate o => Runner.iterate setup o m
  | arm actual => do
      let _ ← Runner.arm setup m.strategy actual
      pure m
  | save => do
      Runner.save setup.config m
      pure m
  | confirmFirstEntry portfolio => do
      let s ← Runner.confirmFirstEntry portfolio m.strategy
      call (.note (.confirmed s.entryHistory))
      pure { m with strategy := s }
  | observeLp hasPositions => pure { m with strategy := m.strategy.observeLp hasPositions }
  | recordLpHistory => do
      Runner.recordLpHistory
      pure m
  | register registered => do
      call (.writeRegistered registered)
      pure m
  | prepareObservationRevalidation =>
      pure { m with strategy := Recovery.prepareObservationRevalidation m.strategy }
  | invalidateObservationStreaks now =>
      pure { m with strategy := Recovery.invalidateObservationStreaks now m.strategy }
  | finishWorkflowRecovery paused invalidated =>
      pure { m with strategy := Recovery.finishWorkflowRecovery paused invalidated m.strategy }
  | pauseIncompleteInventory actualLayers paused invalidated =>
      pure { m with strategy := (Recovery.pauseIncompleteInventory actualLayers setup.config
        paused invalidated m.strategy).1 }

def commands (setup : Setup F) : List (Command F) → Memory F → Program F Unit
  | [], _ => pure ()
  | command :: rest, m => do
      let m ← command.run setup m
      call (.note (.stepped m.strategy.entryHistory))
      commands setup rest m

/-- A process loads the state and works on it until it ends. -/
def session (setup : Setup F) (list : List (Command F)) : Program F Unit := do
  let m ← load setup.config
  call (.note (.loaded m.strategy.entryHistory))
  commands setup list m

end Loop

end LpMaker.Runner
