import Mathlib
import LpMaker.Engine.Fingerprint
import LpMaker.Liquidity.Dust
import LpMaker.Semantics.Program

/-!
# The manual reset

An operator leaves the pool, proves twice that nothing is held, and only then archives and
clears the state directory. The maintenance marker is written first and removed last. Every
file operation takes effect as a whole, and the process may stop between any two of them.
-/

namespace LpMaker.Reset

open Semantics

inductive Step where
  | reconcile
  | cancelOrders
  | removeLp
  | sellBase
  | closeHedge
deriving DecidableEq

/-- The steps of `flatten`, in order. -/
def steps : List Step := [.reconcile, .cancelOrders, .removeLp, .sellBase, .closeHedge]

/-- One observation of the real balances. -/
structure Proof where
  lpIds : List String
  baseRaw : Nat
  baseDust : Option BaseDust
  hedgeSize : ℚ
  openOrders : Nat
  pending : Bool
  unresolvedOrders : Nat

def Proof.validate (proof : Proof) : Except String Unit := do
  ensure (proof.lpIds = [] ∧ proof.hedgeSize = 0 ∧ proof.openOrders = 0 ∧
      proof.pending = false ∧ proof.unresolvedOrders = 0)
    "仍有 LP/代币/合约/挂单或未决记录，未清空状态、未重启；请查看退出日志后再运行同一命令"
  if proof.baseRaw ≠ 0 then do
    let dust ← context proof.baseDust "基础币余额非零且没有本次核对的尾差证据，保留原状态"
    dust.validate proof.baseRaw
  else ensure (proof.baseDust = none) "zero balance has inconsistent dust evidence"

/-- The `stage` of the marker. -/
inductive Stage where
  | started
  | step (step : Step)
  | verifiedFlat
deriving DecidableEq

/-- `manual_reset.json`. -/
structure Marker where
  binding : Fingerprint
  stage : Stage
  retainedBaseDust : Option BaseDust
deriving DecidableEq

/-- `strategy_migration.json`. -/
structure MigrationMarker where
  schema : Nat
  profile : String
  configPath : String
  exitBinding : Fingerprint
  targetBinding : Fingerprint
deriving DecidableEq

/-- What a file holds, as far as the maintenance commands read it. -/
inductive Content where
  | null
  | marker (marker : Marker)
  | migration (marker : MigrationMarker)
  /-- The transport-independent fingerprint of the saved configuration. -/
  | config (fingerprint : Fingerprint)
  /-- A configuration in TOML, with the bytes which parsing ignores. -/
  | toml (comments : String) (settings : Settings)
  /-- Which orders of the ledger are terminal. -/
  | orders (terminal : List Bool)
  | other (text : String)
deriving DecidableEq

/-- An item inside a subdirectory. -/
inductive Item where
  | file (content : Content)
  | dir
  | symlink
  | special
deriving DecidableEq

/-- An entry of the state directory. The items of a subdirectory have relative paths. -/
inductive Node where
  | file (content : Content)
  | dir (items : List (List String × Item))
  | symlink
  | special
deriving DecidableEq

/-- What is left of a directory when only some of its items are kept. -/
def Node.keep (kept : List (List String × Item)) : Node → Node
  | .dir items => .dir (items.filter (· ∈ kept))
  | node => node

/-- The state directory. -/
abbrev Root := List (String × Node)

/-- Files with their paths, as a backup keeps them. -/
abbrev Files := List (List String × Content)

def markerName : String := "manual_reset.json"
def migrationMarkerName : String := "strategy_migration.json"
def lockName : String := "process.lock"

/-- What clearing the directory leaves in place, the reset marker apart. -/
def keptNames : List String := [lockName, migrationMarkerName]

/-- The files among the items of one subdirectory. -/
def itemFiles (directory : String) (items : List (List String × Item)) : Files :=
  items.filterMap fun item =>
    match item.2 with
    | .file content => some (directory :: item.1, content)
    | _ => none

namespace Root

/-- `Store::read` of a file which may hold `null`. -/
def read (root : Root) (name : String) : Except String (Option Content) :=
  match root.lookup name with
  | none | some (.file .null) => .ok none
  | some (.file content) => .ok (some content)
  | some _ => .error "not a file"

/-- `Store::write`, which replaces the file as a whole. -/
def write (root : Root) (name : String) (content : Content) : Root :=
  (name, .file content) :: root.filter (·.1 ≠ name)

def readMarker (root : Root) : Except String (Option Marker) := do
  match ← root.read markerName with
  | none => .ok none
  | some (.marker marker) => .ok (some marker)
  | some _ => .error "invalid marker"

def readConfig (root : Root) : Except String (Option Fingerprint) := do
  match ← root.read "config.json" with
  | none => .ok none
  | some (.config fingerprint) => .ok (some fingerprint)
  | some _ => .error "invalid config"

/-- How many orders of the ledger are not terminal. -/
def unresolved (root : Root) : Except String Nat := do
  match ← root.read "orders.json" with
  | none => .ok 0
  | some (.orders terminal) => .ok (terminal.count false)
  | some _ => .error "invalid ledger"

/-- The files of the directory, those of its subdirectories included. -/
def files (root : Root) : Files :=
  root.flatMap fun entry =>
    match entry.2 with
    | .file content => [([entry.1], content)]
    | .dir items => itemFiles entry.1 items
    | _ => []

/-- Only the directories of the archives are expected. -/
def validateStateDirectory (root : Root) : Except String Unit :=
  root.forM fun entry =>
    match entry.2 with
    | .dir _ => ensure (entry.1 = "event_archive" ∨ entry.1 = "order_archive")
        ("state directory contains an unexpected subdirectory; refusing to clear another " ++
          "strategy or its backups")
    | _ => .ok ()

/-- A normal run starts only when neither marker is there. -/
def mayRun (root : Root) : Except String Unit := do
  let migration ← root.read migrationMarkerName
  ensure (migration = none) "策略迁移尚未完成；保留记录，重新执行该次对应的切换命令，勿直接运行策略"
  let reset ← root.read markerName
  ensure (reset = none)
    "手工退出/清理尚未完成；保留记录，重新执行 reset-flat --execute，勿直接运行策略"

end Root

/-- What happened, for the statements about a run. No program reads it. -/
inductive Event where
  | marked
  | performed (step : Step)
  | observed (proof : Proof)
  | archived (backup : Files)
  /-- The directory before a removal, and the entry which was removed or partly removed. -/
  | removed (before : Root) (name : String)
  | cleared (left : Root)

/-- What outlives the process. The log has the latest event first. -/
structure World where
  root : Root
  backup : Files
  log : List Event

inductive Op where
  | list
  | readConfig
  | readMarker
  | writeMarker (marker : Marker)
  /-- Connect to the venues and take over their signers. -/
  | connect
  | perform (step : Step)
  | observe
  | appendEvent
  | writeProof (proof : Proof)
  | readPending
  | readUnresolved
  | createBackup
  | copyFile (path : List String) (content : Content)
  | syncBackup
  | removeFile (name : String)
  | removeDirAll (name : String)
  | removeMarker
  | syncRoot

@[reducible] def Op.Reply : Op → Type
  | list => Root
  | readConfig => Option Fingerprint
  | readMarker => Option Marker
  | observe => Proof
  | readPending => Bool
  | readUnresolved => Nat
  | _ => Unit

/-- What the environment chooses for one operation. -/
structure Input where
  succeeds : Bool
  /-- Whether a failing operation took effect. -/
  effective : Bool
  /-- Files which venue operations write through the store. -/
  files : List (String × Content)
  proof : Proof
  /-- The order in which a directory is listed. -/
  order : Root
  /-- What an interrupted removal of a directory leaves. -/
  items : List (List String × Item)

/-- The files which venue operations never write. -/
def protectedNames : List String := [markerName, "config.json", lockName, migrationMarkerName]

/-- Files written by venue operations. -/
def Root.apply (files : List (String × Content)) (root : Root) : Root :=
  (files.filter fun file => file.1 ∉ protectedNames).foldl
    (fun root file => root.write file.1 file.2) root

/-- The reply, or an input/output error. -/
def Input.reply {α : Type} (input : Input) (value : Except String α) : Except String α :=
  if input.succeeds then value else .error "input/output error"

/-- The effect of an operation which may fail before or after it. -/
def Input.effect (input : Input) (before after : World) : World :=
  if input.succeeds ∨ input.effective then after else before

def step : (op : Op) → Input → World → Except String op.Reply × World
  | .list, input, w =>
      (input.reply (.ok (if input.order.Perm w.root then input.order else w.root)), w)
  | .readConfig, input, w => (input.reply w.root.readConfig, w)
  | .readMarker, input, w => (input.reply w.root.readMarker, w)
  | .writeMarker marker, input, w =>
      (input.reply (.ok ()), input.effect w { w with
        root := w.root.write markerName (.marker marker)
        log := if marker.stage = .started then .marked :: w.log else w.log })
  | .connect, input, w => (input.reply (.ok ()), { w with root := w.root.apply input.files })
  | .perform step, input, w =>
      (input.reply (.ok ()),
        { w with
          root := w.root.apply input.files
          log := if input.succeeds then .performed step :: w.log else w.log })
  | .observe, input, w =>
      (input.reply (.ok input.proof),
        { w with
          root := w.root.apply input.files
          log := if input.succeeds then .observed input.proof :: w.log else w.log })
  | .appendEvent, input, w => (input.reply (.ok ()), { w with root := w.root.apply input.files })
  | .writeProof _, input, w =>
      (input.reply (.ok ()),
        input.effect w { w with root := w.root.write "manual_reset_proof.json" (.other "proof") })
  | .readPending, input, w =>
      (input.reply do
        let pending ← w.root.read "pending.json"
        .ok pending.isSome, w)
  | .readUnresolved, input, w => (input.reply w.root.unresolved, w)
  | .createBackup, input, w => (input.reply (.ok ()), { w with backup := [] })
  | .copyFile path content, input, w =>
      (input.reply (.ok ()), input.effect w { w with backup := (path, content) :: w.backup })
  | .syncBackup, input, w =>
      (input.reply (.ok ()),
        { w with log := if input.succeeds then .archived w.backup :: w.log else w.log })
  | .removeFile name, input, w =>
      (input.reply (.ok ()), input.effect w { w with
        root := w.root.filter (·.1 ≠ name)
        log := .removed w.root name :: w.log })
  | .removeDirAll name, input, w =>
      (input.reply (.ok ()), { w with
        root :=
          if input.succeeds then w.root.filter (·.1 ≠ name)
          else w.root.map fun entry => if entry.1 = name then (name, entry.2.keep input.items) else entry
        log := .removed w.root name :: w.log })
  | .removeMarker, input, w =>
      let root := w.root.filter (·.1 ≠ markerName)
      (input.reply (.ok ()),
        input.effect w { w with root := root, log := .cleared root :: w.log })
  | .syncRoot, input, w => (input.reply (.ok ()), w)

abbrev machine : Machine Op Op.Reply String World Input := ⟨step⟩

abbrev Program := Semantics.Program Op Op.Reply String

/-- Perform one operation and fail where it fails. -/
abbrev call (op : Op) : Program op.Reply := Semantics.Program.call op

/-- Announce a step in the marker, then perform it. -/
def flattenSteps (marker : Marker) : List Step → Program Marker
  | [] => pure marker
  | step :: rest => do
      let marker := { marker with stage := .step step }
      call (.writeMarker marker)
      call (.perform step)
      flattenSteps marker rest

/-- Observe the real balances `count` times in a row. -/
def verify : Nat → Option BaseDust → Program (Option BaseDust)
  | 0, retainedDust => pure retainedDust
  | count + 1, _ => do
      let proof ← call .observe
      call .appendEvent
      call (.writeProof proof)
      proof.validate
      verify count proof.baseDust

def flatten : Program (Option BaseDust) := do
  let marker ← call .readMarker
  let marker ← (context marker "missing reset marker" : Except String Marker)
  let marker ← flattenSteps marker steps
  let retainedDust ← verify 2 none
  call (.writeMarker { marker with stage := .verifiedFlat, retainedBaseDust := retainedDust })
  pure retainedDust

/-- Copy one item of a subdirectory. A lock is skipped with everything below it. -/
def copyItem (directory : String) (path : List String) (item : Item) : Program Unit :=
  if lockName ∈ path.dropLast then pure ()
  else
    match item with
    | .symlink => Semantics.Program.throw "state contains symlink; refusing reset"
    | .file content =>
        if path.getLast? = some lockName then pure ()
        else call (.copyFile (directory :: path) content)
    | .dir => pure ()
    | .special =>
        if path.getLast? = some lockName then pure ()
        else Semantics.Program.throw "unexpected state file type"

def copyItems (directory : String) : List (List String × Item) → Program Unit
  | [] => pure ()
  | (path, item) :: rest => do
      copyItem directory path item
      copyItems directory rest

/-- Copy one entry of the state directory. -/
def copyNode (name : String) (node : Node) : Program Unit :=
  match node with
  | .symlink => Semantics.Program.throw "state contains symlink; refusing reset"
  | .file content => if name = lockName then pure () else call (.copyFile [name] content)
  | .dir items => if name = lockName then pure () else copyItems name items
  | .special =>
      if name = lockName then pure ()
      else Semantics.Program.throw "unexpected state file type"

/-- Copy the state directory into a new backup. -/
def copyTree : Root → Program Unit
  | [] => pure ()
  | (name, node) :: rest => do
      copyNode name node
      copyTree rest

/-- Remove one entry, unless it is the lock or a marker. -/
def clearNode (name : String) (node : Node) : Program Unit :=
  if name = lockName ∨ name = markerName ∨ name = migrationMarkerName then pure ()
  else
    match node with
    | .dir _ => call (.removeDirAll name)
    | _ => call (.removeFile name)

def clear : Root → Program Unit
  | [] => pure ()
  | (name, node) :: rest => do
      clearNode name node
      clear rest

def archiveAndClear : Program Unit := do
  let pending ← call .readPending
  let unresolved ← call .readUnresolved
  (ensure (pending = false ∧ unresolved = 0) "unsettled state cannot be reset" :
    Except String Unit)
  let marker ← call .readMarker
  (ensure (marker.any (·.stage = .verifiedFlat)) "flat verification required before reset" :
    Except String Unit)
  call .createBackup
  let entries ← call .list
  copyTree entries
  call .syncBackup
  let entries ← call .list
  clear entries
  call .removeMarker
  call .syncRoot

/-- Take over an existing marker of the same configuration, or write the first one. -/
def claim (binding : Fingerprint) (marker : Option Marker) : Program Unit :=
  match marker with
  | some marker =>
      (ensure (marker.binding = binding) "reset belongs to another configuration" :
        Except String Unit)
  | none => call (.writeMarker ⟨binding, .started, none⟩)

/-- `reset-flat --execute` with a live configuration of this fingerprint. -/
def request (binding : Fingerprint) : Program (Option BaseDust) := do
  let entries ← call .list
  entries.validateStateDirectory
  let saved ← call .readConfig
  (ensure (saved.all (· = binding)) "reset config differs from saved state" :
    Except String Unit)
  let marker ← call .readMarker
  claim binding marker
  call .connect
  let retainedDust ← flatten
  archiveAndClear
  pure retainedDust

end LpMaker.Reset
