import LpMaker.Engine.Reset

/-!
# The strategy switch

The old parameters leave the pool and clear the state directory; only then is the new
configuration put in place by a rename. The migration marker is written before the exit and
removed after the rename. Every file operation takes effect as a whole, and the process may
stop between any two of them.
-/

namespace LpMaker.Migration

open Semantics
open Reset (Content Root MigrationMarker lockName migrationMarkerName)

/-- What one command line fixes, with the checks and templates of the program. -/
structure Site where
  /-- The strategy sections of the two embedded templates. -/
  template : Bool → String
  /-- `Config::validate`. -/
  validate : Settings → Except String Unit
  /-- The canonical path of the configuration file, and its name. -/
  path : String
  name : String
  /-- Whether the configuration file lies in the state directory. -/
  shared : Bool

structure Plan where
  band : Bool
  exit : Settings
  target : Settings
  marker : MigrationMarker

/-- `PROFILE` and `BAND_PROFILE`. -/
def profile (band : Bool) : String :=
  if band then "robinhood-eth-band-200-v1" else "robinhood-eth-persistent-dd5-200"

/-- `strategy_migration.json`, with `None` where it is absent. -/
def readMigration (root : Root) : Except String (Option MigrationMarker) := do
  match ← root.read migrationMarkerName with
  | none => .ok none
  | some (.migration marker) => .ok (some marker)
  | some _ => .error "invalid migration marker"

/-- The pool and the account which both templates are made for. -/
def supported (current : Settings) : Except String Unit :=
  ensure (current.mode = .live ∧ current.liquidity.chainId = 4663 ∧
      eqIgnoreAsciiCase current.liquidity.pool "0x52e65B17fB6E5BA00Ed806f37Afcd2DaA50271Ca" ∧
      current.hyperliquid.mainnet = true ∧ current.hyperliquid.hedgeCoin = "ETH")
    "此切换命令仅支持 Robinhood WETH/USDG 池与主网 Hyperliquid ETH 实盘"

/-- The server's own configuration with the strategy and margin of the template. -/
def Site.target (site : Site) (band : Bool) (current : Settings) : Settings :=
  { current with strategy := site.template band, leverage := 3, crossMargin := true }

/-- The configuration under which the old positions were opened. -/
def exitSettings (current : Settings) (old : Fingerprint) : Except String Settings := do
  let strategy ← context old.strategy "旧状态缺少可恢复的策略参数"
  let crossMargin ← context old.crossMargin "invalid cross_margin"
  let leverage ← context old.leverage "invalid leverage"
  .ok { current with strategy, crossMargin, leverage }

/-- Where the old binding is known, the exit must belong to it; without one only a new state
directory is accepted. -/
def exitFor (current : Settings) (root : Root) (old : Option Fingerprint)
    (previous : Option MigrationMarker) (reset : Option Reset.Marker) : Except String Settings :=
  match old with
  | some old => do
      let exit ← exitSettings current old
      ensure (exit.fingerprint = old) "旧状态与当前账户/链/交易参数不一致；未发送交易，不能自动迁移"
      ensure (previous.all (·.exitBinding = old)) "迁移与旧状态绑定不一致"
      ensure (reset.all (·.binding = old)) "退出流程与旧状态绑定不一致"
      .ok exit
  | none => do
      ensure (∀ entry ∈ root, entry.1 = lockName)
        "状态目录有记录但缺少配置绑定；请恢复备份后对账，不要删除交易记录"
      .ok current

def planFor (site : Site) (root : Root) (band : Bool) (current : Settings) :
    Except String Plan := do
  supported current
  let target := site.target band current
  site.validate target
  let previous ← readMigration root
  ensure (previous.all fun marker => marker.schema = 1 ∧ marker.profile = profile band ∧
      marker.configPath = site.path ∧ marker.targetBinding = target.fingerprint)
    "存在另一项未完成迁移；保留记录并使用原配置继续"
  let saved ← root.readConfig
  let reset ← root.readMarker
  -- The marker of a reset keeps the binding after `config.json` has been removed.
  let old := saved <|> reset.map (·.binding) <|> previous.map (·.exitBinding)
  let exit ← exitFor current root old previous reset
  site.validate exit
  .ok { band, exit, target
        marker := ⟨1, profile band, site.path, exit.fingerprint, target.fingerprint⟩ }

/-- What happened, for the statements about a run. No program reads it. -/
inductive Event where
  /-- Somebody else wrote the configuration file. -/
  | edited (content : Content)
  | marked (reset : List Reset.Event)
  | installed (content : Content) (reset : List Reset.Event)
  | finished (left : Root)

/-- The directory of the configuration file and the state directory. -/
structure World where
  home : Root
  state : Reset.World
  log : List Event

/-- The directory which holds the configuration file. -/
def World.directory (site : Site) (w : World) : Root := if site.shared then w.state.root else w.home

def World.setDirectory (site : Site) (w : World) (root : Root) : World :=
  if site.shared then { w with state := { w.state with root } } else { w with home := root }

inductive Op where
  | readConfig
  | readState
  | stage (content : Content)
  /-- Write into the new directory under `operator-logs`. -/
  | saveBackup (name : String) (content : Content)
  | syncBackup
  /-- The two parts of `Store::write`. -/
  | writeTemporary
  | writeMarker (marker : MigrationMarker)
  | reset (op : Reset.Op)
  | readMarker
  | install (staged : String)
  | syncParent
  | removeMarker
  | syncRoot
  | unstage (staged : String)

@[reducible] def Op.Reply : Op → Type
  | readConfig => Content
  | readState => Root
  | stage _ => String
  | reset op => op.Reply
  | readMarker => Option MigrationMarker
  | _ => Unit

/-- What the environment chooses for one operation. -/
structure Input where
  succeeds : Bool
  /-- Whether a failing operation took effect. -/
  effective : Bool
  /-- A change to the configuration file since it was last looked at. -/
  edit : Option Content
  /-- The fresh part of the name of a staged file. -/
  staged : String
  reset : Reset.Input

/-- The reply, or an input/output error. -/
def Input.reply {α : Type} (input : Input) (value : Except String α) : Except String α :=
  if input.succeeds then value else .error "input/output error"

/-- The effect of an operation which may fail before or after it. -/
def Input.effect (input : Input) (before after : World) : World :=
  if input.succeeds ∨ input.effective then after else before

def temporaryName : String := "strategy_migration.json.tmp"

/-- An operator may have written the configuration file. -/
def World.edit (site : Site) (w : World) : Option Content → World
  | none => w
  | some content =>
      { w.setDirectory site ((w.directory site).write site.name content) with
        log := .edited content :: w.log }

/-- `read_regular`. -/
def readRegular (root : Root) (name : String) : Except String Content :=
  match root.lookup name with
  | some (.file content) => .ok content
  | some _ => .error "配置文件必须为普通文件，不能是符号链接"
  | none => .error "not found"

/-- Replace the configuration file by the staged one. -/
def World.install (site : Site) (w : World) (content : Content) (staged : String) : World :=
  { w.setDirectory site
      (Root.write ((w.directory site).filter (·.1 ≠ staged)) site.name content) with
    log := .installed content w.state.log :: w.log }

/-- Put the written marker in place. -/
def World.mark (w : World) (marker : MigrationMarker) : World :=
  let written := w.state.root.filter (·.1 ≠ temporaryName)
  { w with
    state := { w.state with root := Root.write written migrationMarkerName (.migration marker) }
    log := .marked w.state.log :: w.log }

/-- Remove the marker. -/
def World.finish (w : World) : World :=
  let left := w.state.root.filter (·.1 ≠ migrationMarkerName)
  { w with state := { w.state with root := left }, log := .finished left :: w.log }

def step (site : Site) : (op : Op) → Input → World → Except String op.Reply × World
  | .readConfig, input, w =>
      (input.reply (readRegular ((w.edit site input.edit).directory site) site.name),
        w.edit site input.edit)
  | .readState, input, w => (input.reply (.ok w.state.root), w)
  | .stage content, input, w =>
      -- `create_new` refuses an existing file.
      if ((w.directory site).lookup input.staged).isSome then (.error "file exists", w)
      else (input.reply (.ok input.staged),
        input.effect w (w.setDirectory site ((w.directory site).write input.staged content)))
  | .saveBackup _ _, input, w | .syncBackup, input, w => (input.reply (.ok ()), w)
  | .writeTemporary, input, w =>
      (input.reply (.ok ()), input.effect w { w with
        state := { w.state with root := w.state.root.write temporaryName (.other "") } })
  | .writeMarker marker, input, w => (input.reply (.ok ()), input.effect w (w.mark marker))
  | .reset op, input, w =>
      ((Reset.step op input.reset w.state).1,
        { w with state := (Reset.step op input.reset w.state).2 })
  | .readMarker, input, w => (input.reply (readMigration w.state.root), w)
  | .install staged, input, w =>
      match readRegular (w.directory site) staged with
      | .error error => (.error error, w)
      | .ok content => (input.reply (.ok ()), input.effect w (w.install site content staged))
  | .syncParent, input, w | .syncRoot, input, w => (input.reply (.ok ()), w)
  | .removeMarker, input, w => (input.reply (.ok ()), input.effect w w.finish)
  | .unstage staged, input, w =>
      (input.reply (.ok ()), input.effect w
        (w.setDirectory site ((w.directory site).filter (·.1 ≠ staged))))

abbrev machine (site : Site) : Machine Op Op.Reply String World Input := ⟨step site⟩

abbrev Program := Semantics.Program Op Op.Reply String

/-- Perform one operation and fail where it fails. -/
abbrev call (op : Op) : Program op.Reply := Semantics.Program.call op

/-- The settings which a configuration file holds. -/
def parse : Content → Except String Settings
  | .toml _ settings => .ok settings
  | _ => .error "invalid configuration"

/-- The configuration file which a switch installs. -/
def render (target : Settings) : Content :=
  .toml "# Robinhood ETH 策略；由显式迁移命令在确认空仓后安装。" target

/-- The `status` which a finished reset reports. -/
def status (retainedDust : Option BaseDust) : String :=
  if retainedDust.isSome then "flat_with_base_dust_and_reset" else "flat_and_reset"

/-- The reset of the state directory as a part of the switch. -/
def exit (settings : Settings) : Program (Option BaseDust) :=
  (Reset.request settings.fingerprint).embed .reset fun _ => id

/-- From the backup of the configuration to the end of the migration. -/
def switch (p : Plan) (original : Content) (staged : String) : Program Unit := do
  call (.saveBackup "config-before.toml" original)
  call (.saveBackup "exit-config.toml" (.toml "" p.exit))
  call .syncBackup
  call .writeTemporary
  call (.writeMarker p.marker)
  let flat ← exit p.exit
  (ensure (status flat = "flat_and_reset" ∨ status flat = "flat_with_base_dust_and_reset")
    "退出结果尚未确认空仓；不更新策略" : Except String Unit)
  let entries ← call .readState
  (ensure (∀ entry ∈ entries, entry.1 = lockName ∨ entry.1 = migrationMarkerName)
    "旧状态清理尚未完成；保留迁移标记，不更新策略" : Except String Unit)
  let marker ← call .readMarker
  (ensure (marker = some p.marker) "迁移标记缺失或发生变化；不更新策略" : Except String Unit)
  let again ← call .readConfig
  (ensure (again = original)
    "平仓期间配置文件被修改；已保留空仓备份及迁移标记，请核对后重新执行切换命令" :
    Except String Unit)
  call (.install staged)
  call .syncParent
  call .removeMarker
  call .syncRoot

def executePlan (site : Site) (p : Plan) : Program Unit := do
  let original ← call .readConfig
  let disk ← parse original
  let root ← call .readState
  let latest ← planFor site root p.band disk
  (ensure (latest.marker = p.marker ∧ latest.target = p.target)
    "读取配置后文件发生变化；未执行平仓，请重新运行命令" : Except String Unit)
  let staged ← call (.stage (render p.target))
  let result ← (switch p original staged).attempt
  let _ ← (Semantics.Program.tryCall (Op.unstage staged) : Program (Except String Unit))
  result

/-- The command with `--execute`, for one of the two profiles. -/
def requestFor (site : Site) (band : Bool) : Program Unit := do
  let content ← call .readConfig
  let current ← parse content
  site.validate current
  let root ← call .readState
  let p ← planFor site root band current
  executePlan site p

end LpMaker.Migration
