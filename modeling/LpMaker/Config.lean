import Mathlib
import LpMaker.Numeric.F64
import LpMaker.Semantics.Result

/-!
# Configuration and its validation

`Config.validate` follows the checks of the source in their order. Parsing of
addresses and endpoint URLs belongs to external crates and is a parameter.
`Config.Accepted` collects what the later modules use of a validated
configuration.
-/

namespace LpMaker

/-- ASCII case-insensitive equality, `eq_ignore_ascii_case`. -/
def eqIgnoreAsciiCase (left right : String) : Bool :=
  left.toList.map Char.toLower == right.toList.map Char.toLower

/-- The parts of a parsed endpoint that validation reads. -/
structure Url where
  scheme : String
  hostStr : Option String

/-- External parsers. -/
structure Parsers where
  url : String → Option Url
  isAddress : String → Bool

inductive Mode where
  | paper
  | live
deriving DecidableEq

structure HyperliquidConfig where
  httpUrl : String
  wsUrl : String
  hedgeCoin : String
  account : Option String
  vault : Option String
  leverage : Nat
  crossMargin : Bool
  makerWaitSeconds : Nat
  emergencySlippageBps : Nat

structure LiquidityConfig (F : Type) where
  kind : String
  chainId : Nat
  rpcUrl : String
  archiveRpcUrl : Option String
  rpcMinIntervalMs : Nat
  wsUrl : String
  owner : Option String
  nonceRefreshSeconds : Nat
  pendingWarnSeconds : Nat
  pool : String
  factory : String
  positionManager : String
  swapRouter : String
  baseToken : String
  quoteToken : String
  baseDecimals : Nat
  quoteDecimals : Nat
  fee : Nat
  confirmations : Nat
  slippageBps : Nat
  deadlineSeconds : Nat
  maxGasNative : F
  gasFeeBufferBps : Nat
  gasLimitBufferBps : Nat
  maxQuoteAgeSeconds : Nat

structure RuntimeConfig where
  readRetrySeconds : Nat
  observationTimeoutSeconds : Nat

structure StorageConfig where
  eventSegmentBytes : Nat
  eventRetainedSegments : Nat
  terminalOrdersKeep : Nat
  orderArchiveMaxBytes : Nat
  minFreeBytes : Nat

structure WebSocketConfig where
  heartbeatSeconds : Nat
  heartbeatTimeoutSeconds : Nat
  idleTimeoutSeconds : Nat
  connectTimeoutSeconds : Nat
  writeTimeoutSeconds : Nat
  reconnectInitialMs : Nat
  reconnectMaxSeconds : Nat

structure MonitoringConfig where
  hyperliquidIntervalSeconds : Nat
  robinhoodIntervalSeconds : Nat
  hyperliquidRefreshSeconds : Nat
  robinhoodRefreshSeconds : Nat
  refreshTimeoutSeconds : Nat

structure LoggingConfig where
  retainedFiles : Nat

/-- Limits of the single-range net-exposure profile. -/
structure BandConfig (F : Type) where
  lowerWidth : F
  upperWidth : F
  netLowerUsd : F
  netUpperUsd : F
  minimumHoldingHours : Nat
  rollDelaySeconds : Nat
  episodeDrawdown : F
  pauseDrawdown : F
  reentryLossBudget : F

/-- The long-running ETH profile, optionally restricted to one band. -/
structure PersistentConfig (F : Type) where
  band : Option (BandConfig F)
  drop24h : F
  drop72h : F
  maxHourlyVol : F
  hedgeIntervalHours : Nat

structure LayerConfig (F : Type) where
  name : String
  weight : F
  halfWidth : F

structure StrategyConfig (F : Type) where
  ethPersistent : Option (PersistentConfig F)
  totalCapital : F
  lpBudget : F
  hedgeCollateral : F
  reserve : F
  insideHedgeRatio : F
  hedgeDeadbandUsd : F
  maxDrawdown : F
  maxBasisBps : F
  maxDataAgeSeconds : Nat
  fastDrop1h : F
  volShortHours : Nat
  volLongHours : Nat
  volPauseRatio : F
  volResumeRatio : F
  emaFastHours : Nat
  emaSlowHours : Nat
  resumeHealthyHours : Nat
  cooldownHours : Nat
  recoveryFraction : F
  recoveryStepHours : Nat
  breakoutBuffer : F
  breakoutConfirmBars : Nat
  decisionBarSeconds : Nat
  hedgeReleaseBuffer : F
  layers : List (LayerConfig F)

structure Config (F : Type) where
  mode : Mode
  pollSeconds : Nat
  hyperliquid : HyperliquidConfig
  liquidity : LiquidityConfig F
  strategy : StrategyConfig F
  websocket : WebSocketConfig
  monitoring : MonitoringConfig
  logging : LoggingConfig
  runtime : RuntimeConfig
  storage : StorageConfig

namespace Chains

/-- A supported chain and its deployment. -/
structure Chain where
  id : Nat
  factory : String
  positionManager : String
  swapRouter : String

/-- A registered pool, whose contracts may not be exchanged silently. -/
structure Pool where
  chain : Chain
  id : String
  address : String
  baseToken : String
  quoteToken : String
  hedgeCoin : String
  baseDecimals : Nat
  quoteDecimals : Nat
  fee : Nat

def robinhood : Chain where
  id := 4663
  factory := "0x1f7d7550b1b028f7571e69a784071f0205fd2efa"
  positionManager := "0x73991a25c818bf1f1128deaab1492d45638de0d3"
  swapRouter := "0xcaf681a66d020601342297493863e78c959e5cb2"

def base : Chain where
  id := 8453
  factory := "0x33128a8fC17869897dcE68Ed026d694621f6FDfD"
  positionManager := "0x03a520b32C04BF3bEEf7BEb72E919cf822Ed34f1"
  swapRouter := "0x2626664c2603336E57B271c5C0b26F421741e481"

def wethUsdg : Pool where
  chain := robinhood
  id := "robinhood/weth-usdg-100"
  address := "0x52e65B17fB6E5BA00Ed806f37Afcd2DaA50271Ca"
  baseToken := "0x0Bd7D308f8E1639FAb988df18A8011f41EAcAD73"
  quoteToken := "0x5fc5360d0400a0fd4f2af552add042d716f1d168"
  hedgeCoin := "ETH"
  baseDecimals := 18
  quoteDecimals := 6
  fee := 100

def wethUsdc : Pool where
  chain := base
  id := "base/weth-usdc-3000"
  address := "0x6c561B446416E1A00E8E93E221854d6eA4171372"
  baseToken := "0x4200000000000000000000000000000000000006"
  quoteToken := "0x833589fCD6eDb6E08f4c7C32D4f71b54bdA02913"
  hedgeCoin := "ETH"
  baseDecimals := 18
  quoteDecimals := 6
  fee := 3000

variable {F : Type}

/-- The registered pool a configuration points at. -/
def pool (c : LiquidityConfig F) : Option Pool :=
  [wethUsdg, wethUsdc].find? fun p =>
    p.chain.id == c.chainId && eqIgnoreAsciiCase p.address c.pool

/-- A registered pool admits no other tokens, fee or router. -/
def validatePool (c : LiquidityConfig F) : Except String Unit :=
  match pool c with
  | none => .ok ()
  | some p => do
      [(c.factory, p.chain.factory), (c.positionManager, p.chain.positionManager),
        (c.swapRouter, p.chain.swapRouter), (c.baseToken, p.baseToken),
        (c.quoteToken, p.quoteToken)].forM fun (actual, expected) =>
          ensure (eqIgnoreAsciiCase actual expected)
            ("registered pool contract mismatch: " ++ p.id)
      ensure (c.fee = p.fee ∧ c.baseDecimals = p.baseDecimals ∧
          c.quoteDecimals = p.quoteDecimals)
        ("registered pool fee/decimals mismatch: " ++ p.id)

end Chains

variable {F : Type} [F64 F]

open F64 (isFinite)

/-- Limits of the band profile, checked against the whole configuration. -/
def BandConfig.validate (b : BandConfig F) (c : Config F) : Except String Unit := do
  ensure (c.liquidity.chainId = Chains.robinhood.id ∧
      eqIgnoreAsciiCase c.liquidity.pool "0x52e65B17fB6E5BA00Ed806f37Afcd2DaA50271Ca")
    "ETH band profile is limited to the reviewed Robinhood pool"
  ensure (∀ v ∈ [b.lowerWidth, b.upperWidth], isFinite v ∧ v > 0.001 ∧ v ≤ 0.08)
    "band boundaries must be within 8% of entry quote"
  ensure (isFinite b.netLowerUsd ∧ isFinite b.netUpperUsd ∧ b.netLowerUsd ≤ 0 ∧
      b.netUpperUsd > 0)
    "invalid net exposure band"
  ensure ((1 ≤ b.minimumHoldingHours ∧ b.minimumHoldingHours ≤ 720) ∧
      1 ≤ b.rollDelaySeconds ∧ b.rollDelaySeconds ≤ 300)
    "invalid band holding/roll time"
  ensure (∀ v ∈ [b.episodeDrawdown, b.pauseDrawdown, b.reentryLossBudget],
      isFinite v ∧ v > 0 ∧ v < c.strategy.maxDrawdown)
    "invalid band drawdown thresholds"
  ensure (c.strategy.totalCapital = 200 ∧ c.strategy.lpBudget = 120 ∧
      c.strategy.hedgeCollateral = 60 ∧ c.strategy.reserve = 20 ∧
      c.strategy.layers.length = 1 ∧ ∀ l ∈ c.strategy.layers.head?, l.halfWidth ≤ 0.08)
    "reviewed band profile requires 200 = 120 LP + 60 hedge + 20 reserve and one bounded layer"

/-- Limits of the persistent ETH profile, checked against the whole configuration. -/
def PersistentConfig.validate (profile : PersistentConfig F) (c : Config F) :
    Except String Unit := do
  let s := c.strategy
  ensure (c.hyperliquid.hedgeCoin = "ETH" ∧ c.liquidity.kind = "uniswap_v3")
    "persistent profile only supports EVM ETH Uniswap v3"
  ensure c.hyperliquid.crossMargin
    "persistent ETH requires dedicated cross margin; unattended isolated margin is not modeled"
  ensure (s.maxDrawdown ≤ 0.05) "persistent ETH drawdown cap cannot exceed 5%"
  ensure (s.layers.length = 1 ∧ s.insideHedgeRatio ≥ 0.35)
    "persistent ETH requires one LP layer and at least 35% inventory hedge"
  ensure ((∀ x ∈ [profile.drop24h, profile.drop72h, profile.maxHourlyVol],
        isFinite x ∧ x > 0 ∧ x < 1) ∧
      profile.drop24h ≤ profile.drop72h ∧
      (1 ≤ profile.hedgeIntervalHours ∧ profile.hedgeIntervalHours ≤ 24) ∧
      1 ≤ s.cooldownHours ∧ s.cooldownHours ≤ 168)
    "invalid persistent ETH risk parameters"
  match profile.band with
  | some band => band.validate c
  | none => .ok ()

namespace Config

/-- An endpoint must use one of the schemes and name a host. -/
def validateUrl (parsers : Parsers) (url : String) (schemes : List String) :
    Except String Unit := do
  let parsed ← context (parsers.url url) "invalid endpoint URL"
  ensure (parsed.scheme ∈ schemes ∧ parsed.hostStr.isSome) "unsupported endpoint protocol"

/-- The runtime, storage and endpoint checks, which `validate` makes first. -/
def validateRuntime (parsers : Parsers) (c : Config F) : Except String Unit := do
  ensure ((1 ≤ c.liquidity.gasFeeBufferBps ∧ c.liquidity.gasFeeBufferBps ≤ 40000) ∧
      1 ≤ c.liquidity.gasLimitBufferBps ∧ c.liquidity.gasLimitBufferBps ≤ 10000)
    "gas fee buffer must be 1..=40000 bps; gas limit buffer must be 1..=10000 bps"
  ensure (c.runtime.readRetrySeconds > 0 ∧ c.runtime.readRetrySeconds ≤ 300 ∧
      c.runtime.observationTimeoutSeconds > 0 ∧
      c.runtime.observationTimeoutSeconds ≤ c.strategy.maxDataAgeSeconds ∧
      c.liquidity.maxQuoteAgeSeconds > 0)
    "invalid observation/retry limits"
  ensure (c.storage.eventSegmentBytes ≥ 1024 ∧ c.storage.eventRetainedSegments > 0 ∧
      c.storage.terminalOrdersKeep > 0 ∧ c.storage.orderArchiveMaxBytes ≥ 1024)
    "invalid storage retention limits"
  validateUrl parsers c.hyperliquid.httpUrl ["https", "http"]
  validateUrl parsers c.hyperliquid.wsUrl ["wss", "ws"]
  validateUrl parsers c.liquidity.rpcUrl ["https", "http", "wss", "ws"]
  ensure (1 ≤ c.liquidity.rpcMinIntervalMs ∧ c.liquidity.rpcMinIntervalMs ≤ 5000)
    "rpc_min_interval_ms must be 1..=5000"
  validateUrl parsers c.liquidity.wsUrl ["wss", "ws"]
  match c.liquidity.archiveRpcUrl with
  | some url => validateUrl parsers url ["http", "https", "ws", "wss"]
  | none => .ok ()
  let w := c.websocket
  ensure (w.heartbeatSeconds > 0 ∧ w.heartbeatTimeoutSeconds > w.heartbeatSeconds ∧
      w.idleTimeoutSeconds > w.heartbeatSeconds ∧ w.connectTimeoutSeconds > 0 ∧
      w.writeTimeoutSeconds > 0 ∧ w.reconnectInitialMs > 0 ∧
      w.reconnectInitialMs ≤ min (w.reconnectMaxSeconds * 1000) (2 ^ 64 - 1))
    "invalid websocket lifecycle settings"
  ensure (c.monitoring.hyperliquidIntervalSeconds > 0 ∧
      c.monitoring.robinhoodIntervalSeconds > 0 ∧
      c.monitoring.hyperliquidRefreshSeconds > 0 ∧
      c.monitoring.robinhoodRefreshSeconds > 0 ∧
      c.monitoring.refreshTimeoutSeconds > 0 ∧ c.liquidity.nonceRefreshSeconds > 0 ∧
      c.liquidity.pendingWarnSeconds > 0 ∧ c.logging.retainedFiles > 0)
    "invalid monitoring/lifecycle settings"
  [c.hyperliquid.account, c.hyperliquid.vault, c.liquidity.owner].reduceOption.forM fun a =>
    ensure (parsers.isAddress a) "invalid account address"

/-- The budget, window and layer checks of `validate`. -/
def validateStrategy (c : Config F) : Except String Unit := do
  let s := c.strategy
  [s.totalCapital, s.lpBudget, s.hedgeCollateral, s.hedgeDeadbandUsd, s.maxBasisBps,
    c.liquidity.maxGasNative].forM fun v =>
      ensure (isFinite v ∧ v > 0) "positive finite budget/limit required"
  ensure (isFinite s.reserve ∧ s.reserve ≥ 0) "invalid reserve"
  ensure (s.lpBudget + s.hedgeCollateral + s.reserve ≤ s.totalCapital + 1e-6)
    "budgets exceed total capital"
  [s.maxDrawdown, s.fastDrop1h, s.recoveryFraction].forM fun v =>
    ensure (isFinite v ∧ v > 0 ∧ v ≤ 1) "invalid fractional limit"
  ensure (0 ≤ s.insideHedgeRatio ∧ s.insideHedgeRatio ≤ 1) "invalid hedge ratio"
  ensure (s.volShortHours ≥ 2 ∧ s.volLongHours > s.volShortHours ∧ s.volLongHours < 4000)
    "invalid volatility windows"
  ensure (s.emaFastHours > 1 ∧ s.emaSlowHours > s.emaFastHours ∧ s.emaSlowHours < 4000)
    "invalid EMA windows"
  ensure (s.volResumeRatio > 0 ∧ s.volPauseRatio > s.volResumeRatio ∧ isFinite s.volPauseRatio)
    "invalid volatility hysteresis"
  ensure (isFinite s.breakoutBuffer ∧ 0 ≤ s.breakoutBuffer ∧ s.breakoutBuffer < 0.2)
    "invalid breakout buffer"
  ensure (isFinite s.hedgeReleaseBuffer ∧ 0 ≤ s.hedgeReleaseBuffer ∧ s.hedgeReleaseBuffer < 0.2)
    "invalid hedge release"
  ensure (s.resumeHealthyHours > 0 ∧ s.recoveryStepHours > 0 ∧ s.breakoutConfirmBars > 0 ∧
      s.decisionBarSeconds > 0)
    "zero confirmation period"
  ensure (c.pollSeconds > 0 ∧ s.maxDataAgeSeconds > c.pollSeconds) "invalid poll/stale interval"
  ensure (s.layers ≠ [] ∧ ∀ x ∈ s.layers, isFinite x.weight ∧ x.weight > 0 ∧
      isFinite x.halfWidth ∧ x.halfWidth > 0.001 ∧
      (x.halfWidth < 1 ∨ s.ethPersistent.isSome ∧ x.halfWidth ≤ 9))
    "invalid layers"
  ensure (|(s.layers.map LayerConfig.weight).sum - 1| < 1e-8) "layer weights must sum to one"
  ensure (s.layers.map LayerConfig.name).Nodup "duplicate layer name"
  ensure (c.hyperliquid.leverage > 0 ∧ c.hyperliquid.leverage ≤ 3)
    "strategy leverage capped at 3x"
  match s.ethPersistent with
  | some profile => profile.validate c
  | none => .ok ()

/-- The venue and contract checks, which `validate` makes last. -/
def validateVenues (parsers : Parsers) (c : Config F) : Except String Unit := do
  ensure (c.hyperliquid.makerWaitSeconds > 0) "maker wait must be positive"
  ensure (c.hyperliquid.emergencySlippageBps > 0 ∧ c.hyperliquid.emergencySlippageBps ≤ 100 ∧
      c.liquidity.slippageBps > 0 ∧ c.liquidity.slippageBps ≤ 100)
    "slippage must be in 1..100 bps"
  ensure (c.liquidity.kind = "uniswap_v3") "unsupported liquidity adapter"
  ensure (c.liquidity.confirmations > 0 ∧ c.liquidity.deadlineSeconds ≥ 30)
    "invalid chain finality/deadline"
  [c.liquidity.pool, c.liquidity.factory, c.liquidity.positionManager, c.liquidity.swapRouter,
    c.liquidity.baseToken, c.liquidity.quoteToken].forM fun a =>
      ensure (parsers.isAddress a) "invalid contract address"
  ensure (!eqIgnoreAsciiCase c.liquidity.baseToken c.liquidity.quoteToken) "same pool tokens"
  ensure (c.liquidity.baseDecimals ≤ 24 ∧ c.liquidity.quoteDecimals ≤ 24 ∧
      c.liquidity.fee < 1000000)
    "invalid token configuration"
  if c.mode = .live then
    ensure c.hyperliquid.account.isSome "live requires Hyperliquid account owner address"
  Chains.validatePool c.liquidity
  match Chains.pool c.liquidity with
  | some pool =>
      ensure (c.hyperliquid.hedgeCoin = pool.hedgeCoin)
        "pool base asset must match Hyperliquid hedge coin"
  | none => .ok ()

/-- Every check made before a configuration is used. -/
def validate (parsers : Parsers) (c : Config F) : Except String Unit := do
  validateRuntime parsers c
  validateStrategy c
  validateVenues parsers c

end Config

/-- What the evaluators and executors use of a validated configuration. -/
structure StrategyConfig.Accepted (s : StrategyConfig F) : Prop where
  totalCapital_pos : 0 < s.totalCapital
  lpBudget_pos : 0 < s.lpBudget
  hedgeCollateral_pos : 0 < s.hedgeCollateral
  reserve_nonneg : 0 ≤ s.reserve
  maxDrawdown_pos : 0 < s.maxDrawdown
  maxDrawdown_le_one : s.maxDrawdown ≤ 1
  recoveryFraction_pos : 0 < s.recoveryFraction
  recoveryFraction_le_one : s.recoveryFraction ≤ 1
  volShortHours_ge : 2 ≤ s.volShortHours
  volLongHours_gt : s.volShortHours < s.volLongHours
  resumeHealthyHours_pos : 0 < s.resumeHealthyHours
  recoveryStepHours_pos : 0 < s.recoveryStepHours
  breakoutConfirmBars_pos : 0 < s.breakoutConfirmBars
  decisionBarSeconds_pos : 0 < s.decisionBarSeconds
  layers_ne_nil : s.layers ≠ []
  weight_pos : ∀ x ∈ s.layers, 0 < x.weight
  halfWidth_gt : ∀ x ∈ s.layers, 0.001 < x.halfWidth
  weights_sum : |(s.layers.map LayerConfig.weight).sum - 1| < 1e-8
  names_nodup : (s.layers.map LayerConfig.name).Nodup

/-- What a validated configuration says about its band profile. -/
structure BandConfig.Accepted (b : BandConfig F) (s : StrategyConfig F) : Prop where
  lowerWidth_gt : 0.001 < b.lowerWidth
  lowerWidth_le : b.lowerWidth ≤ 0.08
  upperWidth_gt : 0.001 < b.upperWidth
  upperWidth_le : b.upperWidth ≤ 0.08
  episodeDrawdown_pos : 0 < b.episodeDrawdown
  episodeDrawdown_lt : b.episodeDrawdown < s.maxDrawdown
  pauseDrawdown_pos : 0 < b.pauseDrawdown
  pauseDrawdown_lt : b.pauseDrawdown < s.maxDrawdown
  reentryLossBudget_pos : 0 < b.reentryLossBudget
  reentryLossBudget_lt : b.reentryLossBudget < s.maxDrawdown
  totalCapital_eq : s.totalCapital = 200
  lpBudget_eq : s.lpBudget = 120
  layers_length : s.layers.length = 1

namespace Config

variable {parsers : Parsers} {c : Config F}

theorem validate_eq_ok :
    c.validate parsers = .ok () ↔
      c.validateRuntime parsers = .ok () ∧ c.validateStrategy = .ok () ∧
        c.validateVenues parsers = .ok () := by
  simp [validate]

omit [F64 F] in
/-- The venue checks read neither the strategy nor the margin mode. -/
theorem validateVenues_congr {c' : Config F} (mode : c'.mode = c.mode)
    (liquidity : c'.liquidity = c.liquidity)
    (hyperliquid : { c'.hyperliquid with crossMargin := c.hyperliquid.crossMargin } =
      c.hyperliquid) :
    c'.validateVenues parsers = c.validateVenues parsers := by
  unfold validateVenues
  rw [mode, liquidity, ← hyperliquid]

/-- Validation establishes the strategy facts used later. -/
theorem strategyAccepted (valid : c.validate parsers = .ok ()) : c.strategy.Accepted := by
  obtain ⟨-, strategy, -⟩ := validate_eq_ok.mp valid
  simp only [validateStrategy, List.forM_eq_forM, check_bind_eq_ok, forM_eq_ok, ensure_eq_ok,
    List.forall_mem_cons] at strategy
  obtain ⟨budgets, reserve, -, fractions, -, windows, -, -, -, -, periods, -, layers, weights,
    names, -⟩ := strategy
  exact {
    totalCapital_pos := budgets.1.2
    lpBudget_pos := budgets.2.1.2
    hedgeCollateral_pos := budgets.2.2.1.2
    reserve_nonneg := reserve.2
    maxDrawdown_pos := fractions.1.2.1
    maxDrawdown_le_one := fractions.1.2.2
    recoveryFraction_pos := fractions.2.2.1.2.1
    recoveryFraction_le_one := fractions.2.2.1.2.2
    volShortHours_ge := windows.1
    volLongHours_gt := windows.2.1
    resumeHealthyHours_pos := periods.1
    recoveryStepHours_pos := periods.2.1
    breakoutConfirmBars_pos := periods.2.2.1
    decisionBarSeconds_pos := periods.2.2.2
    layers_ne_nil := layers.1
    weight_pos := fun x mem => (layers.2 x mem).2.1
    halfWidth_gt := fun x mem => (layers.2 x mem).2.2.2.1
    weights_sum := weights
    names_nodup := names }

/-- Validation checks a configured persistent profile against the configuration. -/
theorem persistent_validate (valid : c.validate parsers = .ok ())
    {profile : PersistentConfig F} (configured : c.strategy.ethPersistent = some profile) :
    profile.validate c = .ok () := by
  obtain ⟨-, strategy, -⟩ := validate_eq_ok.mp valid
  simp only [validateStrategy, List.forM_eq_forM, check_bind_eq_ok] at strategy
  obtain ⟨-, -, -, -, -, -, -, -, -, -, -, -, -, -, -, -, last⟩ := strategy
  simpa only [configured] using last

/-- Validation establishes the band facts used later. -/
theorem bandAccepted (valid : c.validate parsers = .ok ())
    {profile : PersistentConfig F} (configured : c.strategy.ethPersistent = some profile)
    {band : BandConfig F} (banded : profile.band = some band) :
    band.Accepted c.strategy := by
  have checked := persistent_validate valid configured
  simp only [PersistentConfig.validate, banded, check_bind_eq_ok] at checked
  obtain ⟨-, -, -, -, -, checked⟩ := checked
  simp only [BandConfig.validate, check_bind_eq_ok, ensure_eq_ok, List.forall_mem_cons] at checked
  obtain ⟨-, widths, -, -, drawdowns, capital⟩ := checked
  exact {
    lowerWidth_gt := widths.1.2.1
    lowerWidth_le := widths.1.2.2
    upperWidth_gt := widths.2.1.2.1
    upperWidth_le := widths.2.1.2.2
    episodeDrawdown_pos := drawdowns.1.2.1
    episodeDrawdown_lt := drawdowns.1.2.2
    pauseDrawdown_pos := drawdowns.2.1.2.1
    pauseDrawdown_lt := drawdowns.2.1.2.2
    reentryLossBudget_pos := drawdowns.2.2.1.2.1
    reentryLossBudget_lt := drawdowns.2.2.1.2.2
    totalCapital_eq := capital.1
    lpBudget_eq := capital.2.1
    layers_length := capital.2.2.2.2.1 }

end Config

end LpMaker
