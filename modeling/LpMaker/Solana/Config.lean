import LpMaker.Shipped

/-!
# Configuration of the SOL strategy

`Config.validate` follows the checks of the source in their order, the regime's own checks first.
It shares the strategy and hedge sections with the EVM configuration, under bounds of its own.
-/

namespace LpMaker.Solana

/-- The only supported pool. -/
def supportedPool : String := "5rCf1DM8LjKTw4YqhnoLcngyZYeNnQqztScTogYHAS6"

structure SolanaConfig (F : Type) where
  pool : String
  owner : Option String
  rpcUrlEnv : String
  grpcUrlEnv : String
  grpcTokenEnv : String
  privateKeyEnv : String
  requireGrpc : Bool
  slippageBps : Nat
  maxTransactionFeeSol : F
  priorityFeeMicrolamports : Nat
  minNativeSol : F
  maxRentSol : F
  idleTimeoutSeconds : Nat

/-- The configuration. `coins` are the subscriptions of the hedge section. -/
structure Config (F : Type) where
  mode : Mode
  pollSeconds : Nat
  reportSeconds : Nat
  solana : SolanaConfig F
  coins : List String
  hyperliquid : HyperliquidConfig
  strategy : StrategyConfig F
  regime : Option (Regime.Config F)

/-- The name of an environment variable, which holds no secret itself. -/
def isEnvName (name : String) : Bool :=
  !name.isEmpty && name.toList.all fun b => b.isUpper || b.isDigit || b == '_'

namespace Config

variable {F : Type} [F64 F]

open F64 (isFinite)

/-- The hedge and capital checks, which come after the regime. -/
def validateHedge (c : Config F) : Except String Unit := do
  let s := c.strategy
  ensure (c.solana.pool = supportedPool ∧ c.hyperliquid.hedgeCoin = "SOL")
    "unsupported Solana pool/hedge pair"
  ensure ("SOL" ∈ c.coins) "SOL subscription required"
  ensure (c.pollSeconds > 0 ∧ s.maxDataAgeSeconds > c.pollSeconds ∧ c.reportSeconds > 0)
    "invalid intervals"
  ensure ((1 ≤ c.hyperliquid.leverage ∧ c.hyperliquid.leverage ≤ 3) ∧ !c.hyperliquid.crossMargin)
    "use 1..3x isolated SOL hedge"
  ensure (s.lpBudget / (c.hyperliquid.leverage : F) ≤ s.hedgeCollateral * 0.9)
    "full LP inventory exceeds configured hedge margin capacity"
  ensure (c.hyperliquid.makerWaitSeconds > 0 ∧
      1 ≤ c.hyperliquid.emergencySlippageBps ∧ c.hyperliquid.emergencySlippageBps ≤ 100)
    "invalid hedge execution limits"
  [s.totalCapital, s.lpBudget, s.hedgeCollateral, s.hedgeDeadbandUsd, s.maxBasisBps,
    c.solana.maxTransactionFeeSol, c.solana.minNativeSol, c.solana.maxRentSol].forM fun x =>
      ensure (isFinite x ∧ x > 0) "positive finite budget required"
  ensure (isFinite s.reserve ∧ s.reserve ≥ 0 ∧
      s.lpBudget + s.hedgeCollateral + s.reserve ≤ s.totalCapital + 1e-6)
    "invalid capital allocation"

/-- The limits of the strategy. -/
def validateStrategy (c : Config F) : Except String Unit := do
  let s := c.strategy
  [s.maxDrawdown, s.fastDrop1h, s.recoveryFraction].forM fun x =>
    ensure (isFinite x ∧ x > 0 ∧ x ≤ 1) "invalid risk fraction"
  ensure (0 ≤ s.insideHedgeRatio ∧ s.insideHedgeRatio ≤ 1) "invalid hedge ratio"
  ensure (s.volShortHours ≥ 2 ∧ s.volLongHours > s.volShortHours ∧ s.volLongHours < 4000 ∧
      s.emaFastHours > 1 ∧ s.emaSlowHours > s.emaFastHours ∧ s.emaSlowHours < 4000)
    "invalid indicator windows"
  ensure (s.volResumeRatio > 0 ∧ s.volPauseRatio > s.volResumeRatio ∧ isFinite s.volPauseRatio)
    "invalid volatility limits"
  ensure ((0 ≤ s.breakoutBuffer ∧ s.breakoutBuffer < 0.2) ∧
      (0 ≤ s.hedgeReleaseBuffer ∧ s.hedgeReleaseBuffer < 0.2) ∧
      s.breakoutConfirmBars > 0 ∧ s.decisionBarSeconds > 0 ∧ s.resumeHealthyHours > 0 ∧
      s.cooldownHours > 0 ∧ s.recoveryStepHours > 0)
    "invalid recovery/breakout limits"
  ensure (s.layers ≠ [] ∧ |(s.layers.map LayerConfig.weight).sum - 1| < 1e-8 ∧
      (s.layers.map LayerConfig.name).Nodup ∧
      ∀ l ∈ s.layers, isFinite l.weight ∧ l.weight > 0 ∧ isFinite l.halfWidth ∧
        l.halfWidth > 0.001 ∧ l.halfWidth < 0.25)
    "invalid DLMM layers"

/-- The limits of the chain, the names of the environment and the endpoints. -/
def validateVenues (parsers : Parsers) (c : Config F) : Except String Unit := do
  ensure ((1 ≤ c.solana.slippageBps ∧ c.solana.slippageBps ≤ 100) ∧
      c.solana.idleTimeoutSeconds ≥ 60 ∧ c.solana.priorityFeeMicrolamports ≤ 1000000)
    "invalid Solana limits"
  [c.solana.rpcUrlEnv, c.solana.grpcUrlEnv, c.solana.grpcTokenEnv,
    c.solana.privateKeyEnv].forM fun name =>
      ensure (isEnvName name) "use environment variable names, not secrets"
  LpMaker.Config.validateUrl parsers c.hyperliquid.httpUrl ["https", "http"]
  LpMaker.Config.validateUrl parsers c.hyperliquid.wsUrl ["wss", "ws"]
  [c.hyperliquid.account, c.hyperliquid.vault].reduceOption.forM fun a =>
    ensure (parsers.isAddress a) "invalid account address"
  if c.mode = .live then
    ensure (c.solana.owner.isSome ∧ c.hyperliquid.account.isSome ∧ c.solana.requireGrpc)
      "live needs dedicated owners and gRPC"

/-- Every check made before a configuration is used. -/
def validate (parsers : Parsers) (c : Config F) : Except String Unit := do
  match c.regime with
  | some regime => regime.validate
  | none => .ok ()
  validateHedge c
  validateStrategy c
  validateVenues parsers c

theorem validate_eq_ok {parsers : Parsers} {c : Config F} :
    c.validate parsers = .ok () ↔ (∀ regime ∈ c.regime, regime.validate = .ok ()) ∧
      c.validateHedge = .ok () ∧ c.validateStrategy = .ok () ∧
        c.validateVenues parsers = .ok () := by
  unfold validate
  cases c.regime <;> simp

end Config

end LpMaker.Solana

namespace LpMaker.Shipped

/-- `config/solana-regime.toml`. -/
def solana : Solana.Config ℚ where
  mode := .paper
  pollSeconds := 15
  reportSeconds := 60
  solana := {
    pool := Solana.supportedPool
    owner := none
    rpcUrlEnv := "LPMAKER_SOL_RPC_URL"
    grpcUrlEnv := "LPMAKER_SOL_GRPC_URL"
    grpcTokenEnv := "LPMAKER_SOL_GRPC_TOKEN"
    privateKeyEnv := "LPMAKER_SOL_PRIVATE_KEY"
    requireGrpc := true
    slippageBps := 30
    maxTransactionFeeSol := 0.001
    priorityFeeMicrolamports := 10000
    minNativeSol := 0.03
    maxRentSol := 0.5
    idleTimeoutSeconds := 300 }
  coins := ["ETH", "BTC", "SOL"]
  hyperliquid := { hyperliquid with hedgeCoin := "SOL" }
  strategy := solanaStrategy
  regime := some solanaRegime

theorem solana_venues : solana.validateVenues parsers = .ok () := by decide +kernel

theorem solana_hedge : solana.validateHedge = .ok () := by decide +kernel

theorem solana_valid : solana.validate parsers = .ok () :=
  Solana.Config.validate_eq_ok.mpr
    ⟨by rintro _ ⟨⟩; exact solanaRegime_valid, solana_hedge, by decide +kernel, solana_venues⟩

end LpMaker.Shipped
