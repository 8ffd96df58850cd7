import LpMaker.Config
import LpMaker.Domain
import LpMaker.Strategy.Regime

/-!
# The shipped paper configurations

The configurations of `config/robinhood.toml` (legacy profile),
`config/eth-persistent-dd5-paper.toml` (persistent profile),
`config/eth-band-paper.toml` (band profile) and `config/solana-regime.toml` over the
rationals, with parsers that accept the endpoints and addresses they contain. They
are the concrete inputs of the runs evaluated in other modules.
-/

namespace LpMaker.Shipped

/-- Split a URL at the first `://`. -/
def splitUrl : List Char → List Char → Option Url
  | scheme, ':' :: '/' :: '/' :: rest =>
      let host := rest.takeWhile fun ch => ch ≠ '/'
      some ⟨String.ofList scheme.reverse, if host = [] then none else some (String.ofList host)⟩
  | scheme, ch :: rest => splitUrl (ch :: scheme) rest
  | _, [] => none

/-- A hexadecimal digit. -/
def isHexDigit (ch : Char) : Bool :=
  ch.isDigit || ('a' ≤ ch && ch ≤ 'f') || ('A' ≤ ch && ch ≤ 'F')

/-- Parsers for plain endpoints and hexadecimal addresses. -/
def parsers : Parsers where
  url url := splitUrl [] url.toList
  isAddress address :=
    match address.toList with
    | '0' :: 'x' :: digits => digits.length = 40 && digits.all isHexDigit
    | _ => false

def hyperliquid : HyperliquidConfig where
  httpUrl := "https://api.hyperliquid.xyz"
  wsUrl := "wss://api.hyperliquid.xyz/ws"
  hedgeCoin := "ETH"
  account := none
  vault := none
  leverage := 3
  crossMargin := false
  makerWaitSeconds := 15
  emergencySlippageBps := 30

def liquidity : LiquidityConfig ℚ where
  kind := "uniswap_v3"
  chainId := 4663
  rpcUrl := "https://robinhood-rpc.publicnode.com"
  archiveRpcUrl := some "https://rpc.mainnet.chain.robinhood.com"
  rpcMinIntervalMs := 250
  wsUrl := "wss://robinhood-rpc.publicnode.com"
  owner := none
  nonceRefreshSeconds := 30
  pendingWarnSeconds := 120
  pool := "0x52e65B17fB6E5BA00Ed806f37Afcd2DaA50271Ca"
  factory := "0x1f7d7550b1b028f7571e69a784071f0205fd2efa"
  positionManager := "0x73991a25c818bf1f1128deaab1492d45638de0d3"
  swapRouter := "0xcaf681a66d020601342297493863e78c959e5cb2"
  baseToken := "0x0Bd7D308f8E1639FAb988df18A8011f41EAcAD73"
  quoteToken := "0x5fc5360d0400a0fd4f2af552add042d716f1d168"
  baseDecimals := 18
  quoteDecimals := 6
  fee := 100
  confirmations := 12
  slippageBps := 30
  deadlineSeconds := 120
  maxGasNative := 0.003
  gasFeeBufferBps := 10000
  gasLimitBufferBps := 2000
  maxQuoteAgeSeconds := 60

/-- The parts both configurations share. -/
def withStrategy (hyperliquid : HyperliquidConfig) (strategy : StrategyConfig ℚ) : Config ℚ where
  mode := .paper
  pollSeconds := 15
  hyperliquid := hyperliquid
  liquidity := liquidity
  strategy := strategy
  websocket := ⟨20, 60, 300, 15, 10, 1000, 30⟩
  monitoring := ⟨60, 60, 30, 15, 45⟩
  logging := ⟨14⟩
  runtime := ⟨5, 45⟩
  storage := ⟨16777216, 32, 1000, 268435456, 268435456⟩

/-- `config/robinhood.toml`, with the layer weights written as exact thirds. -/
def robinhood : Config ℚ := withStrategy hyperliquid {
  ethPersistent := none
  totalCapital := 10000
  lpBudget := 6000
  hedgeCollateral := 2500
  reserve := 1500
  insideHedgeRatio := 0
  hedgeDeadbandUsd := 50
  maxDrawdown := 0.05
  maxBasisBps := 100
  maxDataAgeSeconds := 60
  fastDrop1h := 0.015
  volShortHours := 6
  volLongHours := 168
  volPauseRatio := 1.8
  volResumeRatio := 1.2
  emaFastHours := 20
  emaSlowHours := 60
  resumeHealthyHours := 6
  cooldownHours := 6
  recoveryFraction := 0.25
  recoveryStepHours := 4
  breakoutBuffer := 0.01
  breakoutConfirmBars := 8
  decisionBarSeconds := 900
  hedgeReleaseBuffer := 0.004
  layers := [⟨"core", 2 / 3, 0.08⟩, ⟨"satellite", 1 / 3, 0.02⟩] }

/-- `config/eth-persistent-dd5-paper.toml`. -/
def ethPersistentDd5 : Config ℚ := withStrategy { hyperliquid with crossMargin := true } {
  ethPersistent := some {
    band := none
    drop24h := 0.09
    drop72h := 0.16
    maxHourlyVol := 0.016
    hedgeIntervalHours := 1 }
  totalCapital := 200
  lpBudget := 120
  hedgeCollateral := 60
  reserve := 20
  insideHedgeRatio := 0.5
  hedgeDeadbandUsd := 5
  maxDrawdown := 0.05
  maxBasisBps := 100
  maxDataAgeSeconds := 60
  fastDrop1h := 0.035
  volShortHours := 6
  volLongHours := 168
  volPauseRatio := 1.8
  volResumeRatio := 1.2
  emaFastHours := 20
  emaSlowHours := 60
  resumeHealthyHours := 2
  cooldownHours := 12
  recoveryFraction := 0.25
  recoveryStepHours := 4
  breakoutBuffer := 0.01
  breakoutConfirmBars := 8
  decisionBarSeconds := 900
  hedgeReleaseBuffer := 0.004
  layers := [⟨"persistent", 1, 9⟩] }

/-- The strategy section of `config/solana-regime.toml`. -/
def solanaStrategy : StrategyConfig ℚ where
  ethPersistent := none
  totalCapital := 200
  lpBudget := 100
  hedgeCollateral := 40
  reserve := 60
  insideHedgeRatio := 0.25
  hedgeDeadbandUsd := 12
  maxDrawdown := 0.05
  maxBasisBps := 100
  maxDataAgeSeconds := 60
  fastDrop1h := 0.03
  volShortHours := 6
  volLongHours := 168
  volPauseRatio := 2.5
  volResumeRatio := 1.2
  emaFastHours := 48
  emaSlowHours := 144
  resumeHealthyHours := 6
  cooldownHours := 168
  recoveryFraction := 0.25
  recoveryStepHours := 4
  breakoutBuffer := 0.01
  breakoutConfirmBars := 8
  decisionBarSeconds := 900
  hedgeReleaseBuffer := 0.004
  layers := [⟨"core", 1, 0.15⟩]

/-- The regime section of `config/solana-regime.toml`. -/
def solanaRegime : Regime.Config ℚ where
  emaEntryHours := 96
  emaExitHours := 144
  momentumHours := 168
  minMomentum := 0.06
  maxHourlyVol := 0.008
  entryVolFraction := 1
  maxMomentum := 1
  maxBarRange := 0.05
  exitBuffer := 0.005
  entryConfirmHours := 6

/-- `config/eth-band-paper.toml`. -/
def ethBandPaper : Config ℚ := withStrategy { hyperliquid with crossMargin := true } {
  ethPersistent := some {
    band := some {
      lowerWidth := 0.07825
      upperWidth := 0.08
      netLowerUsd := -60
      netUpperUsd := 47.24
      minimumHoldingHours := 48
      rollDelaySeconds := 60
      episodeDrawdown := 0.02
      pauseDrawdown := 0.03
      reentryLossBudget := 0.005 }
    drop24h := 0.09
    drop72h := 0.16
    maxHourlyVol := 0.016
    hedgeIntervalHours := 2 }
  totalCapital := 200
  lpBudget := 120
  hedgeCollateral := 60
  reserve := 20
  insideHedgeRatio := 0.5
  hedgeDeadbandUsd := 15
  maxDrawdown := 0.05
  maxBasisBps := 100
  maxDataAgeSeconds := 60
  fastDrop1h := 0.035
  volShortHours := 6
  volLongHours := 168
  volPauseRatio := 1.8
  volResumeRatio := 1.2
  emaFastHours := 20
  emaSlowHours := 60
  resumeHealthyHours := 4
  cooldownHours := 3
  recoveryFraction := 0.25
  recoveryStepHours := 4
  breakoutBuffer := 0
  breakoutConfirmBars := 16
  decisionBarSeconds := 900
  hedgeReleaseBuffer := 0.004
  layers := [⟨"band", 1, 0.08⟩] }

theorem robinhood_venues : robinhood.validateVenues parsers = .ok () := by decide +kernel

/-- The venues are checked once. -/
theorem venues_valid (crossMargin : Bool) (strategy : StrategyConfig ℚ) :
    (withStrategy { hyperliquid with crossMargin := crossMargin } strategy).validateVenues
      parsers = .ok () := by
  rw [← robinhood_venues]
  exact Config.validateVenues_congr rfl rfl rfl

theorem robinhood_valid : robinhood.validate parsers = .ok () :=
  Config.validate_eq_ok.mpr ⟨by decide +kernel, by decide +kernel, venues_valid false _⟩

theorem ethPersistentDd5_valid : ethPersistentDd5.validate parsers = .ok () :=
  Config.validate_eq_ok.mpr ⟨by decide +kernel, by decide +kernel, venues_valid true _⟩

theorem solanaRegime_valid : solanaRegime.validate = .ok () := by decide +kernel

theorem ethBandPaper_valid : ethBandPaper.validate parsers = .ok () :=
  Config.validate_eq_ok.mpr ⟨by decide +kernel, by decide +kernel, venues_valid true _⟩

/-- `count` complete hourly bars at one price, the first of them opening at time zero. -/
def hourlyCandles (price : ℚ) (count : Nat) : List (Candle ℚ) :=
  (List.range count).map fun hour =>
    ⟨hour * 3600000, hour * 3600000 + 3599999, price, price, price, price⟩

/-- A portfolio without positions or hedge. -/
def flatPortfolio (walletQuote hedgeEquity reserve : ℚ) : Portfolio ℚ where
  positions := []
  walletBase := 0
  walletQuote := walletQuote
  shortBase := 0
  hedgeEquity := hedgeEquity
  reserve := reserve

/-- A portfolio whose wallet has become one position of `layer`. -/
def heldPortfolio (layer : String) (lower upper quote hedgeEquity reserve : ℚ) :
    Portfolio ℚ where
  positions := [⟨layer, none, lower, upper, 0, "paper", 0, 0, 0, quote⟩]
  walletBase := 0
  walletQuote := 0
  shortBase := 0
  hedgeEquity := hedgeEquity
  reserve := reserve

/-- A fresh frame after `hours` bars at one price. -/
def frame (hours offset : Nat) (candlePrice price hedgePrice : ℚ) (portfolio : Portfolio ℚ) :
    MarketFrame ℚ where
  nowMs := hours * 3600000 + offset
  pool := ⟨hours * 3600000 + offset, price⟩
  hedgePrice := hedgePrice
  hedgeTimeMs := hours * 3600000 + offset
  candles := hourlyCandles candlePrice hours
  portfolio := portfolio

end LpMaker.Shipped
