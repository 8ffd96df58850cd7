import LpMaker.Math
import LpMaker.Shipped
import LpMaker.Strategy.ExitLatch
import LpMaker.Strategy.BandGuard
import LpMaker.Strategy.Regime
import LpMaker.Engine.HaltAbsorbing
import LpMaker.Engine.ReentryGate
import LpMaker.Engine.PaperAccounting
import LpMaker.Engine.BandOrigin
import LpMaker.Engine.Deferral
import LpMaker.Engine.PaperLedger
import LpMaker.Engine.Reset
import LpMaker.Engine.ResetSafety
import LpMaker.Engine.Migration
import LpMaker.Engine.MigrationSafety
import LpMaker.Engine.Runner
import LpMaker.Strategy.EntryHistory
import LpMaker.Engine.RearmSafety
import LpMaker.Engine.CheckpointSafety
import LpMaker.Evm.RpcGate
import LpMaker.Evm.RpcGateSafety
import LpMaker.Strategy.Breakout
import LpMaker.Engine.EntryGuard
import LpMaker.Strategy.Cooldown
import LpMaker.Solana.Ledger
import LpMaker.Solana.Simulation
import LpMaker.Solana.HaltFinality
import LpMaker.Solana.Backtest
import LpMaker.Solana.LookAhead
import LpMaker.Liquidity.TickMath
import LpMaker.Liquidity.Slippage
import LpMaker.Liquidity.SlippageBounds
import LpMaker.Hyperliquid.Orders
import LpMaker.Hyperliquid.PriceGrid
import LpMaker.Hyperliquid.Journal
import LpMaker.Hyperliquid.Acknowledgement
import LpMaker.Hyperliquid.Desk
import LpMaker.Hyperliquid.OrderRecovery
import LpMaker.Hyperliquid.OrderEvidence
import LpMaker.Hyperliquid.OrderSync
import LpMaker.Hyperliquid.SyncPostcondition
import LpMaker.Hyperliquid.Hedge
import LpMaker.Hyperliquid.Exposure
import LpMaker.Hyperliquid.HedgeRules
import LpMaker.Hyperliquid.HedgeSafety
import LpMaker.Hyperliquid.DispatchSafety
import LpMaker.Strategy.BreakoutRun
import LpMaker.Evm.Fees
import LpMaker.Evm.FeeReplacement
import LpMaker.Numeric.Projection
import LpMaker.Strategy.BandTarget
import LpMaker.Engine.HedgeTarget
import LpMaker.Liquidity.DustProof
import LpMaker.Liquidity.WideArithmetic
import LpMaker.Liquidity.FeeGrowth
import LpMaker.Liquidity.Ticks
import LpMaker.Liquidity.Unclaimed
import LpMaker.Monitor.Performance
import LpMaker.Strategy.Features
import LpMaker.Monitor.HistoryInvariant
import LpMaker.Monitor.FeeRate
import LpMaker.Strategy.OutageGrace
import LpMaker.Solana.Journal
import LpMaker.Solana.JournalSafety
import LpMaker.Liquidity.Valuation
import LpMaker.Numeric.Fault
import LpMaker.Strategy.IndicatorSafety
import LpMaker.Strategy.Durations
import LpMaker.Strategy.DurationBounds
import LpMaker.Solana.Config
import LpMaker.Solana.CachedSignals
import LpMaker.Semantics.SegmentedLog
import LpMaker.Store.Events
import LpMaker.Solana.Conservation
import LpMaker.Semantics.Interleaving
import LpMaker.Evm.TransactionSafety
import LpMaker.Engine.WorkflowSafety
