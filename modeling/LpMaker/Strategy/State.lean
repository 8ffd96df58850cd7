import Mathlib
import LpMaker.Domain
import LpMaker.Config

/-!
# Persisted strategy state

The state every evaluator reads and writes, with the progress record of the
recovery checks and the clocks of the persistent ETH profiles.
-/

namespace LpMaker

inductive Phase where
  | warmup
  | active
  | paused
  | recovering
  | halted
deriving DecidableEq

namespace Phase

/-- The `Debug` rendering which decisions carry. -/
def format : Phase → String
  | warmup => "Warmup"
  | active => "Active"
  | paused => "Paused"
  | recovering => "Recovering"
  | halted => "Halted"

end Phase

/-- Whether this state has opened liquidity before. Older checkpoints cannot
prove that the next entry is the first one. -/
inductive EntryHistory where
  | initial
  | established
  | legacyUnknown
deriving DecidableEq

structure LayerState where
  isProtected : Bool
  outsideSide : Int
  outsideCount : Nat
deriving DecidableEq

/-- `LayerState::default`. -/
def LayerState.default : LayerState := ⟨false, 0, 0⟩

/-- The per-layer protection and breakout counters. -/
abbrev Layers := AList fun _ : String => LayerState

namespace Layers

/-- `layers.entry(name).or_default()`. -/
def entry (layers : Layers) (name : String) : LayerState :=
  (layers.lookup name).getD LayerState.default

/-- Forget every breakout streak while keeping the protection flags. -/
def clearStreaks (layers : Layers) : Layers where
  entries := layers.entries.map fun layer =>
    ⟨layer.1, { layer.2 with outsideCount := 0, outsideSide := 0 }⟩
  nodupKeys := by
    have keys : (layers.entries.map fun layer : (_ : String) × LayerState =>
        (⟨layer.1, { layer.2 with outsideCount := 0, outsideSide := 0 }⟩ :
          (_ : String) × LayerState)).keys = layers.entries.keys := by
      simp [List.keys]
    rw [List.NodupKeys, keys]
    exact layers.nodupKeys

end Layers

/-- Why and when the healthy-hour count was last cleared. -/
structure Reset where
  timeMs : Nat
  previousHours : Nat
  reason : String
deriving DecidableEq

/-- The diagnostic report of the legacy evaluator with continuity. -/
structure ProgressReport (F : Type) where
  observedMs : Nat
  completedHourMs : Nat
  recentHours : Nat
  baselineHours : Nat
  recentVolPct : F
  baselineVolPct : F
  baselineUsedVolPct : F
  volRatio : F
  pauseRatio : F
  resumeRatio : F
  healthyHours : Nat
  requiredHours : Nat
  cooldownRemainingSeconds : Nat
  blockers : List String
  counterEvent : String
deriving DecidableEq

/-- Evidence which lets a short observation outage keep the healthy-hour count. -/
structure Progress (F : Type) where
  observedMs : Nat
  anchor : Option (Candle F)
  pendingRevalidation : Bool
  lastReset : Option Reset
  report : Option (ProgressReport F)
deriving DecidableEq

/-- `Progress::default`. -/
def Progress.default {F : Type} : Progress F := ⟨0, none, false, none, none⟩

/-- Risk accounting of the band profile. -/
structure BandState (F : Type) where
  accountOriginEquity : Option F
  riskEquity : F
  enteredMs : Nat
  episodePeak : F
  entryDrawdown : F
  netExposureUsd : F
  pauseThreshold : F
deriving DecidableEq

/-- The diagnostic report of the persistent profiles. -/
structure PersistentReport (F : Type) where
  observedMs : Nat
  completedHourMs : Nat
  return1h : F
  return24h : F
  return72h : F
  vol6h : F
  pauseVol : F
  healthyHours : Nat
  requiredHours : Nat
  cooldownRemainingSeconds : Nat
deriving DecidableEq

/-- The clocks of the persistent profiles. -/
structure PersistentState (F : Type) where
  band : Option (BandState F)
  lastObservedMs : Nat
  lastHedgeCheckMs : Nat
  pendingHedgeTarget : Option F
  reentryNotBeforeMs : Nat
  pauseAnchorMs : Nat
  report : Option (PersistentReport F)
deriving DecidableEq

/-- The whole persisted state. -/
structure Strategy (F : Type) where
  ethPersistent : Option (PersistentState F)
  entryHistory : EntryHistory
  phase : Phase
  peakEquity : F
  pauseSince : Nat
  lastHour : Nat
  healthyHours : Nat
  fraction : F
  lastScale : Nat
  lastDecisionBar : Nat
  layers : Layers
  recoveryProgress : Progress F
deriving DecidableEq

variable {F : Type}

/-- `BandState::default`. -/
def BandState.default [F64 F] : BandState F := ⟨none, 0, 0, 0, 0, 0, 0⟩

/-- `PersistentState::default`. -/
def PersistentState.default : PersistentState F := ⟨none, 0, 0, none, 0, 0, none⟩

namespace Strategy

/-- `Strategy::default`. -/
def default [F64 F] : Strategy F where
  ethPersistent := none
  entryHistory := .initial
  phase := .warmup
  peakEquity := 0
  pauseSince := 0
  lastHour := 0
  healthyHours := 0
  fraction := 0
  lastScale := 0
  lastDecisionBar := 0
  layers := ∅
  recoveryProgress := Progress.default

/-- An observed position settles the entry history. -/
def observeLp (hasPositions : Bool) (s : Strategy F) : Strategy F :=
  if hasPositions then { s with entryHistory := .established } else s

/-- `u32` addition that saturates, used for hour and bar counters. -/
def saturatingSucc (count : Nat) : Nat := min (count + 1) (2 ^ 32 - 1)

/-- The intent to leave everything as it is. -/
def hold (s : Strategy F) (f : MarketFrame F) : Decision F where
  state := s.phase.format
  reasons := []
  lp := .hold
  targetShortBase := f.portfolio.shortBase
  emergency := false

@[simp] theorem hold_lp (s : Strategy F) (f : MarketFrame F) : (s.hold f).lp = .hold := rfl

section Frame

variable (s : Strategy F) (hasPositions : Bool)

@[simp] theorem observeLp_phase : (s.observeLp hasPositions).phase = s.phase := by
  unfold observeLp; split <;> rfl

@[simp] theorem observeLp_peakEquity :
    (s.observeLp hasPositions).peakEquity = s.peakEquity := by
  unfold observeLp; split <;> rfl

@[simp] theorem observeLp_ethPersistent :
    (s.observeLp hasPositions).ethPersistent = s.ethPersistent := by
  unfold observeLp; split <;> rfl

@[simp] theorem observeLp_pauseSince :
    (s.observeLp hasPositions).pauseSince = s.pauseSince := by
  unfold observeLp; split <;> rfl

@[simp] theorem observeLp_lastHour : (s.observeLp hasPositions).lastHour = s.lastHour := by
  unfold observeLp; split <;> rfl

@[simp] theorem observeLp_healthyHours :
    (s.observeLp hasPositions).healthyHours = s.healthyHours := by
  unfold observeLp; split <;> rfl

@[simp] theorem observeLp_recoveryProgress :
    (s.observeLp hasPositions).recoveryProgress = s.recoveryProgress := by
  unfold observeLp; split <;> rfl

theorem observeLp_entryHistory :
    (s.observeLp hasPositions).entryHistory =
      if hasPositions then .established else s.entryHistory := by
  cases hasPositions <;> rfl

/-- Observing positions never makes the next entry a first one. -/
theorem observeLp_entryHistory_initial
    (first : (s.observeLp hasPositions).entryHistory = .initial) :
    s.entryHistory = .initial ∧ hasPositions = false := by
  cases hasPositions with
  | true => cases first
  | false => exact ⟨first, rfl⟩

end Frame

end Strategy

end LpMaker
