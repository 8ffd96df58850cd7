import LpMaker.Strategy.State
import LpMaker.Strategy.Indicators

/-!
# Recovery progress

The healthy-hour count of the legacy evaluator, how an observation outage freezes
it and how the next usable frame keeps or clears it. Market thresholds are never
relaxed, and missing hours are never credited afterwards.
-/

namespace LpMaker

/-- How long an observation outage may last before the progress is cleared. -/
def recheckGraceMs : Nat := 300000

/-- Rounded-up whole seconds, `div_ceil(1000)`. -/
def ceilSeconds (milliseconds : Nat) : Nat := (milliseconds + 999) / 1000

namespace Progress

variable {F : Type} [F64 F]

/-- Everything that keeps an hour from counting as healthy. -/
def blockers (c : StrategyConfig F) (f : MarketFrame F) (m : Metrics F) (risk : List String) :
    List String :=
  risk
    ++ (if m.volRatio ≥ c.volResumeRatio then ["resume_volatility_high"] else [])
    ++ (if !m.noNewLow then ["new_hourly_low"] else [])
    ++ (if f.pool.price < m.emaFast then ["below_fast_ema"] else [])

/-- The same bar was observed again, unrevised. -/
def sameBar (a b : Candle F) : Bool :=
  a.openMs = b.openMs ∧ a.closeMs = b.closeMs ∧ a.open_ = b.open_ ∧ a.high = b.high ∧
    a.low = b.low ∧ a.close = b.close

end Progress

namespace Strategy

variable {F : Type}

/-- Keep the progress, but require the next usable frame to check it. -/
def freezeRecoveryProgress (s : Strategy F) : Strategy F :=
  { s with recoveryProgress := { s.recoveryProgress with pendingRevalidation := true } }

/-- Clear the healthy hours. A repeated reason keeps the time of the first reset. -/
def resetHealthyProgress (now : Nat) (reason : String) (s : Strategy F) : Strategy F :=
  let previousHours := s.healthyHours
  let lastReset :=
    if previousHours > 0 ∨ s.recoveryProgress.lastReset.all (fun r => r.reason != reason) then
      some { timeMs := now, previousHours := previousHours, reason := reason }
    else s.recoveryProgress.lastReset
  { s with
    healthyHours := 0
    recoveryProgress := { s.recoveryProgress with lastReset := lastReset } }

variable [F64 F]

/-- Why frozen progress cannot be kept, if it cannot. -/
def recheckFailure (f : MarketFrame F) (m : Metrics F) (blockers : List String)
    (s : Strategy F) : Option String :=
  let p := s.recoveryProgress
  if p.observedMs = 0 ∨ p.anchor.isNone then some "legacy_without_observation"
  else if f.nowMs < p.observedMs then some "observation_clock_reversed"
  else if f.nowMs - p.observedMs > recheckGraceMs then some "observation_gap_over_grace"
  else if m.lastCloseMs < s.lastHour ∨ m.lastCloseMs - s.lastHour > 3600000 then
    some "hourly_gap"
  else if !(p.anchor.any fun a =>
      a.closeMs = s.lastHour && f.candles.any fun b => Progress.sameBar a b) then
    some "completed_candle_changed"
  else if blockers ≠ [] then some "resume_conditions_failed"
  else none

/-- Settle frozen progress at a usable frame: the new state, the reasons added to the
decision and the counter event. -/
def recheckProgress (f : MarketFrame F) (m : Metrics F) (blockers : List String)
    (s : Strategy F) : Strategy F × List String × String :=
  if !s.recoveryProgress.pendingRevalidation then (s, [], "unchanged")
  else
    let s := { s with
      recoveryProgress := { s.recoveryProgress with pendingRevalidation := false } }
    if s.healthyHours = 0 then (s, [], "rechecked_empty")
    else
      match s.recheckFailure f m blockers with
      | some reason =>
          (s.resetHealthyProgress f.nowMs reason,
            ["recovery_progress_reset: " ++ reason], "reset_after_recheck")
      | none =>
          let hours := s.healthyHours
          let gap := ceilSeconds (f.nowMs - s.recoveryProgress.observedMs)
          (s, [s!"recovery_progress_retained: healthy_hours={hours}, " ++
            s!"observation_gap_seconds={gap}"], "retained_after_recheck")

/-- Record the observation that later rechecks refer to. -/
def reportProgress (c : StrategyConfig F) (f : MarketFrame F) (m : Metrics F)
    (blockers : List String) (event : String) (s : Strategy F) : Strategy F :=
  { s with
    recoveryProgress := { s.recoveryProgress with
      observedMs := f.nowMs
      anchor := f.candles.find? fun b => b.closeMs = m.lastCloseMs
      report := some {
        observedMs := f.nowMs
        completedHourMs := m.lastCloseMs
        recentHours := c.volShortHours
        baselineHours := c.volLongHours
        recentVolPct := m.recentVol * 100
        baselineVolPct := m.baselineVol * 100
        baselineUsedVolPct := max m.baselineVol 1e-6 * 100
        volRatio := m.volRatio
        pauseRatio := c.volPauseRatio
        resumeRatio := c.volResumeRatio
        healthyHours := s.healthyHours
        requiredHours := c.resumeHealthyHours
        cooldownRemainingSeconds :=
          ceilSeconds (c.cooldownHours * 3600000 - (f.nowMs - s.pauseSince))
        blockers := blockers
        counterEvent := event } } }

end Strategy

end LpMaker
