import LpMaker.Domain
import LpMaker.Config

/-!
# Hourly indicators

`calculate` validates the completed hourly bars and derives the returns, the
volatility ratio and the moving averages read by the legacy evaluator and by the
SOL regime. `calculate_last` is all that later proofs need about the bars.
-/

namespace LpMaker

/-- Indicators of the completed hourly bars. -/
structure Metrics (F : Type) where
  return1h : F
  volRatio : F
  recentVol : F
  baselineVol : F
  downtrend : Bool
  noNewLow : Bool
  emaFast : F
  lastClose : F
  lastCloseMs : Nat
deriving DecidableEq

namespace Indicators

variable {F : Type}

open F64 (isFinite sqrt ln)

/-- Consecutive pairs, `windows(2)`. -/
def windows {α : Type} (items : List α) : List (α × α) := items.zip items.tail

/-- Bars which are already complete at `now`. -/
def completed (candles : List (Candle F)) (now : Nat) : List (Candle F) :=
  candles.filter fun x => x.closeMs < now

/-- The last `count` of the items. -/
def lastN {α : Type} (items : List α) (count : Nat) : List α :=
  items.drop (items.length - count)

@[simp] theorem mem_completed {candles : List (Candle F)} {now : Nat} {bar : Candle F} :
    bar ∈ completed candles now ↔ bar ∈ candles ∧ bar.closeMs < now := by
  simp [completed]

theorem mem_of_mem_lastN {α : Type} {items : List α} {count : Nat} {x : α}
    (mem : x ∈ lastN items count) : x ∈ items :=
  List.mem_of_mem_drop mem

variable [F64 F]

/-- A placeholder for an index outside the checked history. -/
def emptyCandle : Candle F := ⟨0, 0, 0, 0, 0, 0⟩

/-- Exponential moving average with its previous value. -/
def ema (xs : List F) (period : Nat) : F × F :=
  let a : F := 2 / (period + 1)
  match xs with
  | [] => (0, 0)
  | x :: rest => rest.foldl (fun (v, _) x => (a * x + (1 - a) * v, v)) (x, x)

/-- Population standard deviation. -/
def stddev (xs : List F) : F :=
  let m := xs.sum / xs.length
  sqrt ((xs.map fun x => (x - m) ^ 2).sum / xs.length)

/-- Logarithmic returns of consecutive closes. -/
def logReturns (closes : List F) : List F :=
  (windows closes).map fun (previous, next) => ln (next / previous)

/-- Prices are positive and the extremes enclose the body. -/
def validBar (r : Candle F) : Prop :=
  (∀ x ∈ [r.open_, r.high, r.low, r.close], isFinite x ∧ x > 0) ∧
    r.high ≥ max r.open_ r.close ∧ r.low ≤ min r.open_ r.close

instance (r : Candle F) : Decidable (validBar r) := by
  unfold validBar; infer_instance

/-- Indicators of the completed bars, or why the history is unusable. -/
def calculate (candles : List (Candle F)) (c : StrategyConfig F) (now : Nat) :
    Except String (Metrics F) := do
  let rows := completed candles now
  let need := max (c.volLongHours + c.volShortHours + 1) (c.emaSlowHours * 3)
  ensure (rows.length ≥ need) s!"need {need} completed hourly candles"
  let rows := lastN rows need
  rows.forM fun r => do
    ensure (validBar r ∧ r.high ≥ r.low) "invalid candle"
    ensure (r.openMs ≤ r.closeMs ∧ r.closeMs - r.openMs = 3599999) "not hourly candles"
  (windows rows).forM fun (previous, next) =>
    ensure (next.openMs = previous.openMs + 3600000) "hourly gap/duplicate/out-of-order"
  let last := rows.getLastD emptyCandle
  ensure (now - last.closeMs ≤ 3660000) "stale candle history"
  let closes := rows.map Candle.close
  let returns := logReturns closes
  let split := returns.length - c.volShortHours
  let baseline := stddev ((returns.drop (split - c.volLongHours)).take c.volLongHours)
  let recent := stddev (returns.drop split)
  let volRatio := recent / max baseline 1e-6
  let (fast, fp) := ema closes c.emaFastHours
  let (slow, sp) := ema closes c.emaSlowHours
  let downtrend : Bool := last.close < fast ∧ fast < slow ∧ fast < fp ∧ slow < sp
  let lookback := max (min c.resumeHealthyHours (rows.length - 1)) 2
  let prevLow := F64.minimum
    (((rows.drop (rows.length - 1 - lookback)).take lookback).map Candle.low)
  .ok {
    return1h := last.close / closes.getD (closes.length - 2) 0 - 1
    volRatio := volRatio
    recentVol := recent
    baselineVol := baseline
    downtrend := downtrend
    noNewLow := decide (prevLow ≤ (last.low : WithTop F))
    emaFast := fast
    lastClose := last.close
    lastCloseMs := last.closeMs }

/-- The last bar of an accepted history is a completed hourly bar of the frame with
positive prices. -/
theorem calculate_last {candles : List (Candle F)} {c : StrategyConfig F} {now : Nat}
    {m : Metrics F} (accepted : calculate candles c now = .ok m) :
    ∃ bar ∈ candles, bar.closeMs = m.lastCloseMs ∧ bar.close = m.lastClose ∧
      bar.closeMs < now ∧ bar.closeMs = bar.openMs + 3599999 ∧ 0 < bar.close := by
  simp only [calculate, List.forM_eq_forM, check_bind_eq_ok, ensure_eq_ok, forM_eq_ok,
    Except.ok.injEq] at accepted
  obtain ⟨enough, bars, -, -, rfl⟩ := accepted
  set need := max (c.volLongHours + c.volShortHours + 1) (c.emaSlowHours * 3)
  have nonempty : lastN (completed candles now) need ≠ [] := by
    intro empty
    have length := congrArg List.length empty
    simp only [lastN, List.length_drop, List.length_nil] at length
    have : 0 < need := lt_max_of_lt_left (Nat.succ_pos _)
    omega
  have member := List.getLast_mem nonempty
  obtain ⟨bar, hourly⟩ := bars _ member
  obtain ⟨inFrame, beforeNow⟩ := mem_completed.mp (mem_of_mem_lastN member)
  rw [List.getLastD_eq_getLast?, List.getLast?_eq_some_getLast nonempty]
  refine ⟨_, inFrame, rfl, rfl, beforeNow, by omega, ?_⟩
  exact (bar.1.1 _ (by simp)).2

end Indicators

end LpMaker
