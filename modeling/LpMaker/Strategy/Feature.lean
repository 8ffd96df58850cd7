import LpMaker.Strategy.Indicators
import LpMaker.Strategy.State

/-!
# Hourly features and the risk guard of the persistent ETH profiles

Features are computed from the last 73 completed bars. The guard names the market
dangers, and the breakout counters and the hour credit are shared by the
persistent and the band evaluator.
-/

namespace LpMaker

/-- One hour, in milliseconds. -/
def hourMs : Nat := 3600000

/-- The features of one completed hour. -/
structure Feature (F : Type) where
  time : Nat
  close : F
  r1 : F
  r6 : F
  r24 : F
  r72 : F
  vol6 : F
deriving DecidableEq

/-- Exit thresholds. -/
structure Guard (F : Type) where
  drop1 : F
  drop24 : F
  drop72 : F
  vol : F

variable {F : Type} [F64 F]

open F64 (isFinite)

def PersistentConfig.guard (profile : PersistentConfig F) (c : StrategyConfig F) : Guard F where
  drop1 := c.fastDrop1h
  drop24 := profile.drop24h
  drop72 := profile.drop72h
  vol := profile.maxHourlyVol

namespace Guard

/-- The danger at price `p`, if there is one. -/
def danger (guard : Guard F) (f : Feature F) (p : F) : Option String :=
  if f.r1 < -guard.drop1 ∨ p / f.close - 1 < -guard.drop1 then some "fast_drop"
  else if f.r24 < -guard.drop24 ∨ f.r72 < -guard.drop72 then some "downtrend"
  else if f.vol6 > guard.vol then some "volatility"
  else none

/-- The hour counts as healthy. -/
def recovered (guard : Guard F) (f : Feature F) (p : F) : Bool :=
  (guard.danger f p).isNone && f.r6 ≥ -0.01 && f.r1 ≥ -0.005 && f.vol6 < guard.vol * 0.8

/-- The danger, or a pool price too far from the hedge price. -/
def dangerOrBasis (guard : Guard F) (c : StrategyConfig F) (f : MarketFrame F) (x : Feature F) :
    Option String :=
  (guard.danger x f.pool.price).or <|
    if |f.pool.price / f.hedgePrice - 1| * 10000 > c.maxBasisBps then
      some "pool_perp_basis_limit"
    else none

end Guard

namespace Feature

/-- The feature of bar `i`, from the 72 bars before it. -/
def at_ (a : List (Candle F)) (i : Nat) : Feature F :=
  let close (j : Nat) : F := (a.getD j Indicators.emptyCandle).close
  let ret (n : Nat) : F := close i / close (i - n) - 1
  let r := (List.range 6).map fun j => F64.ln (close (i - 5 + j) / close (i - 5 + j - 1))
  let mean := r.sum / 6
  { time := (a.getD i Indicators.emptyCandle).closeMs
    close := close i
    r1 := ret 1
    r6 := ret 6
    r24 := ret 24
    r72 := ret 72
    vol6 := F64.sqrt ((r.map fun x => (x - mean) ^ 2).sum / 6) }

/-- The feature of the last completed hour, or why the history is unusable. -/
def latest (candles : List (Candle F)) (now : Nat) : Except String (Feature F) := do
  let a := Indicators.completed candles now
  ensure (a.length ≥ 73) "need 73 completed hourly candles"
  let a := Indicators.lastN a 73
  a.forM fun x =>
    ensure (Indicators.validBar x ∧ x.openMs ≤ x.closeMs ∧ x.closeMs - x.openMs = hourMs - 1)
      "invalid hourly candle"
  ensure (∀ w ∈ Indicators.windows a, w.2.openMs = w.1.openMs + hourMs)
    "hourly gap/duplicate/out-of-order"
  ensure (now - (a.getD 72 Indicators.emptyCandle).closeMs ≤ hourMs + 60000)
    "stale candle history"
  .ok (at_ a 72)

/-- The feature or the frame is not usable for a decision. -/
def unusable (c : StrategyConfig F) (f : MarketFrame F) (x : Feature F) : Bool :=
  ([f.pool.price, f.hedgePrice, f.portfolio.equity f.pool.price, f.portfolio.base,
      f.portfolio.shortBase, x.close, x.r1, x.r6, x.r24, x.r72, x.vol6].any
        fun v => !isFinite v)
    || f.pool.price ≤ 0 || f.hedgePrice ≤ 0 || x.close ≤ 0
    || f.pool.timeMs > f.nowMs || f.hedgeTimeMs > f.nowMs || x.time ≥ f.nowMs
    || f.nowMs - x.time > hourMs + 60000
    || f.nowMs - f.pool.timeMs > c.maxDataAgeSeconds * 1000
    || f.nowMs - f.hedgeTimeMs > c.maxDataAgeSeconds * 1000

end Feature

namespace Strategy

/-- Raise the equity peak. -/
def trackPeak (equity : F) (c : StrategyConfig F) (s : Strategy F) : Strategy F :=
  { s with peakEquity := max (max s.peakEquity equity) c.totalCapital }

/-- A breached drawdown halts the strategy. -/
def haltWhen (breached : Prop) [Decidable breached] (s : Strategy F) : Strategy F :=
  if breached then { s with phase := .halted } else s

/-- Count a newly completed hour as healthy or start over. -/
def countFeatureHour (guard : Guard F) (x : Feature F) (p : F) (s : Strategy F) : Strategy F :=
  if x.time > s.lastHour then
    let s :=
      if s.lastHour > 0 ∧ x.time - s.lastHour ≠ hourMs then { s with healthyHours := 0 } else s
    { s with
      lastHour := x.time
      healthyHours := if guard.recovered x p then saturatingSucc s.healthyHours else 0 }
  else s

/-- Count the hour, unless a danger starts the count over. -/
def countHealthyHour (guard : Guard F) (danger : Option String) (x : Feature F) (p : F)
    (s : Strategy F) : Strategy F :=
  let s := s.countFeatureHour guard x p
  if danger.isSome then { s with healthyHours := 0 } else s

/-- An observation gap forgets the healthy hours and the breakout streaks. -/
def forgetAfterGap (c : StrategyConfig F) (f : MarketFrame F) (st : PersistentState F)
    (s : Strategy F) : Strategy F :=
  if st.lastObservedMs > f.nowMs ∨
      (st.lastObservedMs > 0 ∧ f.nowMs - st.lastObservedMs > c.maxDataAgeSeconds * 1000) then
    { s with healthyHours := 0, layers := ∅ }
  else s

/-- Pause for an exit. A halt is kept, and a flat pause keeps its running cooldown. -/
def leave (f : MarketFrame F) (reentryNotBeforeMs : Nat) (s : Strategy F)
    (st : PersistentState F) : Strategy F × PersistentState F :=
  if s.phase = .halted then (s, st)
  else if s.phase ≠ .paused ∨ f.portfolio.positions ≠ [] then
    ({ s with phase := .paused, pauseSince := f.nowMs },
      { st with pauseAnchorMs := f.nowMs, reentryNotBeforeMs := reentryNotBeforeMs })
  else ({ s with phase := .paused }, st)

/-- A flat warm start which cannot prove a first entry waits for the cooldown. -/
def awaitCooldown (c : StrategyConfig F) (f : MarketFrame F) (s : Strategy F)
    (st : PersistentState F) : Strategy F × PersistentState F :=
  if s.phase = .warmup ∧ s.entryHistory ≠ .initial then
    ({ s with phase := .paused, pauseSince := f.nowMs }, { st with
      pauseAnchorMs := f.nowMs
      reentryNotBeforeMs := f.nowMs + c.cooldownHours * hourMs })
  else (s, st)

/-- Count one position's consecutive bars outside its range. -/
def countOutside (c : StrategyConfig F) (side : LpPosition F → Int) (pass : Layers × Bool)
    (pos : LpPosition F) : Layers × Bool :=
  let layer := pass.1.entry pos.layer
  let direction := side pos
  let count :=
    if direction = 0 then 0
    else if direction = layer.outsideSide then saturatingSucc layer.outsideCount
    else 1
  (pass.1.insert pos.layer { layer with outsideCount := count, outsideSide := direction },
    pass.2 || count ≥ c.breakoutConfirmBars)

/-- The breakout pass of a new decision bar: the state and whether a breakout is confirmed. -/
def observeBreakouts (c : StrategyConfig F) (f : MarketFrame F) (newBar : Bool)
    (side : LpPosition F → Int) (s : Strategy F) : Strategy F × Bool :=
  if !f.portfolio.positions.isEmpty && newBar then
    let bucket := f.nowMs / (c.decisionBarSeconds * 1000)
    let layers :=
      if s.lastDecisionBar > 0 ∧ bucket > s.lastDecisionBar + 1 then ∅ else s.layers
    let pass := f.portfolio.positions.foldl (countOutside c side) (layers, false)
    ({ s with lastDecisionBar := bucket, layers := pass.1 }, pass.2)
  else (s, false)

section Frame

variable (c : StrategyConfig F) (f : MarketFrame F) (s : Strategy F) (st : PersistentState F)
  (guard : Guard F) (x : Feature F) (p : F)

@[simp] theorem trackPeak_peakEquity (equity : F) :
    (s.trackPeak equity c).peakEquity = max (max s.peakEquity equity) c.totalCapital := rfl

@[simp] theorem trackPeak_phase (equity : F) : (s.trackPeak equity c).phase = s.phase := rfl

@[simp] theorem trackPeak_entryHistory (equity : F) :
    (s.trackPeak equity c).entryHistory = s.entryHistory := rfl

section Halt

omit [F64 F]

variable (breached : Prop) [Decidable breached]

@[simp] theorem haltWhen_phase :
    (s.haltWhen breached).phase = if breached then .halted else s.phase := by
  unfold haltWhen; split_ifs <;> rfl

@[simp] theorem haltWhen_peakEquity : (s.haltWhen breached).peakEquity = s.peakEquity := by
  unfold haltWhen; split_ifs <;> rfl

@[simp] theorem haltWhen_entryHistory :
    (s.haltWhen breached).entryHistory = s.entryHistory := by
  unfold haltWhen; split_ifs <;> rfl

end Halt

section Await

omit [F64 F]

@[simp] theorem leave_phase (reentry : Nat) :
    (leave f reentry s st).1.phase = if s.phase = .halted then .halted else .paused := by
  unfold leave; split_ifs <;> first | rfl | assumption

@[simp] theorem leave_peakEquity (reentry : Nat) :
    (leave f reentry s st).1.peakEquity = s.peakEquity := by
  unfold leave; split_ifs <;> rfl

@[simp] theorem leave_entryHistory (reentry : Nat) :
    (leave f reentry s st).1.entryHistory = s.entryHistory := by
  unfold leave; split_ifs <;> rfl

@[simp] theorem awaitCooldown_peakEquity :
    (awaitCooldown c f s st).1.peakEquity = s.peakEquity := by
  unfold awaitCooldown; split_ifs <;> rfl

@[simp] theorem awaitCooldown_entryHistory :
    (awaitCooldown c f s st).1.entryHistory = s.entryHistory := by
  unfold awaitCooldown; split_ifs <;> rfl

end Await

omit [F64 F] in
@[simp] theorem forgetAfterGap_phase :
    (s.forgetAfterGap c f st).phase = s.phase := by
  unfold forgetAfterGap; split_ifs <;> rfl

omit [F64 F] in
@[simp] theorem forgetAfterGap_peakEquity :
    (s.forgetAfterGap c f st).peakEquity = s.peakEquity := by
  unfold forgetAfterGap; split_ifs <;> rfl

omit [F64 F] in
@[simp] theorem forgetAfterGap_entryHistory :
    (s.forgetAfterGap c f st).entryHistory = s.entryHistory := by
  unfold forgetAfterGap; split_ifs <;> rfl

omit [F64 F] in
@[simp] theorem observeBreakouts_phase (newBar : Bool) (side : LpPosition F → Int) :
    (s.observeBreakouts c f newBar side).1.phase = s.phase := by
  unfold observeBreakouts; split_ifs <;> rfl

omit [F64 F] in
@[simp] theorem observeBreakouts_peakEquity (newBar : Bool) (side : LpPosition F → Int) :
    (s.observeBreakouts c f newBar side).1.peakEquity = s.peakEquity := by
  unfold observeBreakouts; split_ifs <;> rfl

omit [F64 F] in
@[simp] theorem observeBreakouts_entryHistory (newBar : Bool) (side : LpPosition F → Int) :
    (s.observeBreakouts c f newBar side).1.entryHistory = s.entryHistory := by
  unfold observeBreakouts; split_ifs <;> rfl

@[simp] theorem countFeatureHour_phase :
    (s.countFeatureHour guard x p).phase = s.phase := by
  unfold countFeatureHour; split_ifs <;> rfl

@[simp] theorem countFeatureHour_peakEquity :
    (s.countFeatureHour guard x p).peakEquity = s.peakEquity := by
  unfold countFeatureHour; split_ifs <;> rfl

@[simp] theorem countFeatureHour_entryHistory :
    (s.countFeatureHour guard x p).entryHistory = s.entryHistory := by
  unfold countFeatureHour; split_ifs <;> rfl

@[simp] theorem countHealthyHour_phase (danger : Option String) :
    (s.countHealthyHour guard danger x p).phase = s.phase := by
  unfold countHealthyHour; split_ifs <;> simp

@[simp] theorem countHealthyHour_peakEquity (danger : Option String) :
    (s.countHealthyHour guard danger x p).peakEquity = s.peakEquity := by
  unfold countHealthyHour; split_ifs <;> simp

@[simp] theorem countHealthyHour_entryHistory (danger : Option String) :
    (s.countHealthyHour guard danger x p).entryHistory = s.entryHistory := by
  unfold countHealthyHour; split_ifs <;> simp

end Frame

end Strategy

end LpMaker
