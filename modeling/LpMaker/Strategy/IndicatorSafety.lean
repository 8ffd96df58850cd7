import LpMaker.Numeric.Fault
import LpMaker.Shipped
import LpMaker.Strategy.Indicators

/-!
# The indicators never panic

The indicators again, with every index, slice, count and machine word of the source checked.
Under the windows of a validated configuration the checks never fail, whatever the candles are.
-/

namespace LpMaker.Indicators

open Fault

variable {F : Type} [F64 F]

namespace Guarded

/-- A number of items which is divided by. -/
def count {α : Type} (xs : List α) : Faulty String Nat :=
  if xs.length = 0 then .error .panic else .ok xs.length

def ema (xs : List F) (period : Nat) : Faulty String (F × F) := do
  let a : F := 2 / (period + 1)
  let first ← index xs 0
  let rest ← slice xs 1 xs.length
  pure (rest.foldl (fun (v, _) x => (a * x + (1 - a) * v, v)) (first, first))

def stddev (xs : List F) : Faulty String F := do
  let n ← count xs
  let m := xs.sum / n
  pure (F64.sqrt ((xs.map fun x => (x - m) ^ 2).sum / n))

/-- `calculate`, where a fault of the machine stops it. -/
def calculate (candles : List (Candle F)) (c : StrategyConfig F) (now : Nat) :
    Faulty String (Metrics F) := do
  let rows := completed candles now
  let vol ← add 64 c.volLongHours c.volShortHours
  let vol ← add 64 vol 1
  let slow ← mul 64 c.emaSlowHours 3
  let need := max vol slow
  ensure (rows.length ≥ need) (.failed s!"need {need} completed hourly candles")
  let start ← sub rows.length need
  let rows ← slice rows start rows.length
  forM rows fun r => do
    ensure (validBar r ∧ r.high ≥ r.low) (.failed "invalid candle")
    ensure (r.openMs ≤ r.closeMs ∧ r.closeMs - r.openMs = 3599999)
      (.failed "not hourly candles")
  forM (windows rows) fun (previous, next) => do
    let expected ← add 64 previous.openMs 3600000
    ensure (next.openMs = expected) (.failed "hourly gap/duplicate/out-of-order")
  let newest ← sub rows.length 1
  let last ← index rows newest
  ensure (now - last.closeMs ≤ 3660000) (.failed "stale candle history")
  let closes := rows.map Candle.close
  let returns := logReturns closes
  let split ← sub returns.length c.volShortHours
  let low ← sub split c.volLongHours
  let window ← slice returns low split
  let baseline ← stddev window
  let window ← slice returns split returns.length
  let recent ← stddev window
  let volRatio := recent / max baseline 1e-6
  let (fast, fp) ← ema closes c.emaFastHours
  let (slow, sp) ← ema closes c.emaSlowHours
  let downtrend : Bool := last.close < fast ∧ fast < slow ∧ fast < fp ∧ slow < sp
  let lookback := max (min c.resumeHealthyHours newest) 2
  let low ← sub newest lookback
  let window ← slice rows low newest
  let prevLow := F64.minimum (window.map Candle.low)
  let previous ← sub closes.length 2
  let previous ← index closes previous
  pure {
    return1h := last.close / previous - 1
    volRatio := volRatio
    recentVol := recent
    baselineVol := baseline
    downtrend := downtrend
    noNewLow := decide (prevLow ≤ (last.low : WithTop F))
    emaFast := fast
    lastClose := last.close
    lastCloseMs := last.closeMs }

end Guarded

/-- The windows which a validated configuration has. -/
structure WindowsFit (c : StrategyConfig F) : Prop where
  short : 2 ≤ c.volShortHours
  long : c.volShortHours < c.volLongHours
  long_lt : c.volLongHours < 4000
  slow : 1 < c.emaSlowHours
  slow_lt : c.emaSlowHours < 4000

theorem windowsFit {parsers : Parsers} {c : Config F} (valid : c.validate parsers = .ok ()) :
    WindowsFit c.strategy := by
  obtain ⟨-, strategy, -⟩ := Config.validate_eq_ok.mp valid
  simp only [Config.validateStrategy, List.forM_eq_forM, check_bind_eq_ok, forM_eq_ok,
    ensure_eq_ok, List.forall_mem_cons] at strategy
  obtain ⟨-, -, -, -, -, vol, averages, -⟩ := strategy
  exact {
    short := vol.1
    long := vol.2.1
    long_lt := vol.2.2
    slow := averages.1.trans averages.2.1
    slow_lt := averages.2.2 }

section Parts

variable {xs : List F}

theorem ema_agrees (nonempty : 0 < xs.length) (period : Nat) :
    Guarded.ema xs period = .ok (ema xs period) := by
  unfold Guarded.ema
  rw [index_of_lt nonempty 0, slice_length nonempty]
  cases xs with
  | nil => cases nonempty
  | cons x xs => rfl

theorem stddev_agrees (nonempty : 0 < xs.length) : Guarded.stddev xs = .ok (stddev xs) := by
  unfold Guarded.stddev Guarded.count
  rw [if_neg nonempty.ne']
  rfl

theorem length_windows {α : Type} (items : List α) : (windows items).length = items.length - 1 := by
  simp [windows]

theorem length_logReturns (closes : List F) : (logReturns closes).length = closes.length - 1 := by
  simp [logReturns, length_windows]

theorem mem_of_mem_windows {α : Type} {items : List α} {pair : α × α}
    (mem : pair ∈ windows items) : pair.1 ∈ items ∧ pair.2 ∈ items := by
  obtain ⟨first, second⟩ := List.of_mem_zip mem
  exact ⟨first, List.mem_of_mem_tail second⟩

theorem getLastD_eq_getD {α : Type} (items : List α) (default : α) :
    items.getLastD default = items.getD (items.length - 1) default := by
  rw [List.getLastD_eq_getLast?, List.getLast?_eq_getElem?, List.getD_eq_getElem?_getD]

theorem length_lastN {α : Type} {items : List α} {count : Nat} (enough : count ≤ items.length) :
    (lastN items count).length = count := by
  unfold lastN
  rw [List.length_drop]
  omega

end Parts

section Calculate

variable {candles : List (Candle F)} {c : StrategyConfig F} {now : Nat}

/-- No fault stops the indicators of a validated configuration. -/
theorem calculate_agrees (fit : WindowsFit c) (representable : now < 2 ^ 64) :
    Guarded.calculate candles c now = returned (calculate candles c now) := by
  obtain ⟨short, long, longLt, slow, slowLt⟩ := fit
  unfold Guarded.calculate calculate
  simp only [List.forM_eq_forM]
  rw [add_of_lt (by omega), ok_bind, add_of_lt (by omega), ok_bind, mul_of_lt (by omega), ok_bind]
  refine bind_agrees ensure_agrees fun _ enough => ?_
  rw [ensure_eq_ok] at enough
  rw [sub_of_le enough, ok_bind, slice_length (Nat.sub_le _ _), ok_bind]
  generalize need_eq : max (c.volLongHours + c.volShortHours + 1) (c.emaSlowHours * 3) = need
    at enough ⊢
  have size : (lastN (completed candles now) need).length = need := length_lastN enough
  have closed : ∀ r ∈ lastN (completed candles now) need, r.closeMs < now := fun r mem =>
    (mem_completed.mp (mem_of_mem_lastN mem)).2
  have same : (completed candles now).drop ((completed candles now).length - need) =
    lastN (completed candles now) need := rfl
  rw [same]
  generalize lastN (completed candles now) need = rows at size closed ⊢
  refine bind_agrees (forM_agrees fun r mem => bind_agrees ensure_agrees fun _ _ => ensure_agrees)
    fun _ bars => ?_
  simp only [forM_eq_ok, check_bind_eq_ok, ensure_eq_ok] at bars
  refine bind_agrees (forM_agrees fun pair mem => ?_) fun _ _ => ?_
  · have first := (mem_of_mem_windows mem).1
    have before := closed pair.1 first
    have hour := (bars pair.1 first).2
    rw [add_of_lt (by omega), ok_bind]
    exact ensure_agrees
  rw [sub_of_le (by omega), ok_bind, index_of_lt (by omega) emptyCandle, ok_bind,
    ← getLastD_eq_getD]
  refine bind_agrees ensure_agrees fun _ _ => ?_
  have returns : (logReturns (rows.map Candle.close)).length = need - 1 := by
    rw [length_logReturns, List.length_map, size]
  have closes : (rows.map Candle.close).length = need := by rw [List.length_map, size]
  generalize logReturns (rows.map Candle.close) = logs at returns ⊢
  rw [sub_of_le (by omega), ok_bind, sub_of_le (by omega), ok_bind,
    slice_of_le (Nat.sub_le _ _) (Nat.sub_le _ _), ok_bind,
    stddev_agrees (by rw [List.length_take, List.length_drop]; omega), ok_bind,
    slice_length (Nat.sub_le _ _), ok_bind,
    stddev_agrees (by rw [List.length_drop]; omega), ok_bind,
    ema_agrees (by omega), ok_bind, ema_agrees (by omega), ok_bind,
    sub_of_le (by omega), ok_bind, slice_of_le (Nat.sub_le _ _) (Nat.sub_le _ _), ok_bind,
    sub_of_le (by omega), ok_bind, index_of_lt (by omega) 0, ok_bind]
  rw [Nat.sub_sub_self (by omega), Nat.sub_sub_self (by omega)]
  rfl

/-- The bars which the indicators need. -/
def lookback (c : StrategyConfig F) : Nat :=
  max (c.volLongHours + c.volShortHours + 1) (c.emaSlowHours * 3)

/-- The completed bars which the indicators read. -/
def recentBars (candles : List (Candle F)) (c : StrategyConfig F) (now : Nat) : List (Candle F) :=
  lastN (completed candles now) (lookback c)

/-- A history which is neither short nor broken. -/
structure Usable (candles : List (Candle F)) (c : StrategyConfig F) (now : Nat) : Prop where
  enough : lookback c ≤ (completed candles now).length
  bars : ∀ r ∈ recentBars candles c now, (validBar r ∧ r.high ≥ r.low) ∧
    r.openMs ≤ r.closeMs ∧ r.closeMs - r.openMs = 3599999
  contiguous : ∀ pair ∈ windows (recentBars candles c now),
    pair.2.openMs = pair.1.openMs + 3600000
  fresh : now - ((recentBars candles c now).getLastD emptyCandle).closeMs ≤ 3660000

theorem calculate_eq_ok : (∃ m, calculate candles c now = .ok m) ↔ Usable candles c now := by
  simp only [calculate, List.forM_eq_forM, check_bind_eq_ok, ensure_eq_ok, forM_eq_ok]
  constructor
  · rintro ⟨m, enough, bars, contiguous, fresh, -⟩
    exact { enough, bars, contiguous, fresh }
  · rintro ⟨enough, bars, contiguous, fresh⟩
    exact ⟨_, enough, bars, contiguous, fresh, rfl⟩

end Calculate

end LpMaker.Indicators
