import LpMaker.Strategy.Durations

/-!
# The durations which a configuration may have

A history at one price brings every evaluator to each of its sums and products, so that an
evaluator which never faults up to a time has durations which fit before that time. Validation
bounds the cooldown of a profile and its intervals, but neither the age of the data nor the
decision bar, nor the waits of the legacy evaluator.
-/

namespace LpMaker.Arithmetic

open Fault

variable {F : Type} [F64 F]

section Inversion

variable {amount unit start seconds now : Nat}

theorem seq_eq_pass {first rest : Check} :
    (do first; rest) = pass ↔ first = pass ∧ rest = pass := by
  constructor
  · intro passes
    obtain ⟨_, here, later⟩ := bind_eq_ok.mp passes
    exact ⟨here, later⟩
  · exact fun ⟨here, later⟩ => seq_pass here later

theorem when_eq_pass {condition : Prop} [Decidable condition] {check : Check} :
    when condition check = pass ↔ (condition → check = pass) := by
  unfold when
  split_ifs with holds
  · exact ⟨fun passes _ => passes, fun passes => passes holds⟩
  · exact ⟨fun _ absurdly => absurd absurdly holds, fun _ => rfl⟩

theorem mul_fits {product : Nat} (fits : (mul 64 amount unit : Faulty String Nat) = .ok product) :
    amount * unit < 2 ^ 64 := by
  by_contra large
  rw [mul_of_ge (Nat.le_of_not_lt large)] at fits
  cases fits

theorem duration_fits (passes : duration amount unit = pass) : amount * unit < 2 ^ 64 := by
  obtain ⟨_, fits, -⟩ := bind_eq_ok.mp passes
  exact mul_fits fits

theorem bucket_fits (passes : bucket seconds now = pass) : seconds * 1000 < 2 ^ 64 := by
  obtain ⟨_, fits, -⟩ := bind_eq_ok.mp passes
  exact mul_fits fits

theorem deadline_fits (passes : deadline start amount unit = pass) :
    start + amount * unit < 2 ^ 64 := by
  obtain ⟨length, fits, later⟩ := bind_eq_ok.mp passes
  rw [mul_of_lt (mul_fits fits)] at fits
  cases fits
  obtain ⟨_, sum, -⟩ := bind_eq_ok.mp later
  by_contra large
  rw [add_of_ge (Nat.le_of_not_lt large)] at sum
  cases sum

end Inversion

/-- The numbers of the source are finite but for its special values, and the root of zero is
zero. -/
structure Ordinary (F : Type) [F64 F] : Prop where
  finite : ∀ x : F, F64.isFinite x = true
  sqrt_zero : F64.sqrt (0 : F) = 0

section History

open Indicators

variable {count now : Nat}

/-- The bar which opens `hours` hours before a time. -/
def flatBar (now hours : Nat) : Candle F :=
  ⟨now - hours * 3600000, now - hours * 3600000 + 3599999, 1, 1, 1, 1⟩

/-- Hourly bars at one price, the last of which has just closed. -/
def flatBars (count now : Nat) : List (Candle F) :=
  (List.range count).map fun i => flatBar now (count - i)

@[simp] theorem length_flatBars : (flatBars count now : List (Candle F)).length = count := by
  simp [flatBars]

theorem mem_flatBars {bar : Candle F} (mem : bar ∈ flatBars count now) :
    ∃ hours, 0 < hours ∧ hours ≤ count ∧ bar = flatBar now hours := by
  obtain ⟨i, inside, rfl⟩ := List.mem_map.mp mem
  have less := List.mem_range.mp inside
  exact ⟨count - i, by omega, by omega, rfl⟩

theorem completed_flatBars (old : count * 3600000 ≤ now) :
    completed (flatBars count now : List (Candle F)) now = flatBars count now := by
  refine List.filter_eq_self.mpr fun bar mem => ?_
  obtain ⟨hours, positive, _, rfl⟩ := mem_flatBars mem
  exact decide_eq_true (by unfold flatBar; dsimp only; omega)

theorem lastN_flatBars :
    lastN (flatBars count now : List (Candle F)) count = flatBars count now := by
  simp [lastN]

theorem validBar_flatBar (ordinary : Ordinary F) (hours : Nat) :
    validBar (flatBar now hours : Candle F) ∧
      (flatBar now hours : Candle F).high ≥ (flatBar now hours : Candle F).low := by
  simp [validBar, flatBar, ordinary.finite]

/-- The bars follow each other. -/
theorem windows_flatBars (old : count * 3600000 ≤ now) {pair : Candle F × Candle F}
    (mem : pair ∈ windows (flatBars count now)) : pair.2.openMs = pair.1.openMs + 3600000 := by
  obtain ⟨i, inside, rfl⟩ := List.getElem_of_mem mem
  have size : i < count - 1 := by simpa [windows] using inside
  simp only [windows, flatBars, List.getElem_zip, List.getElem_tail, List.getElem_map,
    List.getElem_range, flatBar]
  omega

theorem map_close_flatBars :
    (flatBars count now : List (Candle F)).map Candle.close = List.replicate count 1 := by
  rw [List.eq_replicate_iff]
  refine ⟨by simp, fun x mem => ?_⟩
  obtain ⟨bar, stored, rfl⟩ := List.mem_map.mp mem
  obtain ⟨hours, _, _, rfl⟩ := mem_flatBars stored
  rfl

theorem getD_flatBars {i : Nat} (inside : i < count) :
    (flatBars count now : List (Candle F)).getD i emptyCandle = flatBar now (count - i) := by
  simp [flatBars, inside]

theorem sum_replicate {k : Nat} (value : F) : (List.replicate k value).sum = k * value := by
  rw [List.sum_replicate, nsmul_eq_mul]

/-- Equal numbers do not deviate. -/
theorem stddev_replicate (ordinary : Ordinary F) (k : Nat) (value : F) :
    stddev (List.replicate k value) = 0 := by
  rcases k.eq_zero_or_pos with rfl | positive
  · simp [stddev, ordinary.sqrt_zero]
  · have nonzero : (k : F) ≠ 0 := Nat.cast_ne_zero.mpr positive.ne'
    have mean : (k * value) / k = value := mul_div_cancel_left₀ value nonzero
    simp [stddev, mean, ordinary.sqrt_zero]

theorem ema_replicate {k : Nat} (positive : 0 < k) (period : Nat) :
    ema (List.replicate k (1 : F)) period = (1, 1) := by
  obtain ⟨k, rfl⟩ := Nat.exists_eq_succ_of_ne_zero positive.ne'
  have kept : ∀ n : Nat, (List.replicate n (1 : F)).foldl
      (fun pair x => (2 / ((period : F) + 1) * x + (1 - 2 / ((period : F) + 1)) * pair.1, pair.1))
      (1, 1) = ((1, 1) : F × F) := by
    intro n
    induction n with
    | zero => rfl
    | succ n inductionHypothesis =>
        rw [List.replicate_succ, List.foldl_cons]
        simpa using inductionHypothesis
  exact kept k

theorem logReturns_replicate (k : Nat) :
    logReturns (List.replicate k (1 : F)) = List.replicate (k - 1) (F64.ln 1) := by
  rw [List.eq_replicate_iff]
  refine ⟨by simp [length_logReturns], fun x mem => ?_⟩
  obtain ⟨⟨previous, next⟩, adjacent, rfl⟩ := List.mem_map.mp mem
  obtain ⟨first, second⟩ := mem_of_mem_windows adjacent
  obtain rfl : previous = 1 := List.eq_of_mem_replicate first
  obtain rfl : next = 1 := List.eq_of_mem_replicate second
  dsimp only
  rw [div_one]

variable {c : StrategyConfig F}

theorem usable_flatBars (ordinary : Ordinary F) (old : lookback c * 3600000 ≤ now)
    (some : 0 < lookback c) : Usable (flatBars (lookback c) now : List (Candle F)) c now := by
  have recent : recentBars (flatBars (lookback c) now : List (Candle F)) c now =
      flatBars (lookback c) now := by
    unfold recentBars
    rw [completed_flatBars old, lastN_flatBars]
  refine ⟨by rw [completed_flatBars old, length_flatBars], fun r mem => ?_, fun pair mem => ?_, ?_⟩
  · rw [recent] at mem
    obtain ⟨hours, _, _, rfl⟩ := mem_flatBars mem
    refine ⟨validBar_flatBar ordinary hours, ?_⟩
    unfold flatBar
    dsimp only
    omega
  · rw [recent] at mem
    exact windows_flatBars old mem
  · rw [recent, getLastD_eq_getD, length_flatBars, getD_flatBars (by omega)]
    unfold flatBar
    dsimp only
    omega

/-- What the indicators say about a history at one price. -/
structure Calm (m : Metrics F) (now : Nat) : Prop where
  return_eq : m.return1h = 0
  ratio_eq : m.volRatio = 0
  level : m.downtrend = false
  close_eq : m.lastClose = 1
  time_eq : m.lastCloseMs = now - 1

theorem calculate_flatBars (ordinary : Ordinary F) (fit : WindowsFit c)
    (old : lookback c * 3600000 ≤ now) :
    ∃ m, calculate (flatBars (lookback c) now) c now = .ok m ∧ Calm m now := by
  have enough : 2 < lookback c := by
    have short := fit.short
    have long := fit.long
    exact lt_max_of_lt_left (by omega)
  obtain ⟨m, computed⟩ := calculate_eq_ok.mpr (usable_flatBars ordinary old (by omega))
  refine ⟨m, computed, ?_⟩
  have last : (flatBars (lookback c) now : List (Candle F)).getLastD emptyCandle =
      flatBar now 1 := by
    rw [getLastD_eq_getD, length_flatBars, getD_flatBars (by omega)]
    congr 1
    omega
  have split : max (c.volLongHours + c.volShortHours + 1) (c.emaSlowHours * 3) = lookback c := rfl
  simp only [calculate, List.forM_eq_forM, check_bind_eq_ok, ensure_eq_ok, forM_eq_ok,
    Except.ok.injEq, split, completed_flatBars old, lastN_flatBars, map_close_flatBars, last,
    logReturns_replicate, List.drop_replicate, List.take_replicate, stddev_replicate ordinary,
    ema_replicate (by omega : 0 < lookback c)] at computed
  obtain ⟨-, -, -, -, rfl⟩ := computed
  exact {
    return_eq := by
      have previous : (List.replicate (lookback c) (1 : F)).getD (lookback c - 2) 0 = 1 := by
        rw [List.getD_eq_getElem?_getD, List.getElem?_replicate_of_lt (by omega)]
        rfl
      simp only [List.length_replicate, previous, flatBar, div_one, sub_self]
    ratio_eq := zero_div _
    level := by simp
    close_eq := rfl
    time_eq := by
      unfold flatBar
      dsimp only
      omega }

end History

section Frames

/-- Nothing but cash, at one price. -/
def flatFrame (capital : F) (candles : List (Candle F)) (now : Nat) : MarketFrame F where
  nowMs := now
  pool := ⟨now, 1⟩
  hedgePrice := 1
  hedgeTimeMs := now
  candles := candles
  portfolio := ⟨[], 0, capital, 0, 0, 0⟩

/-- A known strategy in a phase, at the peak of its capital. -/
def waiting (c : StrategyConfig F) (phase : Phase) (now : Nat) : Strategy F :=
  { Strategy.default with
    entryHistory := .established
    phase := phase
    peakEquity := c.totalCapital
    pauseSince := now
    lastHour := now - 1
    healthyHours := c.resumeHealthyHours }

@[simp] theorem waiting_phase {c : StrategyConfig F} {phase : Phase} {now : Nat} :
    (waiting c phase now).phase = phase := rfl

variable {c : StrategyConfig F} {count now : Nat} {m : Metrics F}

/-- What validation says about the limits of the market. -/
structure Limited (c : StrategyConfig F) : Prop where
  capital_pos : 0 < c.totalCapital
  drawdown_pos : 0 < c.maxDrawdown
  basis_pos : 0 < c.maxBasisBps
  drop_pos : 0 < c.fastDrop1h
  ratio_pos : 0 < c.volPauseRatio
  buffer_lt : c.breakoutBuffer < 0.2

theorem limited {parsers : Parsers} {config : Config F} (valid : config.validate parsers = .ok ()) :
    Limited config.strategy := by
  obtain ⟨-, strategy, -⟩ := Config.validate_eq_ok.mp valid
  simp only [Config.validateStrategy, List.forM_eq_forM, check_bind_eq_ok, forM_eq_ok,
    ensure_eq_ok, List.forall_mem_cons] at strategy
  obtain ⟨budgets, -, -, fractions, -, -, -, ratio, buffer, -⟩ := strategy
  exact {
    capital_pos := budgets.1.2
    drawdown_pos := fractions.1.2.1
    basis_pos := budgets.2.2.2.2.1.2
    drop_pos := fractions.2.1.2.1
    ratio_pos := ratio.1.trans ratio.2.1
    buffer_lt := buffer.2.2 }

theorem representable {f : MarketFrame F} {s : Strategy F} (now_eq : f.nowMs = now)
    (pool : f.pool.timeMs = now) (hedge : f.hedgeTimeMs = now)
    (bars : f.candles = flatBars count now) (word : now < 2 ^ 64) (pause : s.pauseSince ≤ now) :
    Representable now f s where
  now_le := now_eq.le
  pause_le := pause
  pool_lt := pool ▸ word
  hedge_lt := hedge ▸ word
  bars_lt bar mem := by
    rw [bars] at mem
    obtain ⟨hours, positive, _, rfl⟩ := mem_flatBars mem
    unfold flatBar
    dsimp only
    omega

section Legacy

open Strategy

theorem marketRisks_flat {capital : F} {candles : List (Candle F)} (limits : Limited c)
    (calm : Calm m now) : marketRisks c (flatFrame capital candles now) m = [] := by
  obtain ⟨-, -, basis, drop, ratio, -⟩ := limits
  simp [marketRisks, flatFrame, calm.return_eq, calm.ratio_eq, calm.level, calm.close_eq,
    drop.le, ratio.le, basis.le]

variable {phase : Phase}

theorem startFrame_waiting {capital : F} {candles : List (Candle F)} (begun : phase ≠ .warmup) :
    (waiting c phase now).startFrame (flatFrame capital candles now) = waiting c phase now := by
  simp [startFrame, observeLp, enterFromWarmup, flatFrame, waiting, begun]

theorem accountEquity_waiting {candles : List (Candle F)} (limits : Limited c) :
    (waiting c phase now).accountEquity c (flatFrame c.totalCapital candles now) =
      waiting c phase now := by
  have above : c.totalCapital * (1 - c.maxDrawdown) < c.totalCapital :=
    mul_lt_of_lt_one_right limits.capital_pos (by linarith [limits.drawdown_pos])
  simp [accountEquity, trackPeak, haltWhen, drawdownBreached, flatFrame, waiting,
    Portfolio.equity, Portfolio.base, above.le]

theorem observeMarket_waiting {capital : F} {candles : List (Candle F)} (limits : Limited c)
    (calm : Calm m now) :
    ((waiting c phase now).observeMarket c (flatFrame capital candles now) false m).1 =
      waiting c phase now := by
  have risks : marketRisks c (flatFrame capital candles now) m = [] := marketRisks_flat limits calm
  simp [Strategy.observeMarket, applyRisk, creditHour, Strategy.countHour, risks, calm.time_eq,
    waiting]

/-- A known strategy at one price comes to its transition and to what follows. -/
theorem decides_of_pass (ordinary : Ordinary F) (limits : Limited c)
    (fit : Indicators.WindowsFit c) (old : Indicators.lookback c * 3600000 ≤ now)
    (word : now < 2 ^ 64) (begun : phase ≠ .warmup) (running : phase ≠ .halted)
    (passes : evaluateInner c
      (flatFrame c.totalCapital (flatBars (Indicators.lookback c) now) now) false
      (waiting c phase now) = pass) :
    ∃ healthy, advance c false false healthy (waiting c phase now) = pass ∧
      (((waiting c phase now).advance c
        (flatFrame c.totalCapital (flatBars (Indicators.lookback c) now) now) false false
          healthy).2 ≠ none → c.decisionBarSeconds * 1000 < 2 ^ 64) := by
  obtain ⟨m, computed, calm⟩ := calculate_flatBars ordinary fit old
  generalize framed : flatFrame c.totalCapital (flatBars (Indicators.lookback c) now) now = f
    at passes ⊢
  have now_eq : f.nowMs = now := by rw [← framed]; rfl
  have bars : f.candles = flatBars (Indicators.lookback c) now := by rw [← framed]; rfl
  have usable : (stale c f || !validFrame f) = false := by
    simp [← framed, stale, validFrame, flatFrame, ordinary.finite]
  have started : (waiting c phase now).startFrame f = waiting c phase now := by
    rw [← framed]
    exact startFrame_waiting begun
  have accounted : (waiting c phase now).accountEquity c f = waiting c phase now := by
    rw [← framed]
    exact accountEquity_waiting limits
  have risks : marketRisks c f m = [] := by
    rw [← framed]
    exact marketRisks_flat limits calm
  have observed : ((waiting c phase now).observeMarket c f false m).1 = waiting c phase now := by
    rw [← framed]
    exact observeMarket_waiting limits calm
  have guarded : Indicators.Guarded.calculate f.candles c f.nowMs = .ok m := by
    rw [now_eq, bars, Indicators.calculate_agrees fit word, computed]
    rfl
  unfold evaluateInner at passes
  simp only [started, accounted, seq_eq_pass, when_eq_pass, guarded] at passes
  have decided := passes.2 usable running
  unfold decideMarket at decided
  simp only [observed, risks, List.isEmpty_nil, Bool.not_true, seq_eq_pass] at decided
  obtain ⟨-, moved, bar⟩ := decided
  refine ⟨_, moved, fun decides => ?_⟩
  obtain ⟨intent, given⟩ := Option.ne_none_iff_exists'.mp decides
  rw [given] at bar
  exact bucket_fits (seq_eq_pass.mp bar).1

/-- The age, the cooldown, the step and the bar are all reached. -/
theorem legacy_fits (ordinary : Ordinary F) (limits : Limited c)
    (fit : Indicators.WindowsFit c) (old : Indicators.lookback c * 3600000 ≤ now)
    (word : now < 2 ^ 64) (absent : c.ethPersistent = none) (never : NeverFaults c now) :
    DurationsFit c now := by
  have reached : ∀ phase, evaluateInner c
      (flatFrame c.totalCapital (flatBars (Indicators.lookback c) now) now) false
      (waiting c phase now) = pass := fun phase =>
    never.legacy absent _ _ false (representable rfl rfl rfl rfl word le_rfl)
  have decides := fun phase (begun : phase ≠ .warmup) (running : phase ≠ .halted) =>
    decides_of_pass ordinary limits fit old word begun running (reached phase)
  obtain ⟨_, -, bar⟩ := decides .active nofun nofun
  obtain ⟨_, paused, -⟩ := decides .paused nofun nofun
  obtain ⟨_, recovering, -⟩ := decides .recovering nofun nofun
  have cooldown : duration c.cooldownHours 3600000 = pass := by
    rw [advance, waiting_phase, if_pos rfl, when_eq_pass] at paused
    exact paused ⟨rfl, .inl rfl, le_rfl⟩
  have step : duration c.recoveryStepHours 3600000 = pass := by
    rw [advance, waiting_phase, if_neg (by decide), when_eq_pass] at recovering
    exact recovering ⟨rfl, .inl rfl, le_rfl⟩
  refine ⟨duration_fits (seq_eq_pass.mp (reached .active)).1, bar nofun, ?_⟩
  rw [absent]
  exact ⟨duration_fits cooldown, duration_fits step⟩

end Legacy

section Profiles

variable {profile : PersistentConfig F} {band : BandConfig F} {f : MarketFrame F} {x : Feature F}
  {s : Strategy F} {capital : F}

/-- The features of a history at one price. -/
def flatFeature (now : Nat) : Feature F := ⟨now - 1, 1, 0, 0, 0, 0, 0⟩

theorem at_flatBars (ordinary : Ordinary F) (old : 73 * 3600000 ≤ now) :
    Feature.at_ (flatBars 73 now) 72 = (flatFeature now : Feature F) := by
  have bar : ∀ i < 73, (flatBars 73 now : List (Candle F)).getD i Indicators.emptyCandle =
      flatBar now (73 - i) := fun i inside => getD_flatBars inside
  have close : ∀ i < 73, ((flatBars 73 now : List (Candle F)).getD i
      Indicators.emptyCandle).close = 1 := fun i inside => by rw [bar i inside]; rfl
  have time : ((flatBars 73 now : List (Candle F)).getD 72 Indicators.emptyCandle).closeMs =
      now - 1 := by
    rw [bar 72 (by norm_num)]
    unfold flatBar
    dsimp only
    omega
  have returns : ((List.range 6).map fun j => F64.ln
      (((flatBars 73 now : List (Candle F)).getD (72 - 5 + j) Indicators.emptyCandle).close /
        ((flatBars 73 now : List (Candle F)).getD (72 - 5 + j - 1) Indicators.emptyCandle).close)) =
      List.replicate 6 (F64.ln 1) := by
    rw [List.eq_replicate_iff]
    refine ⟨by simp, fun r mem => ?_⟩
    obtain ⟨j, inside, rfl⟩ := List.mem_map.mp mem
    rw [List.mem_range] at inside
    rw [close _ (by omega), close _ (by omega), div_one]
  have mean : (List.replicate 6 (F64.ln (1 : F))).sum / 6 = F64.ln 1 := by
    rw [sum_replicate, Nat.cast_ofNat]
    exact mul_div_cancel_left₀ _ (by norm_num)
  have deviation : F64.sqrt (((List.replicate 6 (F64.ln (1 : F))).map fun r =>
      (r - F64.ln 1) ^ 2).sum / 6) = 0 := by
    simp [ordinary.sqrt_zero]
  have flat : (1 : F) / 1 - 1 = 0 := by rw [div_one, sub_self]
  unfold Feature.at_ flatFeature
  dsimp only
  rw [time, returns, mean, deviation, close 72 (by norm_num), close (72 - 1) (by norm_num),
    close (72 - 6) (by norm_num), close (72 - 24) (by norm_num), close (72 - 72) (by norm_num),
    flat]

theorem latest_flatBars (ordinary : Ordinary F) (old : 73 * 3600000 ≤ now) :
    Feature.latest (flatBars 73 now) now = .ok (flatFeature now : Feature F) := by
  simp only [Feature.latest, List.forM_eq_forM, check_bind_eq_ok, ensure_eq_ok, forM_eq_ok,
    Except.ok.injEq, completed_flatBars old, lastN_flatBars, length_flatBars]
  refine ⟨le_rfl, fun r mem => ?_, fun w mem => windows_flatBars old mem, ?_,
    at_flatBars ordinary old⟩
  · obtain ⟨hours, _, _, rfl⟩ := mem_flatBars mem
    refine ⟨(validBar_flatBar ordinary hours).1, ?_⟩
    unfold flatBar hourMs
    dsimp only
    omega
  · rw [getD_flatBars (by norm_num)]
    unfold flatBar hourMs
    dsimp only
    omega

/-- A frame at one price, with nothing but cash and empty positions. -/
structure Level (f : MarketFrame F) (capital : F) (now : Nat) : Prop where
  now_eq : f.nowMs = now
  pool_eq : f.pool = ⟨now, 1⟩
  hedge_eq : f.hedgePrice = 1
  hedgeTime_eq : f.hedgeTimeMs = now
  candles_eq : f.candles = flatBars 73 now
  equity_eq : f.portfolio.equity 1 = capital

theorem broken_flatFeature (ordinary : Ordinary F) (level : Level f capital now)
    (positive : 0 < now) :
    broken f (flatFeature now) = false ∧
      ∀ c, (flatFeature now : Feature F).unusable c f = false := by
  have earlier : ¬now ≤ now - 1 := by omega
  have close : now - (now - 1) = 1 := by omega
  have price : ¬(1 : F) ≤ 0 := not_le.mpr zero_lt_one
  have prefixed : broken f (flatFeature now) = false := by
    simp [broken, flatFeature, ordinary.finite, level.now_eq, level.pool_eq, level.hedge_eq,
      level.hedgeTime_eq, earlier, close, hourMs, price]
  refine ⟨prefixed, fun c => ?_⟩
  have unusable : (flatFeature now : Feature F).unusable c f =
    (broken f (flatFeature now) || f.nowMs - f.pool.timeMs > c.maxDataAgeSeconds * 1000 ||
      f.nowMs - f.hedgeTimeMs > c.maxDataAgeSeconds * 1000) := rfl
  rw [unusable, prefixed]
  simp [level.now_eq, level.pool_eq, level.hedgeTime_eq]

/-- A level frame comes to the age of its data and to the evaluator of the profile. -/
theorem reaches_of_pass (ordinary : Ordinary F) (level : Level f capital now)
    (old : 73 * 3600000 ≤ now) (word : now < 2 ^ 64)
    (passes : Persistent.evaluate profile c f s = pass) :
    c.maxDataAgeSeconds * 1000 < 2 ^ 64 ∧
      (match profile.band with
      | some band => Band.evaluate profile band c f (flatFeature now) s
      | none => do
          Persistent.observe c f (flatFeature now) s
          Persistent.act profile c f
            (LpMaker.Persistent.observe profile c f (flatFeature now) s)) = pass := by
  obtain ⟨whole, usable⟩ := broken_flatFeature ordinary level (by omega)
  unfold Persistent.evaluate at passes
  rw [latestFeature_agrees (by rw [level.now_eq]; exact word), level.candles_eq, level.now_eq,
    latest_flatBars ordinary old] at passes
  obtain ⟨aged, later⟩ := seq_eq_pass.mp passes
  exact ⟨duration_fits (when_eq_pass.mp aged whole), when_eq_pass.mp later (usable c)⟩

theorem level_flatFrame : Level (flatFrame capital (flatBars 73 now) now) capital now where
  now_eq := rfl
  pool_eq := rfl
  hedge_eq := rfl
  hedgeTime_eq := rfl
  candles_eq := rfl
  equity_eq := by simp [flatFrame, Portfolio.equity, Portfolio.base]

omit [F64 F] in
/-- A pause set elsewhere comes to the end of its cooldown. -/
theorem cooldown_fits {st : PersistentState F} (passes : anchorPause c s st = pass)
    (paused : s.phase = .paused) (moved : st.pauseAnchorMs ≠ s.pauseSince) :
    s.pauseSince + c.cooldownHours * hourMs < 2 ^ 64 :=
  deadline_fits (when_eq_pass.mp passes ⟨paused, moved⟩)

theorem dangerOrBasis_level (limits : Limited c) (level : Level f capital now)
    (drops : 0 < profile.drop24h ∧ 0 < profile.drop72h ∧ 0 < profile.maxHourlyVol) :
    (profile.guard c).dangerOrBasis c f (flatFeature now) = none := by
  obtain ⟨drop24, drop72, vol⟩ := drops
  simp [Guard.dangerOrBasis, Guard.danger, PersistentConfig.guard, flatFeature, level.pool_eq,
    level.hedge_eq, limits.basis_pos.le, not_lt.mpr limits.drop_pos.le, not_lt.mpr drop24.le,
    not_lt.mpr drop72.le, not_lt.mpr vol.le]

/-- The first entry comes to the number of its bar. -/
theorem bar_fits (limits : Limited c)
    (drops : 0 < profile.drop24h ∧ 0 < profile.drop72h ∧ 0 < profile.maxHourlyVol)
    (level : Level f c.totalCapital now) (flat : f.portfolio.positions = [])
    (passes : Persistent.act profile c f
      (LpMaker.Persistent.observe profile c f (flatFeature now) Strategy.default) = pass) :
    c.decisionBarSeconds * 1000 < 2 ^ 64 := by
  have accounted := @LpMaker.Persistent.observe_accounted F _ f (flatFeature now)
    Strategy.default profile c
  have outside : (LpMaker.Persistent.observe profile c f (flatFeature now)
      Strategy.default).outside = false := by
    simp [LpMaker.Persistent.observe, Strategy.observeBreakouts, flat]
  have first : (LpMaker.Persistent.observe profile c f (flatFeature now)
      Strategy.default).s.entryHistory = .initial := by
    simp [LpMaker.Persistent.observe, LpMaker.Persistent.anchorPause_entryHistory, flat,
      Strategy.observeLp, Strategy.default]
  generalize LpMaker.Persistent.observe profile c f (flatFeature now) Strategy.default = o
    at accounted outside first passes
  have peak : o.s.peakEquity = c.totalCapital := by
    rw [accounted.peak, level.pool_eq, level.equity_eq]
    simp [Strategy.default, limits.capital_pos.le]
  have above : ¬c.totalCapital ≤ c.totalCapital * (1 - c.maxDrawdown) :=
    not_le.mpr (mul_lt_of_lt_one_right limits.capital_pos (by linarith [limits.drawdown_pos]))
  have running : o.s.phase = .warmup := by
    rw [accounted.phase, level.pool_eq, level.equity_eq, peak, if_neg above]
    rfl
  have stays : ¬o.leaves := by
    simp [LpMaker.Persistent.Observation.leaves, running, outside, accounted.danger,
      dangerOrBasis_level limits level drops]
  rw [Persistent.act, if_neg stays, if_pos flat] at passes
  unfold Persistent.enterOrWait at passes
  simp only [seq_eq_pass, when_eq_pass, Strategy.awaitCooldown_entryHistory, first, true_or,
    forall_const] at passes
  exact bucket_fits passes.2.2

/-- An empty position whose range lies above the price. -/
def above : LpPosition F := ⟨"core", none, 2, 3, 0, "0", 0, 0, 0, 0⟩

def heldFrame (capital : F) (now : Nat) : MarketFrame F :=
  { flatFrame capital (flatBars 73 now) now with portfolio := ⟨[above], 0, capital, 0, 0, 0⟩ }

theorem level_heldFrame : Level (heldFrame capital now) capital now where
  now_eq := rfl
  pool_eq := rfl
  hedge_eq := rfl
  hedgeTime_eq := rfl
  candles_eq := rfl
  equity_eq := by simp [heldFrame, above, Portfolio.equity, Portfolio.base]

/-- An active strategy which has counted enough bars below the range. -/
def breaking (c : StrategyConfig F) (now : Nat) : Strategy F :=
  { waiting c .active now with
    layers := AList.insert "core" ⟨false, -1, c.breakoutConfirmBars⟩ ∅ }

/-- The next bar below the range confirms the breakout. -/
theorem observe_breaking (limits : Limited c)
    (drops : 0 < profile.drop24h ∧ 0 < profile.drop72h ∧ 0 < profile.maxHourlyVol)
    (confirm : c.breakoutConfirmBars < 2 ^ 32) (positive : 0 < c.decisionBarSeconds)
    (elapsed : c.decisionBarSeconds * 1000 ≤ now) :
    (LpMaker.Persistent.observe profile c (heldFrame c.totalCapital now) (flatFeature now)
      (breaking c now)).outside = true := by
  have level : Level (heldFrame c.totalCapital now) c.totalCapital now := level_heldFrame
  have danger := dangerOrBasis_level limits level drops
  have below : c.totalCapital * (1 - c.maxDrawdown) < c.totalCapital :=
    mul_lt_of_lt_one_right limits.capital_pos (by linarith [limits.drawdown_pos])
  have opened : 0 < now / c.decisionBarSeconds / 1000 := by
    rw [Nat.div_div_eq_div_mul]
    exact Nat.div_pos elapsed (by omega)
  have side : LpMaker.Persistent.side c (1 : F) above = -1 := by
    have lower : (1 : F) < 2 * (1 - c.breakoutBuffer) := by linarith [limits.buffer_lt]
    simp [LpMaker.Persistent.side, above, lower]
  have counted : c.breakoutConfirmBars ≤ Strategy.saturatingSucc c.breakoutConfirmBars := by
    unfold Strategy.saturatingSucc
    omega
  have equity : (heldFrame c.totalCapital now).portfolio.equity
      (heldFrame c.totalCapital now).pool.price = c.totalCapital := level.equity_eq
  have seen : (breaking c now).observeLp
      (!(heldFrame c.totalCapital now).portfolio.positions.isEmpty) = breaking c now := rfl
  have clocks : (breaking c now).ethPersistent.getD .default = .default := rfl
  have anchored : LpMaker.Persistent.anchorPause c (breaking c now) .default =
      (breaking c now, .default) := if_neg (by simp [breaking])
  have kept : (breaking c now).forgetAfterGap c (heldFrame c.totalCapital now) .default =
      breaking c now := if_neg (by simp [PersistentState.default])
  have peak : (breaking c now).trackPeak c.totalCapital c = breaking c now := by
    simp [Strategy.trackPeak, breaking, waiting]
  have running : (breaking c now).haltWhen
      (c.totalCapital ≤ (breaking c now).peakEquity * (1 - c.maxDrawdown)) = breaking c now :=
    if_neg (not_le.mpr below)
  have hour : (breaking c now).countHealthyHour (profile.guard c) none (flatFeature now)
      (heldFrame c.totalCapital now).pool.price = breaking c now :=
    if_neg (lt_irrefl (now - 1))
  simp only [LpMaker.Persistent.observe, equity, seen, clocks, anchored, kept, peak, running,
    danger, hour]
  have new : decide ((heldFrame c.totalCapital now).nowMs / c.decisionBarSeconds / 1000 >
      (breaking c now).lastDecisionBar) = true := decide_eq_true opened
  have counter : (breaking c now).layers.entry "core" = ⟨false, -1, c.breakoutConfirmBars⟩ := by
    unfold Layers.entry breaking
    dsimp only
    rw [AList.lookup_insert]
    rfl
  have fresh : (breaking c now).lastDecisionBar = 0 := rfl
  have price : (heldFrame c.totalCapital now).pool.price = 1 := rfl
  have positions : (heldFrame c.totalCapital now).portfolio.positions = [above] := rfl
  have layer : (above : LpPosition F).layer = "core" := rfl
  rw [new]
  simp [Strategy.observeBreakouts, Strategy.countOutside, positions, price, fresh, side, counter,
    layer, counted]

/-- A confirmed breakout comes to the end of its bar. -/
theorem barEnd_fits (limits : Limited c)
    (drops : 0 < profile.drop24h ∧ 0 < profile.drop72h ∧ 0 < profile.maxHourlyVol)
    (outside : (LpMaker.Persistent.observe profile c (heldFrame c.totalCapital now)
      (flatFeature now) (breaking c now)).outside = true)
    (passes : Persistent.act profile c (heldFrame c.totalCapital now)
      (LpMaker.Persistent.observe profile c (heldFrame c.totalCapital now) (flatFeature now)
        (breaking c now)) = pass) :
    now + c.decisionBarSeconds * 1000 < 2 ^ 64 := by
  have level : Level (heldFrame c.totalCapital now) c.totalCapital now := level_heldFrame
  have accounted := @LpMaker.Persistent.observe_accounted F _ (heldFrame c.totalCapital now)
    (flatFeature now) (breaking c now) profile c
  generalize LpMaker.Persistent.observe profile c (heldFrame c.totalCapital now)
    (flatFeature now) (breaking c now) = o at accounted outside passes
  have equity : (heldFrame c.totalCapital now).portfolio.equity
      (heldFrame c.totalCapital now).pool.price = c.totalCapital := level.equity_eq
  have peak : o.s.peakEquity = c.totalCapital := by
    rw [accounted.peak, equity]
    simp [breaking, waiting]
  have above : ¬c.totalCapital ≤ c.totalCapital * (1 - c.maxDrawdown) :=
    not_le.mpr (mul_lt_of_lt_one_right limits.capital_pos (by linarith [limits.drawdown_pos]))
  have running : o.s.phase = .active := by
    rw [accounted.phase, equity, peak, if_neg above]
    rfl
  have safe : o.danger.isNone := by
    rw [accounted.danger, dangerOrBasis_level limits level drops]
    rfl
  rw [Persistent.act, if_pos (.inr (.inr outside)), Persistent.exit, if_pos ⟨outside, safe⟩,
    leave, when_eq_pass, running] at passes
  exact deadline_fits (passes ⟨nofun, .inl nofun⟩)

end Profiles

end Frames

section Configured

variable {parsers : Parsers} {config : Config F} {latest : Nat}

/-- The age, the bar, the cooldown of a pause and the bar of a breakout are all reached. -/
theorem profile_fits (valid : config.validate parsers = .ok ()) (ordinary : Ordinary F)
    (confirm : config.strategy.breakoutConfirmBars < 2 ^ 32) (old : 73 * 3600000 ≤ latest)
    (word : latest < 2 ^ 64) {profile : PersistentConfig F}
    (configured : config.strategy.ethPersistent = some profile)
    (never : NeverFaults config.strategy latest) : DurationsFit config.strategy latest := by
  have limits := limited valid
  have positive := (Config.strategyAccepted valid).decisionBarSeconds_pos
  have checked := Config.persistent_validate valid configured
  simp only [PersistentConfig.validate, check_bind_eq_ok, ensure_eq_ok,
    List.forall_mem_cons] at checked
  have drops : 0 < profile.drop24h ∧ 0 < profile.drop72h ∧ 0 < profile.maxHourlyVol := by
    obtain ⟨-, -, -, -, ⟨⟨drop24, drop72, vol, -⟩, -⟩, -⟩ := checked
    exact ⟨drop24.2.1, drop72.2.1, vol.2.1⟩
  generalize config.strategy = c at *
  have level : Level (flatFrame c.totalCapital (flatBars 73 latest) latest) c.totalCapital
    latest := level_flatFrame
  have moved : (0 : Nat) ≠ latest := by omega
  obtain ⟨age, paused⟩ := reaches_of_pass ordinary level old word
    (never.profile profile configured _ (waiting c .paused latest)
      (representable rfl rfl rfl rfl word le_rfl))
  cases banded : profile.band with
  | some band =>
      rw [banded] at paused
      obtain ⟨observed, -⟩ := seq_eq_pass.mp paused
      unfold Band.observe at observed
      simp only [seq_eq_pass] at observed
      obtain ⟨anchored, -, -, numbered, -⟩ := observed
      refine ⟨age, bucket_fits numbered, ?_⟩
      rw [configured]
      refine ⟨cooldown_fits anchored rfl moved, fun absent => ?_⟩
      rw [banded] at absent
      cases absent
  | none =>
      rw [banded] at paused
      obtain ⟨observed, -⟩ := seq_eq_pass.mp paused
      obtain ⟨anchored, -⟩ := seq_eq_pass.mp observed
      obtain ⟨-, entered⟩ := reaches_of_pass ordinary level old word
        (never.profile profile configured _ Strategy.default
          (representable rfl rfl rfl rfl word (Nat.zero_le _)))
      rw [banded] at entered
      refine ⟨age, bar_fits limits drops level rfl (seq_eq_pass.mp entered).2, ?_⟩
      rw [configured]
      refine ⟨cooldown_fits anchored rfl moved, fun _ elapsed => ?_⟩
      obtain ⟨-, left⟩ := reaches_of_pass ordinary level_heldFrame old word
        (never.profile profile configured (heldFrame c.totalCapital latest) (breaking c latest)
          (representable rfl rfl rfl rfl word le_rfl))
      rw [banded] at left
      exact barEnd_fits limits drops (observe_breaking limits drops confirm positive elapsed)
        (seq_eq_pass.mp left).2

/-- The evaluators of a validated configuration never overflow up to a time exactly when its
durations fit before that time. -/
theorem never_faults_iff (valid : config.validate parsers = .ok ()) (ordinary : Ordinary F)
    (confirm : config.strategy.breakoutConfirmBars < 2 ^ 32) (recent : 10 ^ 12 ≤ latest)
    (word : latest < 2 ^ 64) :
    NeverFaults config.strategy latest ↔ DurationsFit config.strategy latest := by
  refine ⟨fun never => ?_, neverFaults_of_fit valid word⟩
  cases configured : config.strategy.ethPersistent with
  | some profile =>
      exact profile_fits valid ordinary confirm (by omega) word configured never
  | none =>
      have fit := Indicators.windowsFit valid
      have lookback : Indicators.lookback config.strategy ≤ 12000 := by
        have short := fit.long
        have long := fit.long_lt
        have slow := fit.slow_lt
        exact max_le (by omega) (by omega)
      exact legacy_fits ordinary (limited valid) fit (by omega) word configured never

end Configured

end LpMaker.Arithmetic

namespace LpMaker.Shipped

open Arithmetic

theorem ordinary : Ordinary ℚ where
  finite _ := rfl
  sqrt_zero := by simp [F64.sqrt]

instance (c : StrategyConfig ℚ) (latest : Nat) : Decidable (DurationsFit c latest) := by
  unfold DurationsFit
  cases c.ethPersistent <;> infer_instance

/-- The shipped profiles run for millions of years. -/
theorem never_faults_on_shipped :
    NeverFaults robinhood.strategy (2 ^ 63) ∧ NeverFaults ethPersistentDd5.strategy (2 ^ 63) ∧
      NeverFaults ethBandPaper.strategy (2 ^ 63) := by
  refine ⟨(never_faults_iff robinhood_valid ordinary ?_ ?_ ?_).mpr ?_,
    (never_faults_iff ethPersistentDd5_valid ordinary ?_ ?_ ?_).mpr ?_,
    (never_faults_iff ethBandPaper_valid ordinary ?_ ?_ ?_).mpr ?_⟩ <;> decide +kernel

/-- A decision bar which is accepted, but whose milliseconds wrap around to zero. -/
def wideBars : Config ℚ :=
  { robinhood with strategy := { robinhood.strategy with decisionBarSeconds := 2 ^ 61 } }

theorem wideBars_valid : wideBars.validate parsers = .ok () :=
  Config.validate_eq_ok.mpr ⟨by decide +kernel, by decide +kernel, venues_valid false _⟩

/-- The first frame of a run, without a position. -/
def firstFrame : MarketFrame ℚ := frame 180 1000 100 100 100 (flatPortfolio 6000 2500 1500)

/-- The first entry divides by that zero. -/
theorem wide_bars_fault :
    wideBars.validate parsers = .ok () ∧ 2 ^ 61 * 1000 % 2 ^ 64 = 0 ∧
      Representable (2 ^ 63) firstFrame Strategy.default ∧
      evaluateInner wideBars.strategy firstFrame true Strategy.default = .error .panic :=
  ⟨wideBars_valid, by decide +kernel,
    ⟨by decide +kernel, by decide +kernel, by decide +kernel, by decide +kernel,
      by decide +kernel⟩, by decide +kernel⟩

end LpMaker.Shipped
