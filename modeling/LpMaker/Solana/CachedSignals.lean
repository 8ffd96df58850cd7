import LpMaker.Semantics.Chronicle
import LpMaker.Solana.Config
import LpMaker.Solana.Simulation
import LpMaker.Strategy.IndicatorSafety

/-!
# Cached signals

The research reads the signals of a bar from the last 450 closed candles, while the runner sizes
its history by the configuration. On a loaded dataset both give the same signals exactly when the
indicators of the configuration never look back further, or no bar has so many candles before it.
-/

namespace LpMaker

variable {F : Type} [F64 F]

namespace Indicators

variable {α : Type} {items : List α} {pair : α × α}

omit [F64 F] in
theorem lookback_pos {s : StrategyConfig F} : 0 < lookback s :=
  lt_max_of_lt_left (Nat.succ_pos _)

theorem windows_cons_cons {x y : α} {rest : List α} :
    windows (x :: y :: rest) = (x, y) :: windows (y :: rest) := rfl

/-- The consecutive pairs of a list are those of its two parts and the pair between them. -/
theorem windows_append_cons {x y : α} {before after : List α} :
    windows (before ++ x :: y :: after) =
      windows (before ++ [x]) ++ (x, y) :: windows (y :: after) := by
  induction before with
  | nil => rfl
  | cons first before inductionHypothesis =>
      cases before with
      | nil => rfl
      | cons second before =>
          simp only [List.cons_append, windows_cons_cons] at inductionHypothesis ⊢
          rw [inductionHypothesis]

theorem windows_of_suffix {suffix : List α} (isSuffix : suffix <:+ items)
    (mem : pair ∈ windows suffix) : pair ∈ windows items := by
  obtain ⟨before, rfl⟩ := isSuffix
  induction before with
  | nil => exact mem
  | cons first before inductionHypothesis =>
      cases joined : before ++ suffix with
      | nil =>
          rw [joined] at inductionHypothesis
          cases inductionHypothesis
      | cons second rest =>
          rw [List.cons_append, joined, windows_cons_cons, ← joined]
          exact List.mem_cons_of_mem _ inductionHypothesis

theorem windows_of_initial {before : List α} (isPrefix : before <+: items)
    (mem : pair ∈ windows before) : pair ∈ windows items := by
  obtain ⟨after, rfl⟩ := isPrefix
  induction before with
  | nil => cases mem
  | cons first before inductionHypothesis =>
      cases before with
      | nil => cases mem
      | cons second before =>
          rw [windows_cons_cons, List.mem_cons] at mem
          rw [List.cons_append, List.cons_append, windows_cons_cons, List.mem_cons]
          exact mem.imp_right inductionHypothesis

/-- A transitive relation between neighbours holds between all entries in order. -/
theorem pairwise_of_windows {R : α → α → Prop} (trans : ∀ {x y z}, R x y → R y z → R x z)
    (each : ∀ pair ∈ windows items, R pair.1 pair.2) : items.Pairwise R := by
  have : Trans R R R := ⟨trans⟩
  rw [← List.isChain_iff_pairwise]
  induction items with
  | nil => exact .nil
  | cons first rest inductionHypothesis =>
      cases rest with
      | nil => exact .singleton first
      | cons second rest =>
          rw [windows_cons_cons, List.forall_mem_cons] at each
          exact .cons_cons each.1 (inductionHypothesis each.2)

section Window

variable {bars bars' : List (Candle F)} {s : StrategyConfig F} {now : Nat}

omit [F64 F]

theorem completed_completed : completed (completed bars now) now = completed bars now := by
  unfold completed
  rw [List.filter_filter]
  simp

theorem completed_of_suffix {suffix : List (Candle F)} (isSuffix : suffix <:+ completed bars now) :
    completed suffix now = suffix := by
  apply List.filter_eq_self.mpr
  intro bar mem
  exact decide_eq_true (mem_completed.mp (isSuffix.mem mem)).2

/-- A list cut to its last `size` entries keeps its last `count`. -/
theorem lastN_lastN {size count : Nat} (within : count ≤ size) :
    lastN (lastN items size) count = lastN items count := by
  unfold lastN
  rw [List.drop_drop, List.length_drop]
  congr 1
  omega

theorem le_length_lastN {size count : Nat} (within : count ≤ size) :
    count ≤ (lastN items size).length ↔ count ≤ items.length := by
  unfold lastN
  rw [List.length_drop]
  omega

end Window

end Indicators

namespace Research

open Indicators

/-- The prices of a bar are positive, and the extremes enclose the body. -/
def Bar.Valid (b : Bar F) : Prop :=
  (∀ v ∈ [b.open_, b.high, b.low, b.close], F64.isFinite v ∧ v > 0) ∧
    b.high ≥ max b.open_ b.close ∧ b.low ≤ min b.open_ b.close

instance (b : Bar F) : Decidable b.Valid := by
  unfold Bar.Valid
  infer_instance

/-- One row of the funding history. -/
def addFunding (funding : Nat → Option F) (row : Nat × F) : Except String (Nat → Option F) := do
  let t := row.1 / hourMs * hourMs
  ensure (F64.isFinite row.2 ∧ |row.2| ≤ 1) "invalid funding rate"
  ensure (funding t).isNone "duplicate funding hour"
  pure (Function.update funding t (some row.2))

/-- The dataset of the rows read from the files, or why they are refused. -/
def load (start end_ : Nat) (pool : List (Bar F)) (hedge : List (Candle F))
    (rates : List (Nat × F)) : Except String (Data F) := do
  ensure (end_ > start ∧ start ≥ 432 * hourMs) "invalid research window"
  let funding ← rates.foldlM addFunding fun _ => none
  ensure (pool.length = (end_ - start) / hourMs) "incomplete pool hours"
  pool.zipIdx.forM fun (b, i) => do
    ensure (b.timestamp * 1000 = start + i * hourMs) "pool gap/duplicate"
    ensure b.Valid "invalid pool OHLC"
    ensure (funding (b.timestamp * 1000)).isSome "funding gap"
  (windows hedge).forM fun (previous, next) =>
    ensure (next.openMs = previous.openMs + hourMs) "HL gap"
  hedge.forM fun h =>
    ensure ((h.openMs ≤ h.closeMs ∧ h.closeMs - h.openMs = hourMs - 1) ∧ validBar h)
      "invalid hedge OHLC"
  let first ← context hedge.head? "no HL"
  ensure (first.openMs ≤ start - 432 * hourMs ∧
      (hedge.getLastD emptyCandle).closeMs = end_ - 1)
    "HL coverage insufficient"
  pure {
    stepMs := hourMs
    intrabarStress := false
    pool := pool
    hedge := hedge
    funding := funding }

/-- The signals of all candles closed before each bar. -/
def allSignals (c : Config F) (data : Data F) : List (Option (Regime.Signals F)) :=
  data.pool.map fun b =>
    let t := b.timestamp * 1000
    (Regime.signals c.regime c.strategy (completed data.hedge t) t).toOption

/-- The candles of a loaded dataset are valid consecutive hours, which go on after every bar. -/
structure Data.Covered (data : Data F) : Prop where
  contiguous : ∀ pair ∈ windows data.hedge, pair.2.openMs = pair.1.openMs + 3600000
  hourly : ∀ h ∈ data.hedge, h.openMs ≤ h.closeMs ∧ h.closeMs - h.openMs = 3599999
  valid : ∀ h ∈ data.hedge, validBar h
  goesOn : ∀ b ∈ data.pool, ∃ h ∈ data.hedge, b.timestamp * 1000 ≤ h.closeMs

section Load

variable {start end_ : Nat} {pool : List (Bar F)} {hedge : List (Candle F)}
  {rates : List (Nat × F)} {data : Data F}

theorem covered_of_load (loaded : load start end_ pool hedge rates = .ok data) : data.Covered := by
  simp only [load, List.forM_eq_forM, bind_eq_ok, ensure_eq_ok, forM_eq_ok, context_eq_ok,
    pure_eq_ok, exists_const] at loaded
  obtain ⟨⟨ordered, -⟩, funding, -, size, bars, contiguous, candles, first, head, ⟨-, last⟩, rfl⟩ :=
    loaded
  refine {
    contiguous := contiguous
    hourly := fun h mem => (candles h mem).1
    valid := fun h mem => (candles h mem).2
    goesOn := fun b mem => ?_ }
  obtain ⟨i, inside, rfl⟩ := List.mem_iff_getElem.mp mem
  change i < pool.length at inside
  change ∃ h ∈ hedge, pool[i].timestamp * 1000 ≤ h.closeMs
  have time := (bars (pool[i], i) (List.mk_mem_zipIdx_iff_getElem?.mpr
    (List.getElem?_eq_getElem inside))).1
  have nonempty : hedge ≠ [] := by
    rintro rfl
    cases head
  rw [List.getLastD_eq_getLast?, List.getLast?_eq_some_getLast nonempty] at last
  refine ⟨_, List.getLast_mem nonempty, ?_⟩
  rw [Option.getD_some] at last
  simp only [hourMs] at size time
  omega

end Load

section Closed

variable {data : Data F} {s : StrategyConfig F} {t : Nat}

theorem Data.Covered.closes (covered : data.Covered) :
    data.hedge.Pairwise fun x y => x.closeMs ≤ y.closeMs := by
  refine pairwise_of_windows Nat.le_trans fun pair mem => ?_
  obtain ⟨first, second⟩ := mem_of_mem_windows mem
  have gap := covered.contiguous pair mem
  have before := covered.hourly _ first
  have after := covered.hourly _ second
  omega

/-- The closed candles are the first ones. -/
theorem Data.Covered.takeWhile_eq (covered : data.Covered) :
    (data.hedge.takeWhile fun x => x.closeMs < t) = completed data.hedge t :=
  Semantics.takeWhile_eq_filter covered.closes

/-- The newest closed candle is less than an hour old while the candles go on. -/
theorem Data.Covered.fresh (covered : data.Covered) {last : Candle F}
    (newest : (completed data.hedge t).getLast? = some last)
    (goesOn : ∃ h ∈ data.hedge, t ≤ h.closeMs) : t - last.closeMs ≤ 3660000 := by
  obtain ⟨before, split⟩ := List.getLast?_eq_some_iff.mp newest
  have closed := covered.takeWhile_eq (t := t)
  have parts := List.takeWhile_append_dropWhile (p := fun x : Candle F => x.closeMs < t)
    (l := data.hedge)
  cases after : data.hedge.dropWhile fun x => x.closeMs < t with
  | nil =>
      rw [after, List.append_nil, closed] at parts
      obtain ⟨h, mem, later⟩ := goesOn
      rw [← parts, mem_completed] at mem
      omega
  | cons next rest =>
      rw [after, closed, split, List.append_assoc, List.singleton_append] at parts
      have pair : (last, next) ∈ windows data.hedge := by
        rw [← parts, windows_append_cons]
        exact List.mem_append_right _ List.mem_cons_self
      have gap : next.openMs = last.openMs + 3600000 := covered.contiguous _ pair
      obtain ⟨first, second⟩ := mem_of_mem_windows pair
      have hour := covered.hourly last first
      have hour' := covered.hourly next second
      have opened := List.head?_dropWhile_not (fun x : Candle F => x.closeMs < t) data.hedge
      rw [after] at opened
      simp only [List.head?_cons, decide_eq_false_iff_not] at opened
      omega

/-- Enough closed candles of a loaded dataset are a usable history. -/
theorem Data.Covered.usable (covered : data.Covered) (goesOn : ∃ h ∈ data.hedge, t ≤ h.closeMs)
    (enough : lookback s ≤ (completed data.hedge t).length) :
    Usable (completed data.hedge t) s t := by
  have isPrefix : completed data.hedge t <+: data.hedge := by
    rw [← covered.takeWhile_eq]
    exact List.takeWhile_prefix _
  have isSuffix : recentBars (completed data.hedge t) s t <:+ completed data.hedge t := by
    unfold recentBars
    rw [completed_completed]
    exact List.drop_suffix _ _
  have nonempty : recentBars (completed data.hedge t) s t ≠ [] := by
    apply List.ne_nil_of_length_pos
    unfold recentBars
    rw [completed_completed, length_lastN enough]
    exact lookback_pos
  refine {
    enough := by rw [completed_completed]; exact enough
    bars := fun r mem => ?_
    contiguous := fun pair mem =>
      covered.contiguous pair (windows_of_initial isPrefix (windows_of_suffix isSuffix mem))
    fresh := ?_ }
  · have mem := isPrefix.mem (isSuffix.mem mem)
    have valid := covered.valid r mem
    refine ⟨⟨valid, ?_⟩, covered.hourly r mem⟩
    exact (valid.2.2.trans (min_le_left _ _)).trans ((le_max_left _ _).trans valid.2.1)
  · rw [List.getLastD_eq_getLast?, List.getLast?_eq_some_getLast nonempty, Option.getD_some]
    refine covered.fresh ?_ goesOn
    rw [isSuffix.getLast nonempty]
    exact List.getLast?_eq_some_getLast _

end Closed

section Signals

variable {c : Config F} {data : Data F} {bars bars' : List (Candle F)} {s : StrategyConfig F}
  {regime : Regime.Config F} {t : Nat}

/-- The indicators read the last bars they need. -/
theorem calculate_congr
    (enough : lookback s ≤ (completed bars' t).length ↔ lookback s ≤ (completed bars t).length)
    (same : lastN (completed bars' t) (lookback s) = lastN (completed bars t) (lookback s)) :
    calculate bars' s t = calculate bars s t := by
  unfold lookback at enough same
  unfold calculate
  simp only [ge_iff_le, enough, same]

/-- The signals read the last bars which the indicators or the regime need. -/
theorem signals_congr
    (enough : ∀ count ∈ [lookback s, regime.historyHours],
      (count ≤ (completed bars' t).length ↔ count ≤ (completed bars t).length))
    (same : ∀ count ∈ [lookback s, regime.historyHours],
      lastN (completed bars' t) count = lastN (completed bars t) count) :
    Regime.signals regime s bars' t = Regime.signals regime s bars t := by
  obtain ⟨indicators, ⟨rows, -⟩⟩ :=
    (List.forall_mem_cons.mp enough).imp_right List.forall_mem_cons.mp
  obtain ⟨sameIndicators, ⟨sameRows, -⟩⟩ :=
    (List.forall_mem_cons.mp same).imp_right List.forall_mem_cons.mp
  unfold Regime.signals
  simp only [calculate_congr indicators sameIndicators, ge_iff_le, rows, sameRows]

theorem signals_of_usable (usable : Usable bars s t)
    (history : regime.historyHours ≤ lookback s) :
    (Regime.signals regime s bars t).toOption.isSome := by
  obtain ⟨m, indicators⟩ := calculate_eq_ok.mpr usable
  have part : lastN (completed bars t) regime.historyHours <:+ recentBars bars s t := by
    rw [← lastN_lastN history]
    exact List.drop_suffix _ _
  have rows : ∀ row ∈ lastN (completed bars t) regime.historyHours, validBar row := fun row mem =>
    (usable.bars row (part.mem mem)).1.1
  have gaps : ∀ pair ∈ windows (lastN (completed bars t) regime.historyHours),
      pair.2.openMs = pair.1.openMs + 3600000 := fun pair mem =>
    usable.contiguous pair (windows_of_suffix part mem)
  suffices ∃ signals, Regime.signals regime s bars t = .ok signals by
    obtain ⟨signals, accepted⟩ := this
    rw [accepted]
    rfl
  simp only [Regime.signals, List.forM_eq_forM, bind_eq_ok, ensure_eq_ok, forM_eq_ok,
    exists_const]
  exact ⟨_, m, indicators, history.trans usable.enough, rows, gaps, rfl⟩

theorem signals_of_short (short : (completed bars t).length < lookback s) :
    (Regime.signals regime s bars t).toOption = none := by
  cases result : Regime.signals regime s bars t with
  | error message => rfl
  | ok signals =>
      simp only [Regime.signals, bind_eq_ok] at result
      obtain ⟨m, indicators, -⟩ := result
      have usable := calculate_eq_ok.mp ⟨m, indicators⟩
      exact absurd usable.enough (Nat.not_le.mpr short)

/-- The cached signals of one bar. -/
theorem signalAt_eq (covered : data.Covered) :
    signalAt c data t =
      (Regime.signals c.regime c.strategy (lastN (completed data.hedge t) 450) t).toOption := by
  unfold signalAt
  rw [covered.takeWhile_eq]
  rfl

omit [F64 F] in
theorem completed_lastN {count : Nat} :
    completed (lastN (completed bars t) count) t = lastN (completed bars t) count :=
  completed_of_suffix (List.drop_suffix _ _)

/-- A window which covers every lookback does not change the signals. -/
theorem signalAt_of_covers (covered : data.Covered) (short : lookback c.strategy ≤ 450)
    (history : c.regime.historyHours ≤ 450) :
    signalAt c data t =
      (Regime.signals c.regime c.strategy (completed data.hedge t) t).toOption := by
  have within : ∀ count ∈ [lookback c.strategy, c.regime.historyHours], count ≤ 450 := by
    simp [short, history]
  rw [signalAt_eq covered]
  refine congrArg Except.toOption (signals_congr ?_ ?_)
  · intro count mem
    rw [completed_lastN, completed_completed]
    exact le_length_lastN (within count mem)
  · intro count mem
    rw [completed_lastN, completed_completed]
    exact lastN_lastN (within count mem)

/-- A shorter window has no signals. -/
theorem signalAt_of_long (covered : data.Covered) (long : 450 < lookback c.strategy) :
    signalAt c data t = none := by
  rw [signalAt_eq covered]
  apply signals_of_short
  rw [completed_lastN]
  unfold lastN
  rw [List.length_drop]
  omega

/-- With a longer lookback the window changes nothing exactly where the history is short. -/
theorem signalAt_eq_iff_of_long (covered : data.Covered) (long : 450 < lookback c.strategy)
    (history : c.regime.historyHours ≤ 450) (goesOn : ∃ h ∈ data.hedge, t ≤ h.closeMs) :
    signalAt c data t =
        (Regime.signals c.regime c.strategy (completed data.hedge t) t).toOption ↔
      (completed data.hedge t).length < lookback c.strategy := by
  rw [signalAt_of_long covered long]
  by_cases enough : lookback c.strategy ≤ (completed data.hedge t).length
  · have some := signals_of_usable (covered.usable goesOn enough) (history.trans long.le)
    constructor
    · intro same
      rw [← same] at some
      cases some
    · omega
  · have short : (completed data.hedge t).length < lookback c.strategy := Nat.lt_of_not_le enough
    refine iff_of_true ?_ short
    rw [signals_of_short]
    rwa [completed_completed]

end Signals

theorem historyHours_le {regime : Regime.Config F} (valid : regime.validate = .ok ()) :
    regime.historyHours ≤ 450 := by
  simp only [Regime.Config.validate, check_bind_eq_ok, ensure_eq_ok] at valid
  unfold Regime.Config.historyHours
  omega

/-- The configuration of the research. -/
def researched (c : Solana.Config F) (regime : Regime.Config F) : Config F where
  strategy := c.strategy
  leverage := c.hyperliquid.leverage
  regime := regime

section Window

variable {parsers : Parsers} {c : Solana.Config F} {regime : Regime.Config F} {start end_ : Nat}
  {pool : List (Bar F)} {hedge : List (Candle F)} {rates : List (Nat × F)} {data : Data F}

/-- The cached signals of a dataset are those of all closed candles exactly when no lookback
exceeds the window, or no bar has enough candles before it. -/
theorem cachedSignals_eq_iff (valid : c.validate parsers = .ok ()) (selected : c.regime = some regime)
    (loaded : load start end_ pool hedge rates = .ok data) :
    cachedSignals (researched c regime) data = allSignals (researched c regime) data ↔
      lookback c.strategy ≤ 450 ∨
        ∀ b ∈ data.pool,
          (completed data.hedge (b.timestamp * 1000)).length < lookback c.strategy := by
  have covered := covered_of_load loaded
  have history := historyHours_le ((Solana.Config.validate_eq_ok.mp valid).1 regime selected)
  unfold cachedSignals allSignals
  rw [List.map_inj_left]
  by_cases short : lookback c.strategy ≤ 450
  · refine iff_of_true (fun b mem => ?_) (.inl short)
    exact signalAt_of_covers covered short history
  · rw [or_iff_right short]
    refine forall₂_congr fun b mem => ?_
    exact signalAt_eq_iff_of_long covered (Nat.lt_of_not_le short) history (covered.goesOn b mem)

theorem rows_of_load (loaded : load start end_ pool hedge rates = .ok data) :
    data.pool = pool ∧ data.hedge = hedge := by
  simp only [load, bind_eq_ok, pure_eq_ok] at loaded
  obtain ⟨-, -, -, -, -, -, -, -, -, -, -, -, -, -, -, -, rfl⟩ := loaded
  exact ⟨rfl, rfl⟩

end Window

end Research

namespace Shipped

open Research

/-- The shipped configuration with a longer volatility window. -/
def solanaLongVolatility : Solana.Config ℚ :=
  { solana with strategy := { solanaStrategy with volLongHours := 500 } }

theorem solanaLongVolatility_valid : solanaLongVolatility.validate parsers = .ok () :=
  Solana.Config.validate_eq_ok.mpr
    ⟨by rintro _ ⟨⟩; exact solanaRegime_valid, solana_hedge, by decide +kernel, solana_venues⟩

/-- One bar after six hundred hours. -/
def afterSixHundredHours : Except String (Data ℚ) :=
  load (600 * hourMs) (601 * hourMs) [⟨600 * 3600, 100, 100, 100, 100⟩] (hourlyCandles 100 601)
    [(600 * hourMs, 0)]

theorem afterSixHundredHours_loaded : ∃ data, afterSixHundredHours = .ok data := by
  have accepted : afterSixHundredHours.toBool = true := by decide +kernel
  cases result : afterSixHundredHours with
  | ok data => exact ⟨data, rfl⟩
  | error message =>
      rw [result] at accepted
      cases accepted

theorem cachedSignals_shipped :
    ∃ data, afterSixHundredHours = .ok data ∧
      cachedSignals (researched solana solanaRegime) data =
        allSignals (researched solana solanaRegime) data := by
  obtain ⟨data, loaded⟩ := afterSixHundredHours_loaded
  exact ⟨data, loaded, (cachedSignals_eq_iff solana_valid rfl loaded).mpr (.inl (by decide))⟩

/-- The longer window needs more candles than are cached. -/
theorem window_hides_signals :
    solanaLongVolatility.validate parsers = .ok () ∧
      ∃ data, afterSixHundredHours = .ok data ∧
        cachedSignals (researched solanaLongVolatility solanaRegime) data ≠
          allSignals (researched solanaLongVolatility solanaRegime) data := by
  obtain ⟨data, loaded⟩ := afterSixHundredHours_loaded
  obtain ⟨pool, hedge⟩ := rows_of_load loaded
  have covered := covered_of_load loaded
  have bar : ⟨600 * 3600, 100, 100, 100, 100⟩ ∈ data.pool := by
    rw [pool]
    exact List.mem_singleton_self _
  refine ⟨solanaLongVolatility_valid, data, loaded, fun same => ?_⟩
  have hidden := List.map_inj_left.mp same _ bar
  have short := (signalAt_eq_iff_of_long covered (by decide) (by decide)
    (covered.goesOn _ bar)).mp hidden
  rw [hedge] at short
  revert short
  decide +kernel

end Shipped

end LpMaker
