import LpMaker.Engine.EntrySoundness
import LpMaker.Engine.Runner

/-!
# The entry guards of the executors

Before every transaction of an entry the executor reads the market again and checks the risk
conditions in an implementation of its own. On one and the same observation the guards differ
from the evaluators in three comparisons: the volatility ratio at its limit, a source time of
zero, and a source time in the future.
-/

namespace LpMaker

variable {F : Type} [F64 F]

/-- The second look at the risk of a band profile, on the checkpoint. -/
def Live.checkBandEntry (profile : PersistentConfig F) (c : StrategyConfig F)
    (timeoutSeconds started : Nat) (checkpoint : Option (Strategy F)) (f : MarketFrame F)
    (x : Feature F) : Except String Unit :=
  if profile.band.isSome then do
    let strategy ← context checkpoint "band entry requires persisted risk basis"
    Runner.fresh started f.nowMs timeoutSeconds
    ensure ((profile.guard c).danger x f.pool.price = none ∧
        Band.entryEquitySafe strategy c (f.portfolio.equity f.pool.price))
      "band entry risk changed during workflow"
  else pure ()

/-- `Live::entry_guard_inner` on an observation which was started at `started`. -/
def Live.entryGuard (c : StrategyConfig F) (timeoutSeconds started : Nat)
    (checkpoint : Option (Strategy F)) (f : MarketFrame F) :
    Except String (Option (Feature F)) := do
  ensure (|f.pool.price / f.hedgePrice - 1| * 10000 ≤ c.maxBasisBps) "entry basis limit"
  Runner.fresh started f.nowMs timeoutSeconds
  Runner.fresh f.pool.timeMs f.nowMs c.maxDataAgeSeconds
  Runner.fresh f.hedgeTimeMs f.nowMs c.maxDataAgeSeconds
  match c.ethPersistent with
  | some profile =>
      let x ← Feature.latest f.candles f.nowMs
      Live.checkBandEntry profile c timeoutSeconds started checkpoint f x
      ensure ((profile.guard c).danger x f.pool.price = none)
        "persistent LP market became unsafe during workflow; preserve hedge and reconcile"
      pure (some x)
  | none =>
      let m ← Indicators.calculate f.candles c f.nowMs
      ensure (m.downtrend = false ∧ m.volRatio < c.volPauseRatio ∧
          m.return1h ≥ -c.fastDrop1h ∧ f.pool.price / m.lastClose - 1 ≥ -c.fastDrop1h)
        "market became unsafe during LP workflow; hold hedge and reconcile workflow"
      pure none

namespace Dlmm

structure Position (F : Type) where
  base : F
  quote : F
  feeBase : F
  feeQuote : F

/-- What the bridge observes of the pool. -/
structure Snapshot (F : Type) where
  timeMs : Nat
  activeBin : ℤ
  binStep : Nat
  price : F
  positions : List (Position F)
  grpcConnected : Bool
  grpcLastDataMs : Nat

def binPrice (bin : ℤ) : F := 1.0004 ^ bin * 1000

def Snapshot.checkGrpc (s : Snapshot F) (now maxAge : Nat) (requireGrpc : Bool) :
    Except String Unit :=
  if requireGrpc then do
    ensure s.grpcConnected "gRPC not connected; no transactions"
    Runner.fresh s.grpcLastDataMs now maxAge
  else pure ()

def Snapshot.validate (s : Snapshot F) (now maxAge : Nat) (requireGrpc : Bool) :
    Except String Unit := do
  ensure (s.binStep = 4 ∧ F64.isFinite s.price ∧ s.price > 0 ∧
      |s.price / binPrice s.activeBin - 1| < 1e-8)
    "invalid DLMM price/bin snapshot"
  Runner.fresh s.timeMs now maxAge
  ensure (∀ p ∈ s.positions, ∀ x ∈ [p.base, p.quote, p.feeBase, p.feeQuote],
      F64.isFinite x ∧ x ≥ 0)
    "invalid DLMM balances"
  s.checkGrpc now maxAge requireGrpc

/-- The part of a snapshot the evaluators read. -/
def strategySnapshot (s : Snapshot F) : PoolSnapshot F := ⟨s.timeMs, s.price⟩

/-- `entry_guard` of the Solana runner, which reads the price from the snapshot. -/
def entryGuard (c : StrategyConfig F) (regime : Option (Regime.Config F)) (requireGrpc : Bool)
    (s : Snapshot F) (f : MarketFrame F) : Except String Unit := do
  s.validate f.nowMs c.maxDataAgeSeconds requireGrpc
  Runner.fresh f.hedgeTimeMs f.nowMs c.maxDataAgeSeconds
  ensure (|s.price / f.hedgePrice - 1| * 10000 ≤ c.maxBasisBps) "entry basis limit"
  let m ← Indicators.calculate f.candles c f.nowMs
  ensure (m.downtrend = false ∧ m.volRatio < c.volPauseRatio ∧
      m.return1h ≥ -c.fastDrop1h ∧ s.price / m.lastClose - 1 ≥ -c.fastDrop1h)
    "market unsafe during DLMM workflow"
  match regime with
  | some rc =>
      let signal ← Regime.signals rc c f.candles f.nowMs
      ensure (signal.entry ∧ ¬signal.exit ∧
          |s.price / signal.lastClose - 1| ≤ rc.maxBarRange)
        "SOL regime changed during DLMM workflow"
  | none => pure ()

end Dlmm

/-- The guard accepts. -/
def Accepts {α : Type} (guard : Except String α) : Prop := ∃ result, guard = .ok result

instance {α : Type} (guard : Except String α) : Decidable (Accepts guard) :=
  match guard with
  | .ok result => isTrue ⟨result, rfl⟩
  | .error _ => isFalse nofun

/-- The source time is known and not ahead of the clock. -/
def Timely (sourceMs nowMs : Nat) : Prop := sourceMs ≠ 0 ∧ sourceMs ≤ nowMs + 5000

instance (sourceMs nowMs : Nat) : Decidable (Timely sourceMs nowMs) := by
  unfold Timely; infer_instance

/-- The volatility ratio of the completed hours is not exactly at the pause limit. -/
def VolatilityApart (c : StrategyConfig F) (f : MarketFrame F) : Prop :=
  ∀ m, Indicators.calculate f.candles c f.nowMs = .ok m → m.volRatio ≠ c.volPauseRatio

instance (c : StrategyConfig F) (f : MarketFrame F) : Decidable (VolatilityApart c f) :=
  match computed : Indicators.calculate f.candles c f.nowMs with
  | .ok m => decidable_of_iff (m.volRatio ≠ c.volPauseRatio)
      ⟨fun apart m' same => by rw [computed] at same; cases same; exact apart,
        fun apart => apart m computed⟩
  | .error _ => isTrue fun m same => by rw [computed] at same; cases same

section Checks

theorem fresh_iff {sourceMs nowMs maxAgeSeconds : Nat}
    (age : nowMs - sourceMs ≤ maxAgeSeconds * 1000) :
    Runner.fresh sourceMs nowMs maxAgeSeconds = .ok () ↔ Timely sourceMs nowMs := by
  simp only [Runner.fresh, ensure_eq_ok, Timely]
  omega

theorem accepts_unit_iff {guard : Except String Unit} : Accepts guard ↔ guard = .ok () :=
  ⟨fun ⟨(), accepted⟩ => accepted, fun accepted => ⟨(), accepted⟩⟩

theorem fresh_now {nowMs maxAgeSeconds : Nat} (later : 0 < nowMs) :
    Runner.fresh nowMs nowMs maxAgeSeconds = .ok () := by
  simp only [Runner.fresh, ensure_eq_ok]
  omega

theorem nowMs_pos {c : StrategyConfig F} {f : MarketFrame F} {m : Metrics F}
    (computed : Indicators.calculate f.candles c f.nowMs = .ok m) : 0 < f.nowMs := by
  obtain ⟨bar, -, -, -, before, -⟩ := Indicators.calculate_last computed
  exact (Nat.zero_le _).trans_lt before

/-- The comparisons of both guards on a calm market. -/
theorem Metrics.Calm.guarded_iff {c : StrategyConfig F} {f : MarketFrame F} {m : Metrics F}
    (calm : m.Calm c f) (computed : Indicators.calculate f.candles c f.nowMs = .ok m) :
    (m.downtrend = false ∧ m.volRatio < c.volPauseRatio ∧ m.return1h ≥ -c.fastDrop1h ∧
      f.pool.price / m.lastClose - 1 ≥ -c.fastDrop1h) ↔ VolatilityApart c f := by
  constructor
  · rintro ⟨-, below, -⟩ m' computed'
    rw [computed] at computed'
    cases computed'
    exact below.ne
  · intro apart
    exact ⟨calm.downtrend, calm.volatility.lt_of_ne (apart m computed), calm.fastDrop.1,
      calm.fastDrop.2⟩

end Checks

section Live

variable {c : StrategyConfig F} {f : MarketFrame F} {timeoutSeconds : Nat}
  {checkpoint : Option (Strategy F)}

theorem Live.entryGuard_legacy (legacy : c.ethPersistent = none) (fresh : f.Fresh c)
    {m : Metrics F} (computed : Indicators.calculate f.candles c f.nowMs = .ok m)
    (calm : m.Calm c f) :
    Accepts (Live.entryGuard c timeoutSeconds f.nowMs checkpoint f) ↔
      Timely f.pool.timeMs f.nowMs ∧ Timely f.hedgeTimeMs f.nowMs ∧ VolatilityApart c f := by
  have basis : |f.pool.price / f.hedgePrice - 1| * 10000 ≤ c.maxBasisBps := calm.basis
  simp only [Accepts, Live.entryGuard, bind_eq_ok, ensure_eq_ok, legacy,
    computed, fresh_now (nowMs_pos computed), fresh_iff fresh.poolAge, fresh_iff fresh.hedgeAge,
    basis, Except.ok.injEq, exists_eq_left', calm.guarded_iff computed, pure_eq_ok]
  simp

theorem Live.entryGuard_persistent {profile : PersistentConfig F}
    (configured : c.ethPersistent = some profile) (unbanded : profile.band = none)
    (fresh : f.Fresh c) {x : Feature F} (latest : Feature.latest f.candles f.nowMs = .ok x)
    (later : 0 < f.nowMs) (calm : x.Calm profile c f) :
    Accepts (Live.entryGuard c timeoutSeconds f.nowMs checkpoint f) ↔
      Timely f.pool.timeMs f.nowMs ∧ Timely f.hedgeTimeMs f.nowMs := by
  have basis : |f.pool.price / f.hedgePrice - 1| * 10000 ≤ c.maxBasisBps := calm.basis
  have safe : (profile.guard c).danger x f.pool.price = none := by
    obtain ⟨fast, down, volatility, -⟩ := calm
    unfold Guard.danger
    rw [if_neg, if_neg, if_neg]
    · exact not_lt.2 volatility
    · exact not_or.2 ⟨not_lt.2 down.1, not_lt.2 down.2⟩
    · exact not_or.2 ⟨not_lt.2 fast.1, not_lt.2 fast.2⟩
  simp only [Accepts, Live.entryGuard, Live.checkBandEntry, bind_eq_ok,
    ensure_eq_ok, configured, unbanded, latest, fresh_now later, fresh_iff fresh.poolAge,
    fresh_iff fresh.hedgeAge, basis, safe, Except.ok.injEq, exists_eq_left', pure_eq_ok]
  simp

end Live

section Solana

variable {c : StrategyConfig F} {rc : Regime.Config F} {f : MarketFrame F}
  {s : Dlmm.Snapshot F} {requireGrpc : Bool}

theorem getLast?_lastN {α : Type} {items : List α} {count : Nat} (positive : 0 < count)
    (enough : count ≤ items.length) :
    (Indicators.lastN items count).getLast? = items.getLast? := by
  rw [Indicators.lastN, List.getLast?_drop, if_neg (by omega)]

theorem calculate_lastClose {candles : List (Candle F)} {now : Nat} {m : Metrics F}
    (computed : Indicators.calculate candles c now = .ok m) :
    ((Indicators.completed candles now).getLast?).map Candle.close = some m.lastClose := by
  simp only [Indicators.calculate, List.forM_eq_forM, check_bind_eq_ok, ensure_eq_ok,
    Except.ok.injEq] at computed
  obtain ⟨enough, -, -, -, rfl⟩ := computed
  have positive : 0 < max (c.volLongHours + c.volShortHours + 1) (c.emaSlowHours * 3) :=
    lt_max_of_lt_left (Nat.succ_pos _)
  have last := getLast?_lastN positive enough
  rw [List.getLastD_eq_getLast?, last]
  cases found : (Indicators.completed candles now).getLast? with
  | none =>
      rw [List.getLast?_eq_none_iff] at found
      rw [found] at enough
      exact absurd enough (by simp)
  | some bar => rfl

/-- The signals include the dangers of the legacy metrics, and both read the same last bar. -/
theorem signals_metrics {sig : Regime.Signals F}
    (computed : Regime.signals rc c f.candles f.nowMs = .ok sig) :
    ∃ m, Indicators.calculate f.candles c f.nowMs = .ok m ∧ m.lastClose = sig.lastClose ∧
      (sig.exit = false → m.downtrend = false ∧ m.volRatio ≤ c.volPauseRatio ∧
        -c.fastDrop1h ≤ m.return1h) := by
  simp only [Regime.signals, List.forM_eq_forM] at computed
  obtain ⟨m, metrics, computed⟩ := bind_eq_ok.mp computed
  simp only [check_bind_eq_ok, ensure_eq_ok, Except.ok.injEq] at computed
  obtain ⟨enough, -, -, rfl⟩ := computed
  refine ⟨m, metrics, ?_, ?_⟩
  · have positive : 0 < rc.historyHours := by simp [Regime.Config.historyHours]
    have last := getLast?_lastN positive enough
    have close := calculate_lastClose metrics
    obtain ⟨bar, found, same⟩ := Option.map_eq_some_iff.mp (last ▸ close)
    dsimp only
    rw [List.getD_eq_getElem?_getD, ← List.getLast?_eq_getElem?, found, ← same]
    rfl
  · intro calm
    simp only [Bool.or_eq_false_iff, decide_eq_false_iff_not, not_or, not_lt, gt_iff_lt,
      Bool.not_eq_true] at calm
    exact ⟨calm.1.2.1, calm.1.1.2.2, calm.2⟩

theorem Dlmm.entryGuard_iff {regime : Option (Regime.Config F)} {m : Metrics F}
    (price : f.pool = Dlmm.strategySnapshot s) (fresh : f.Fresh c)
    (computed : Indicators.calculate f.candles c f.nowMs = .ok m) (calm : m.Calm c f)
    (trend : ∀ rc ∈ regime, ∃ sig, Regime.signals rc c f.candles f.nowMs = .ok sig ∧
      sig.entry = true ∧ sig.Calm rc c f) :
    Accepts (Dlmm.entryGuard c regime requireGrpc s f) ↔
      s.validate f.nowMs c.maxDataAgeSeconds requireGrpc = .ok () ∧
        Timely f.hedgeTimeMs f.nowMs ∧ VolatilityApart c f := by
  have basis : |f.pool.price / f.hedgePrice - 1| * 10000 ≤ c.maxBasisBps := calm.basis
  have same : s.price = f.pool.price := by rw [price]; rfl
  rw [accepts_unit_iff]
  simp only [Dlmm.entryGuard, bind_eq_ok, ensure_eq_ok, same, basis, computed,
    fresh_iff fresh.hedgeAge, calm.guarded_iff computed, Except.ok.injEq, exists_eq_left']
  cases regime with
  | none => simp [Unique.exists_iff]
  | some rc =>
      obtain ⟨sig, signals, entry, trend⟩ := trend rc rfl
      have range : |f.pool.price / sig.lastClose - 1| ≤ rc.maxBarRange := trend.largeMove
      simp [Unique.exists_iff, signals, entry, trend.exit, range]

/-- A regime opens on an entry signal only. -/
theorem Regime.evaluate_enters {strategy : Strategy F} {sig : Regime.Signals F}
    (computed : Regime.signals rc c f.candles f.nowMs = .ok sig)
    (opens : (Regime.evaluate rc c f strategy).2.lp.opens = true) : sig.entry = true := by
  unfold Regime.evaluate Regime.evaluateWithSignals at opens
  rw [computed] at opens
  dsimp only [Except.toOption] at opens
  by_cases usable : Regime.unusable c f = true
  · rw [if_pos usable] at opens
    cases opens
  rw [if_neg usable] at opens
  set state := Regime.account c f (strategy.observeLp (!f.portfolio.positions.isEmpty))
  have stays : ¬(state.phase = .halted ∨ (Regime.danger rc c f (some sig)).isSome) := by
    intro leaves
    rw [(Regime.act_of_leaves leaves).1] at opens
    cases opens
  by_cases flat : f.portfolio.positions = []
  · by_contra silent
    simp [Regime.act, stays, flat, Regime.enterOrWait, silent] at opens
  · rw [(Regime.act_of_held stays flat).1] at opens
    split_ifs at opens <;> cases opens

end Solana

/-- On every frame where an evaluator opens, the guard applied to the same observation accepts
exactly when the source times are timely and the volatility ratio, which the persistent
profile does not read, is not at its limit. -/
theorem entry_guard_accepts_iff (c : StrategyConfig F) (f : MarketFrame F)
    (strategy : Strategy F) :
    (∀ continuity timeoutSeconds checkpoint, c.ethPersistent = none →
      (strategy.evaluateInner c f continuity).2.lp.opens = true →
      (Accepts (Live.entryGuard c timeoutSeconds f.nowMs checkpoint f) ↔
        Timely f.pool.timeMs f.nowMs ∧ Timely f.hedgeTimeMs f.nowMs ∧ VolatilityApart c f)) ∧
    (∀ profile timeoutSeconds checkpoint, c.ethPersistent = some profile →
      profile.band = none → (Persistent.evaluate profile c f strategy).2.lp.opens = true →
      (Accepts (Live.entryGuard c timeoutSeconds f.nowMs checkpoint f) ↔
        Timely f.pool.timeMs f.nowMs ∧ Timely f.hedgeTimeMs f.nowMs)) ∧
    (∀ requireGrpc s, f.pool = Dlmm.strategySnapshot s →
      (strategy.evaluate c f).2.lp.opens = true →
      (Accepts (Dlmm.entryGuard c none requireGrpc s f) ↔
        s.validate f.nowMs c.maxDataAgeSeconds requireGrpc = .ok () ∧
          Timely f.hedgeTimeMs f.nowMs ∧ VolatilityApart c f)) ∧
    ∀ rc requireGrpc s, f.pool = Dlmm.strategySnapshot s →
      (Regime.evaluate rc c f strategy).2.lp.opens = true →
      (Accepts (Dlmm.entryGuard c (some rc) requireGrpc s f) ↔
        s.validate f.nowMs c.maxDataAgeSeconds requireGrpc = .ok () ∧
          Timely f.hedgeTimeMs f.nowMs ∧ VolatilityApart c f) := by
  refine ⟨?legacy, ?persistent, ?solana, ?regime⟩
  case legacy =>
    intro continuity timeoutSeconds checkpoint legacy opens
    obtain ⟨fresh, ⟨m, computed, calm⟩, -⟩ := Strategy.evaluateInner_opens rfl opens
    exact Live.entryGuard_legacy legacy fresh computed calm
  case persistent =>
    intro profile timeoutSeconds checkpoint configured unbanded opens
    obtain ⟨x, latest, usable, evaluated⟩ := Persistent.evaluate_opens opens
    rw [evaluated] at opens
    simp only [Persistent.evaluateFeature, usable, unbanded] at opens
    have later : x.time < f.nowMs := by
      simp only [Feature.unusable, Bool.or_eq_false_iff, decide_eq_false_iff_not, not_le]
        at usable
      exact usable.1.1.1.2
    exact Live.entryGuard_persistent configured unbanded (Feature.fresh_of_usable usable) latest
      ((Nat.zero_le _).trans_lt later) (Persistent.evaluateRange_opens opens).1
  case solana =>
    intro requireGrpc s price opens
    obtain ⟨fresh, ⟨m, computed, calm⟩, -⟩ := Strategy.evaluateInner_opens rfl opens
    exact Dlmm.entryGuard_iff price fresh computed calm (by rintro _ ⟨⟩)
  case regime =>
    intro rc requireGrpc s price opens
    obtain ⟨fresh, ⟨sig, signals, calm⟩, -⟩ := Regime.evaluate_opens opens
    obtain ⟨m, computed, sameClose, dangers⟩ := signals_metrics signals
    obtain ⟨downtrend, volatility, fastDrop⟩ := dangers calm.exit
    have fastNow : -c.fastDrop1h ≤ f.pool.price / m.lastClose - 1 := sameClose ▸ calm.fastDrop
    refine Dlmm.entryGuard_iff price fresh computed
      ⟨⟨fastDrop, fastNow⟩, volatility, downtrend, calm.basis⟩ ?_
    intro rc' here
    cases here
    exact ⟨sig, signals, Regime.evaluate_enters signals opens, calm⟩

namespace Shipped

/-- The legacy profile with short windows. -/
def shortWindows (volPauseRatio : ℚ) : Config ℚ :=
  { robinhood with
    strategy := { robinhood.strategy with
      volShortHours := 2
      volLongHours := 4
      emaFastHours := 2
      emaSlowHours := 3
      volPauseRatio := volPauseRatio
      volResumeRatio := 0.5 } }

/-- Hours which close at 100 and at 100.5 in turn, with a flat portfolio. -/
def alternating : MarketFrame ℚ :=
  { frame 10 1000 100 100.5 100.5 (flatPortfolio 6000 2500 1500) with
    candles := (List.range 10).map fun hour =>
      let close : ℚ := if hour % 2 = 0 then 100 else 100.5
      ⟨hour * 3600000, hour * 3600000 + 3599999, close, close, close, close⟩ }

/-- The recent volatility is exactly the earlier one, and the limit is a ratio of one: the
evaluator deploys and the guard refuses on the same data. -/
theorem entry_refused_at_limit :
    (shortWindows 1).validate parsers = .ok () ∧
      (Strategy.default.evaluateInner (shortWindows 1).strategy alternating true).2.lp =
        .deploy 1 ∧
      ¬Accepts (Live.entryGuard (shortWindows 1).strategy 45 alternating.nowMs none
        alternating) :=
  ⟨Config.validate_eq_ok.mpr ⟨by decide +kernel, by decide +kernel, venues_valid false _⟩,
    by decide +kernel⟩

/-- Below the limit both agree. -/
theorem entry_accepted_below_limit :
    Accepts (Live.entryGuard (shortWindows 1.8).strategy 45 alternating.nowMs none
      alternating) :=
  ((entry_guard_accepts_iff (shortWindows 1.8).strategy alternating Strategy.default).1 true 45
    none rfl (by decide +kernel)).mpr (by decide +kernel)

end Shipped

end LpMaker
