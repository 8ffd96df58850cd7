import LpMaker.Recovery
import LpMaker.Shipped
import LpMaker.Strategy.ProgressLog

/-!
# The grace of an outage

Freezes, invalid frames, revalidations and reloads leave the last observation and its anchor
alone. The next frame whose market is read keeps the frozen count within the grace, and starts
it over otherwise.
-/

namespace LpMaker.Strategy

open Semantics Semantics.Tally

variable {F : Type} [F64 F] {c : StrategyConfig F} {f : MarketFrame F} {m : Metrics F}
  {s t u : Strategy F} {d : Decision F}

/-- What may happen between two frames whose market is read. -/
inductive Interruption (F : Type) where
  | freeze
  | prepare
  /-- A checkpoint is saved and loaded. -/
  | reload
  | invalid (f : MarketFrame F)

/-- The evaluation of a frame ends before its market is read. -/
def Unread (c : StrategyConfig F) (f : MarketFrame F) (s : Strategy F) : Prop :=
  (stale c f || !validFrame f) = true ∨
    ((s.startFrame f).accountEquity c f).phase ≠ .halted ∧
      ∃ e, Indicators.calculate f.candles c f.nowMs = .error e

namespace Interruption

def apply (c : StrategyConfig F) : Interruption F → Strategy F → Strategy F
  | freeze, s => s.freezeRecoveryProgress
  | prepare, s => Recovery.prepareObservationRevalidation s
  | reload, s => s
  | invalid f, s => (s.evaluateInner c f true).1

/-- An invalid frame is one which is not read. -/
def Takes (c : StrategyConfig F) : Interruption F → Strategy F → Prop
  | invalid f, s => Unread c f s
  | _, _ => True

end Interruption

/-- Some interruptions in order. -/
inductive Interrupted (c : StrategyConfig F) (s : Strategy F) :
    List (Interruption F) → Strategy F → Prop where
  | none : Interrupted c s [] s
  | next {ops : List (Interruption F)} {t : Strategy F} (op : Interruption F)
      (prior : Interrupted c s ops t) (takes : op.Takes c t) :
      Interrupted c s (ops ++ [op]) (op.apply c t)

/-- What an interruption leaves alone. -/
structure Untouched (s t : Strategy F) : Prop where
  observedMs : t.recoveryProgress.observedMs = s.recoveryProgress.observedMs
  anchor : t.recoveryProgress.anchor = s.recoveryProgress.anchor
  healthyHours : t.healthyHours = s.healthyHours
  lastHour : t.lastHour = s.lastHour

/-- The grace of frozen progress at a frame. -/
structure Grace (c : StrategyConfig F) (f : MarketFrame F) (m : Metrics F) (s : Strategy F) :
    Prop where
  observed : s.recoveryProgress.observedMs ≠ 0
  anchored : ∃ anchor, s.recoveryProgress.anchor = some anchor ∧ anchor.closeMs = s.lastHour ∧
    anchor ∈ f.candles
  clock : s.recoveryProgress.observedMs ≤ f.nowMs
  within : f.nowMs - s.recoveryProgress.observedMs ≤ recheckGraceMs
  hour : s.lastHour ≤ m.lastCloseMs ∧ m.lastCloseMs ≤ s.lastHour + 3600000
  unblocked : Progress.blockers c f m (marketRisks c f m) = []

section Interruptions

/-- A frame which is not read freezes the progress and changes nothing else of it. -/
theorem evaluateInner_of_unread (unread : Unread c f s) :
    (s.evaluateInner c f true).1.healthyHours = s.healthyHours ∧
      (s.evaluateInner c f true).1.lastHour = s.lastHour ∧
      (s.evaluateInner c f true).1.recoveryProgress =
        { s.recoveryProgress with pendingRevalidation := true } := by
  obtain ⟨t, d, evaluated⟩ : ∃ t d, s.evaluateInner c f true = (t, d) := ⟨_, _, rfl⟩
  obtain ⟨_, _, _, _, accounted⟩ := accounted_frame (c := c) (f := f) (s := s)
  have started : ∃ phase pauseSince entryHistory, s.startFrame f =
      { s with phase := phase, pauseSince := pauseSince, entryHistory := entryHistory } := by
    unfold startFrame enterFromWarmup observeLp
    split_ifs <;> exact ⟨_, _, _, rfl⟩
  obtain ⟨_, _, _, started⟩ := started
  rw [evaluated]
  cases evaluateInner_step evaluated with
  | unusable unusable holds =>
      rw [started]
      exact ⟨rfl, rfl, rfl⟩
  | halted usable halted exits =>
      rcases unread with unusable | ⟨running, _⟩
      · exact absurd unusable (by rw [usable]; exact Bool.false_ne_true)
      · exact absurd halted running
  | noIndicators usable running missing holds =>
      rw [if_pos rfl, accounted]
      exact ⟨rfl, rfl, rfl⟩
  | market usable running computed decided =>
      rcases unread with unusable | ⟨_, _, missing⟩
      · exact absurd unusable (by rw [usable]; exact Bool.false_ne_true)
      · cases computed.symm.trans missing

theorem Interruption.apply_untouched {op : Interruption F} (takes : op.Takes c t) :
    Untouched t (op.apply c t) := by
  cases op with
  | freeze => exact ⟨rfl, rfl, rfl, rfl⟩
  | prepare => exact ⟨rfl, rfl, rfl, rfl⟩
  | reload => exact ⟨rfl, rfl, rfl, rfl⟩
  | invalid f =>
      obtain ⟨hours, hour, progress⟩ := evaluateInner_of_unread takes
      exact ⟨by rw [apply, progress], by rw [apply, progress], hours, hour⟩

/-- Every interruption but a reload leaves the progress frozen. -/
theorem Interruption.apply_pending {op : Interruption F} (takes : op.Takes c t)
    (freezes : op ≠ .reload ∨ t.recoveryProgress.pendingRevalidation = true) :
    (op.apply c t).recoveryProgress.pendingRevalidation = true := by
  cases op with
  | freeze => rfl
  | prepare => rfl
  | reload =>
      rcases freezes with other | frozen
      · exact absurd rfl other
      · exact frozen
  | invalid f => rw [apply, (evaluateInner_of_unread takes).2.2]

/-- No number of interruptions moves the observation, the anchor or the count. -/
theorem Interrupted.untouched {ops : List (Interruption F)} (interrupted : Interrupted c s ops t) :
    Untouched s t := by
  induction interrupted with
  | none => exact ⟨rfl, rfl, rfl, rfl⟩
  | next op prior takes inductionHypothesis =>
      have step := Interruption.apply_untouched takes
      exact ⟨step.observedMs.trans inductionHypothesis.observedMs,
        step.anchor.trans inductionHypothesis.anchor,
        step.healthyHours.trans inductionHypothesis.healthyHours,
        step.lastHour.trans inductionHypothesis.lastHour⟩

/-- One interruption that freezes the progress is enough. -/
theorem Interrupted.pending {ops : List (Interruption F)} (interrupted : Interrupted c s ops t)
    (freezes : ∃ op ∈ ops, op ≠ .reload) :
    t.recoveryProgress.pendingRevalidation = true := by
  induction interrupted with
  | none =>
      obtain ⟨_, mem, _⟩ := freezes
      cases mem
  | next op prior takes inductionHypothesis =>
      obtain ⟨freezing, mem, other⟩ := freezes
      refine Interruption.apply_pending takes ?_
      rcases List.mem_append.mp mem with earlier | here
      · exact .inr (inductionHypothesis ⟨freezing, earlier, other⟩)
      · exact .inl (List.mem_singleton.mp here ▸ other)

end Interruptions

section Recheck

theorem sameBar_iff {a b : Candle F} : Progress.sameBar a b = true ↔ a = b := by
  cases a
  cases b
  simp [Progress.sameBar]

/-- The recheck fails exactly outside the grace. -/
theorem recheckFailure_eq_none :
    s.recheckFailure f m (Progress.blockers c f m (marketRisks c f m)) = none ↔
      Grace c f m s := by
  unfold recheckFailure
  dsimp only
  cases anchored : s.recoveryProgress.anchor with
  | none =>
      rw [if_pos (.inr rfl)]
      constructor
      · intro kept
        cases kept
      · intro grace
        obtain ⟨anchor, present, _⟩ := grace.anchored
        cases anchored.symm.trans present
  | some anchor =>
      have found : (f.candles.any fun b => Progress.sameBar anchor b) = true ↔
          anchor ∈ f.candles := by
        rw [List.any_eq_true]
        exact ⟨fun ⟨_, mem, same⟩ => sameBar_iff.mp same ▸ mem,
          fun mem => ⟨anchor, mem, sameBar_iff.mpr rfl⟩⟩
      have bar : (!(some anchor).any fun a =>
          a.closeMs = s.lastHour && f.candles.any fun b => Progress.sameBar a b) = true ↔
          ¬(anchor.closeMs = s.lastHour ∧ anchor ∈ f.candles) := by
        rw [Option.any_some, Bool.not_eq_true', ← Bool.not_eq_true, Bool.and_eq_true, found,
          decide_eq_true_eq]
      constructor
      · intro kept
        split_ifs at kept with legacy clock gap hour changed blocked
        rw [bar, not_not] at changed
        exact ⟨fun zero => legacy (.inl zero), ⟨anchor, anchored, changed⟩, by omega, by omega,
          by omega, not_not.mp blocked⟩
      · intro grace
        obtain ⟨_, present, unrevised⟩ := grace.anchored
        obtain rfl := Option.some_inj.mp (anchored.symm.trans present)
        have clock := grace.clock
        have within := grace.within
        have hour := grace.hour
        rw [if_neg (by simpa using grace.observed), if_neg (by omega), if_neg (by omega),
          if_neg (by omega), if_neg (bar.not.mpr (not_not.mpr unrevised)),
          if_neg (not_not.mpr grace.unblocked)]

/-- Without blockers there is no market risk. -/
theorem marketRisks_of_unblocked
    (unblocked : Progress.blockers c f m (marketRisks c f m) = []) : marketRisks c f m = [] := by
  unfold Progress.blockers at unblocked
  simp only [List.append_eq_nil_iff] at unblocked
  exact unblocked.1.1.1

/-- Frozen progress passes the risk stage exactly within the grace. -/
theorem riskLog_of_pending (pending : s.recoveryProgress.pendingRevalidation = true)
    (counted : s.healthyHours ≠ 0) :
    (Grace c f m s → riskLog c f m s = []) ∧ (¬Grace c f m s → riskLog c f m s = [.clear]) := by
  unfold riskLog
  constructor
  · intro grace
    dsimp only
    rw [if_neg (not_not.mpr (marketRisks_of_unblocked grace.unblocked)), if_neg]
    rw [recheckFailure_eq_none.mpr grace]
    simp
  · intro outside
    dsimp only
    split_ifs with risky failed
    · rfl
    · rfl
    · refine absurd ⟨pending, counted, ?_⟩ failed
      rw [Option.isSome_iff_ne_none]
      exact fun none => outside (recheckFailure_eq_none.mp none)

/-- A count which starts over is at most the new bar. -/
theorem countAll_barLog_zero (lastHour : Nat) :
    countAll saturatingSucc (barLog c f m lastHour) 0 =
      if lastHour < m.lastCloseMs ∧ Progress.blockers c f m (marketRisks c f m) = [] then 1
      else 0 := by
  unfold barLog
  by_cases new : m.lastCloseMs > lastHour
  · rw [if_pos new]
    by_cases unblocked : Progress.blockers c f m (marketRisks c f m) = []
    · rw [if_pos unblocked, if_pos (show lastHour < m.lastCloseMs ∧ _ from ⟨new, unblocked⟩)]
      split_ifs
      · rfl
      · rfl
    · have blocked : ¬(lastHour < m.lastCloseMs ∧
          Progress.blockers c f m (marketRisks c f m) = []) := fun both => unblocked both.2
      rw [if_neg unblocked, if_neg blocked]
      rfl
  · have old : ¬(lastHour < m.lastCloseMs ∧
        Progress.blockers c f m (marketRisks c f m) = []) := fun both => new both.1
    rw [if_neg new, if_neg old]
    rfl

/-- Within the grace the count goes on with the new bar. -/
theorem countAll_barLog_grace (grace : Grace c f m s) (total : Nat) :
    countAll saturatingSucc (barLog c f m s.lastHour) total =
      if s.lastHour < m.lastCloseMs then saturatingSucc total else total := by
  have hour := grace.hour
  unfold barLog
  by_cases new : m.lastCloseMs > s.lastHour
  · rw [if_pos new, if_pos grace.unblocked, if_pos new, if_neg (by omega)]
    rfl
  · rw [if_neg new, if_neg new]
    rfl

end Recheck

/-- After interruptions that froze the progress, a frame whose market is read keeps the count
exactly within the grace. Otherwise it starts over, at most with the new bar. No interruption
moves the observation or its anchor. -/
theorem outage_grace {ops : List (Interruption F)} (interrupted : Interrupted c s ops t)
    (freezes : ∃ op ∈ ops, op ≠ .reload) (counted : 0 < s.healthyHours)
    (usable : (stale c f || !validFrame f) = false)
    (running : (t.accountEquity c f).phase ≠ .halted)
    (computed : Indicators.calculate f.candles c f.nowMs = .ok m)
    (evaluated : t.evaluateInner c f true = (u, d)) :
    Untouched s t ∧
      (u.healthyHours =
          (if s.lastHour < m.lastCloseMs then saturatingSucc s.healthyHours
            else s.healthyHours) ↔ Grace c f m s) ∧
      (¬Grace c f m s → u.healthyHours =
        if s.lastHour < m.lastCloseMs ∧ Progress.blockers c f m (marketRisks c f m) = [] then 1
        else 0) := by
  have untouched := interrupted.untouched
  have pending := interrupted.pending freezes
  have log : evaluationLog c f t = barLog c f m t.lastHour ++ riskLog c f m t := by
    simp [evaluationLog, usable, running, computed]
  have hours : u.healthyHours = countAll saturatingSucc (evaluationLog c f t) t.healthyHours := by
    rcases evaluateInner_counts evaluated with ⟨_, _, _, _, hours, _, _⟩ | ⟨quiet, hours, _⟩
    · exact hours
    · rw [quiet, hours]
      rfl
  have same : Grace c f m t ↔ Grace c f m s := by
    constructor
    · rintro ⟨observed, anchored, clock, within, hour, unblocked⟩
      rw [untouched.observedMs, untouched.anchor, untouched.lastHour] at *
      exact ⟨observed, anchored, clock, within, hour, unblocked⟩
    · rintro ⟨observed, anchored, clock, within, hour, unblocked⟩
      rw [← untouched.observedMs, ← untouched.anchor, ← untouched.lastHour] at *
      exact ⟨observed, anchored, clock, within, hour, unblocked⟩
  obtain ⟨inside, outside⟩ := riskLog_of_pending (c := c) (f := f) (m := m) pending
    (by rw [untouched.healthyHours]; omega)
  rw [log, countAll_append] at hours
  have restarted (over_ : ¬Grace c f m s) : u.healthyHours =
      if s.lastHour < m.lastCloseMs ∧ Progress.blockers c f m (marketRisks c f m) = [] then 1
      else 0 := by
    rw [hours, outside (fun grace => over_ (same.mp grace)), ← untouched.lastHour]
    exact countAll_barLog_zero t.lastHour
  refine ⟨untouched, ⟨fun kept => ?_, fun grace => ?_⟩, restarted⟩
  · by_contra over_
    rw [restarted over_] at kept
    unfold saturatingSucc at kept
    split_ifs at kept <;> omega
  · rw [hours, inside (same.mpr grace), ← untouched.lastHour, ← untouched.healthyHours]
    exact countAll_barLog_grace (same.mpr grace) t.healthyHours

end LpMaker.Strategy

namespace LpMaker.Shipped

open Strategy

/-- A flat frame of the shipped legacy profile. -/
def pausedFrame (offset : Nat) : MarketFrame ℚ :=
  frame 180 offset 100 100 100 (flatPortfolio 6000 2500 1500)

/-- A known strategy after its first healthy bar. -/
def counting : Strategy ℚ :=
  ((Strategy.default.observeLp true).evaluateInner robinhood.strategy (pausedFrame 1000) true).1

/-- Without a freeze a gap of ten minutes keeps the count. -/
theorem unfrozen_gap_kept :
    Interrupted robinhood.strategy counting [.reload] counting ∧ counting.healthyHours = 1 ∧
      (stale robinhood.strategy (pausedFrame 601000) || !validFrame (pausedFrame 601000)) = false ∧
      ¬(pausedFrame 601000).nowMs - counting.recoveryProgress.observedMs ≤ recheckGraceMs ∧
      (counting.evaluateInner robinhood.strategy (pausedFrame 601000) true).1.healthyHours = 1 :=
  ⟨.next .reload .none trivial, by decide +kernel, by decide +kernel, by decide +kernel,
    by decide +kernel⟩

/-- A restart one minute later keeps the count, so that the frame is within the grace. -/
theorem frozen_gap_within_grace :
    ∃ m, Indicators.calculate (pausedFrame 61000).candles robinhood.strategy
        (pausedFrame 61000).nowMs = .ok m ∧ Grace robinhood.strategy (pausedFrame 61000) m counting := by
  have lastClose : (Indicators.calculate (pausedFrame 61000).candles robinhood.strategy
      (pausedFrame 61000).nowMs).toOption.map Metrics.lastCloseMs = some counting.lastHour := by
    decide +kernel
  cases computed : Indicators.calculate (pausedFrame 61000).candles robinhood.strategy
      (pausedFrame 61000).nowMs with
  | error e =>
      rw [computed] at lastClose
      cases lastClose
  | ok m =>
      rw [computed] at lastClose
      have same : m.lastCloseMs = counting.lastHour := Option.some_inj.mp lastClose
      have prepared : Interrupted robinhood.strategy counting [.prepare]
          (Recovery.prepareObservationRevalidation counting) := .next .prepare .none trivial
      have kept := (outage_grace prepared ⟨.prepare, List.mem_cons_self, nofun⟩ (by decide +kernel)
        (by decide +kernel) (by decide +kernel) computed Prod.mk.eta.symm).2.1
      refine ⟨m, rfl, kept.mp ?_⟩
      rw [same, if_neg (lt_irrefl _)]
      decide +kernel

end LpMaker.Shipped
