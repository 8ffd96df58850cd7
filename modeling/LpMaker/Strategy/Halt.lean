import LpMaker.Strategy.LegacySteps
import LpMaker.Strategy.ProfileSteps

/-!
# Halts and the equity peak

No evaluator lowers the equity peak or leaves a halt, and from a halt none of them
opens a position. The legacy evaluator is settled through its step lemmas, the other
three through what accounting a frame fixes.
-/

namespace LpMaker

variable {F : Type} [F64 F]

namespace Strategy

/-- The peak is at least as high, and a halt is kept. -/
structure KeepsHalt (s t : Strategy F) : Prop where
  peak : s.peakEquity ≤ t.peakEquity
  halt : s.phase = .halted → t.phase = .halted

theorem KeepsHalt.refl (s : Strategy F) : KeepsHalt s s := ⟨le_rfl, id⟩

theorem KeepsHalt.trans {s t u : Strategy F} (first : KeepsHalt s t) (second : KeepsHalt t u) :
    KeepsHalt s u :=
  ⟨first.peak.trans second.peak, fun halted => second.halt (first.halt halted)⟩

/-- What an evaluation guarantees: it keeps the peak and the halt, and a halted result comes
without an opening intent. -/
structure Guarded (s t : Strategy F) (d : Decision F) : Prop where
  keeps : KeepsHalt s t
  closed : t.phase = .halted → d.lp.opens = false

/-- A halted state never gets an opening decision. -/
theorem Guarded.closed_of_halted {s t : Strategy F} {d : Decision F} (guarded : Guarded s t d)
    (halted : s.phase = .halted) : d.lp.opens = false :=
  guarded.closed (guarded.keeps.halt halted)

section Legacy

variable {c : StrategyConfig F} {f : MarketFrame F} {m : Metrics F} {continuity : Bool}
  {s t : Strategy F} {d : Decision F}

omit [F64 F] in
theorem enterFromWarmup_phase :
    (s.enterFromWarmup f).phase = s.phase ∨
      s.phase = .warmup ∧ (s.enterFromWarmup f).phase = .paused := by
  unfold enterFromWarmup
  split_ifs with warmup
  · exact .inr ⟨warmup.1, rfl⟩
  · exact .inl rfl

omit [F64 F] in
@[simp] theorem startFrame_peakEquity : (s.startFrame f).peakEquity = s.peakEquity := by
  rw [startFrame, enterFromWarmup]
  split_ifs <;> simp

omit [F64 F] in
theorem startFrame_halted : (s.startFrame f).phase = .halted ↔ s.phase = .halted := by
  rw [startFrame]
  rcases enterFromWarmup_phase (f := f) (s := s.observeLp (!f.portfolio.positions.isEmpty))
    with kept | ⟨warmup, paused⟩
  · rw [kept, observeLp_phase]
  · rw [observeLp_phase] at warmup
    rw [paused, warmup]
    exact iff_of_false Phase.noConfusion Phase.noConfusion

omit [F64 F] in
theorem onUnusableFrame_keeps (continuity : Bool) :
    (s.onUnusableFrame f continuity).peakEquity = s.peakEquity ∧
      (s.phase = .halted → (s.onUnusableFrame f continuity).phase = .halted) := by
  cases continuity with
  | true => exact ⟨rfl, id⟩
  | false =>
      by_cases halted : s.phase = .halted
      · simp [onUnusableFrame, halted]
      · simp [onUnusableFrame, halted]

theorem accountEquity_keeps : KeepsHalt s (s.accountEquity c f) := by
  constructor
  · rw [accountEquity_peakEquity]
    exact (le_max_left _ _).trans (le_max_left _ _)
  · intro halted
    rcases accountEquity_phase (s := s) (c := c) (f := f) with halts | kept
    · exact halts
    · rw [kept, halted]

/-- The observation of the market keeps the peak and never halts. -/
theorem observeMarket_keeps (running : s.phase ≠ .halted) :
    (s.observeMarket c f continuity m).1.peakEquity = s.peakEquity ∧
      (s.observeMarket c f continuity m).1.phase ≠ .halted := by
  by_cases safe : marketRisks c f m = []
  · obtain ⟨_, _, _, observed⟩ := observeMarket_of_safe (s := s) continuity safe
    rw [observed]
    exact ⟨rfl, running⟩
  · obtain ⟨_, _, _, observed⟩ := observeMarket_of_risk (s := s) continuity safe
    rw [observed]
    exact ⟨rfl, Phase.noConfusion⟩

/-- A phase transition keeps the peak and never halts. -/
theorem AdvanceStep.keeps {unsafeMarket healthy : Bool}
    {intent : Option (LpIntent F × List String)}
    (advanced : AdvanceStep c f continuity unsafeMarket healthy s t intent)
    (running : s.phase ≠ .halted) : t.peakEquity = s.peakEquity ∧ t.phase ≠ .halted := by
  cases advanced with
  | firstEntry | warm | adopt => exact ⟨rfl, Phase.noConfusion⟩
  | resume => exact ⟨rfl, Phase.noConfusion⟩
  | wait | keep => exact ⟨rfl, running⟩
  | scale =>
      refine ⟨rfl, ?_⟩
      show (if _ then Phase.active else s.phase) ≠ .halted
      split_ifs
      · exact Phase.noConfusion
      · exact running

/-- A decision on the market keeps the peak and never halts. -/
theorem decideMarket_keeps (decided : s.decideMarket c f continuity m = (t, d))
    (running : s.phase ≠ .halted) : t.peakEquity = s.peakEquity ∧ t.phase ≠ .halted := by
  obtain ⟨samePeak, stillRunning⟩ :
      (s.observeMarket c f continuity m).1.peakEquity = s.peakEquity ∧
        (s.observeMarket c f continuity m).1.phase ≠ .halted := observeMarket_keeps running
  cases decideMarket_step decided with
  | wait advanced _ =>
      obtain ⟨peak, runs⟩ := advanced.keeps stillRunning
      exact ⟨peak.trans samePeak, runs⟩
  | decide advanced settled =>
      obtain ⟨peak, runs⟩ := advanced.keeps stillRunning
      obtain ⟨_, _, rfl⟩ := settle_frame settled
      exact ⟨peak.trans samePeak, runs⟩

/-- The legacy evaluator keeps peaks and halts. -/
theorem evaluateInner_guarded (evaluated : s.evaluateInner c f continuity = (t, d)) :
    Guarded s t d := by
  have accounted : KeepsHalt s ((s.startFrame f).accountEquity c f) := by
    obtain ⟨peak, halt⟩ := accountEquity_keeps (c := c) (f := f) (s := s.startFrame f)
    rw [startFrame_peakEquity] at peak
    exact ⟨peak, fun halted => halt (startFrame_halted.mpr halted)⟩
  cases evaluateInner_step evaluated with
  | unusable _ holds =>
      have kept := onUnusableFrame_keeps (f := f) (s := s.startFrame f) continuity
      obtain ⟨peak, halt⟩ := kept
      rw [startFrame_peakEquity] at peak
      refine ⟨⟨peak.ge, fun halted => halt (startFrame_halted.mpr halted)⟩, fun _ => ?_⟩
      rw [holds]
      rfl
  | halted _ halted exits =>
      refine ⟨⟨accounted.peak, fun _ => halted⟩, fun _ => ?_⟩
      rw [exits]
      rfl
  | noIndicators _ running _ holds =>
      refine ⟨⟨?_, fun halted => absurd (accounted.halt halted) running⟩, fun _ => ?_⟩
      · split_ifs
        · exact accounted.peak
        · exact accounted.peak
      · rw [holds]
        rfl
  | market _ running _ decided =>
      obtain ⟨peak, runs⟩ := decideMarket_keeps decided running
      refine ⟨⟨accounted.peak.trans peak.ge, fun halted => ?_⟩, fun halted => ?_⟩
      · exact absurd (accounted.halt halted) running
      · exact absurd halted runs

end Legacy

end Strategy

open Strategy (Guarded KeepsHalt)

/-- An accounted observation has decided: it leaves on a halt, and otherwise it ends in a
phase other than `Halted`. -/
theorem Strategy.Guarded.of_observed {s o t : Strategy F} {d : Decision F}
    (accounted : KeepsHalt s o) (peak : t.peakEquity = o.peakEquity)
    (leaves : o.phase = .halted → t.phase = .halted ∧ d.lp = .exitToQuote)
    (stays : o.phase ≠ .halted → t.phase ≠ .halted) : Guarded s t d := by
  refine ⟨⟨accounted.peak.trans peak.ge, fun halted => ?_⟩, fun halted => ?_⟩
  · exact (leaves (accounted.halt halted)).1
  · by_cases was : o.phase = .halted
    · rw [(leaves was).2]
      rfl
    · exact absurd halted (stays was)

theorem haltWhen_keeps {s o : Strategy F} {equity capital : F} {breached : Prop}
    [Decidable breached] (peak : o.peakEquity = max (max s.peakEquity equity) capital)
    (phase : o.phase = if breached then .halted else s.phase) : KeepsHalt s o := by
  constructor
  · rw [peak]
    exact (le_max_left _ _).trans (le_max_left _ _)
  · intro halted
    rw [phase, halted, ite_self]

/-- The band evaluator keeps peaks and halts. -/
theorem Band.evaluate_guarded (profile : PersistentConfig F) (band : BandConfig F)
    (c : StrategyConfig F) (f : MarketFrame F) (x : Feature F) (s : Strategy F) :
    Guarded s (evaluate profile band c f x s).1 (evaluate profile band c f x s).2 := by
  set o := observe profile band c f x s with observed
  have accounted : Accounted band c f s o := observe_accounted profile band c f x s
  have samePhase : (evaluate profile band c f x s).1.phase =
      (act profile band c f x o).1.phase := rfl
  have samePeak : (evaluate profile band c f x s).1.peakEquity =
      (act profile band c f x o).1.peakEquity := rfl
  have sameIntent : (evaluate profile band c f x s).2.lp =
      (act profile band c f x o).2.2.2.lp := rfl
  by_cases leaves : o.leaves
  · obtain ⟨exits, phase, peak⟩ : (act profile band c f x o).2.2.2.lp = .exitToQuote ∧
        (act profile band c f x o).1.phase =
          (if o.s.phase = .halted then .halted else .paused) ∧
        (act profile band c f x o).1.peakEquity = o.s.peakEquity := act_of_leaves leaves
    refine .of_observed (haltWhen_keeps accounted.peak accounted.phase)
      (samePeak.trans peak) (fun halted => ⟨?_, sameIntent.trans exits⟩) fun runs => ?_
    · rw [samePhase, phase, if_pos halted]
    · rw [samePhase, phase, if_neg runs]
      exact Phase.noConfusion
  · have running : o.s.phase ≠ .halted := fun halted => leaves (.inl halted)
    have active : (act profile band c f x o).1.phase ≠ .halted ∧
        (act profile band c f x o).1.peakEquity = o.s.peakEquity := by
      by_cases flat : f.portfolio.positions = []
      · obtain ⟨phase, peak⟩ := act_of_flat profile band c x leaves flat
        rcases phase with ⟨-, -, phase⟩ | ⟨-, phase⟩ <;> exact ⟨by rw [phase]; exact Phase.noConfusion, peak⟩
      · obtain ⟨-, phase, peak⟩ := act_of_held profile band c x leaves flat
        exact ⟨by rw [phase]; exact Phase.noConfusion, peak⟩
    exact .of_observed (haltWhen_keeps accounted.peak accounted.phase)
      (samePeak.trans active.2) (fun halted => absurd halted running)
      fun _ => samePhase ▸ active.1

namespace Persistent

variable {profile : PersistentConfig F} {c : StrategyConfig F} {f : MarketFrame F}
  {x : Feature F} {s : Strategy F}

/-- The evaluator without a band keeps peaks and halts. -/
theorem evaluateRange_guarded :
    Guarded s (evaluateRange profile c f x s).1 (evaluateRange profile c f x s).2 := by
  set o := observe profile c f x s with observed
  have accounted : Accounted profile c f x s o := observe_accounted
  have samePhase : (evaluateRange profile c f x s).1.phase = (act profile c f o).1.phase := rfl
  have samePeak : (evaluateRange profile c f x s).1.peakEquity =
      (act profile c f o).1.peakEquity := rfl
  have sameIntent : (evaluateRange profile c f x s).2.lp = (act profile c f o).2.2.lp := rfl
  by_cases leaves : o.leaves
  · obtain ⟨exits, phase, peak⟩ : (act profile c f o).2.2.lp = .exitToQuote ∧
        (act profile c f o).1.phase = (if o.s.phase = .halted then .halted else .paused) ∧
        (act profile c f o).1.peakEquity = o.s.peakEquity := act_of_leaves leaves
    refine .of_observed (haltWhen_keeps accounted.peak accounted.phase)
      (samePeak.trans peak) (fun halted => ⟨?_, sameIntent.trans exits⟩) fun runs => ?_
    · rw [samePhase, phase, if_pos halted]
    · rw [samePhase, phase, if_neg runs]
      exact Phase.noConfusion
  · have running : o.s.phase ≠ .halted := fun halted => leaves (.inl halted)
    have active : (act profile c f o).1.phase ≠ .halted ∧
        (act profile c f o).1.peakEquity = o.s.peakEquity := by
      by_cases flat : f.portfolio.positions = []
      · obtain ⟨phase, peak⟩ := act_of_flat profile c leaves flat
        rcases phase with ⟨-, phase⟩ | ⟨-, phase⟩ <;> exact ⟨by rw [phase]; exact Phase.noConfusion, peak⟩
      · obtain ⟨-, phase, peak⟩ := act_of_held profile c leaves flat
        exact ⟨by rw [phase]; exact Phase.noConfusion, peak⟩
    exact .of_observed (haltWhen_keeps accounted.peak accounted.phase)
      (samePeak.trans active.2) (fun halted => absurd halted running)
      fun _ => samePhase ▸ active.1

/-- A broken history keeps peaks and halts, and it can only halt. -/
theorem onBrokenHistory_guarded (e : String) :
    Guarded s (onBrokenHistory c f e s).1 (onBrokenHistory c f e s).2 := by
  refine ⟨?_, fun _ => onBrokenHistory_opens c f e s⟩
  unfold onBrokenHistory
  dsimp only
  by_cases checkable : drawdownCheckable c f = true
  · simp only [if_pos checkable]
    constructor
    · split_ifs <;>
        exact (le_max_left s.peakEquity _).trans (le_max_left _ _)
    · intro halted
      split_ifs with banded breached breached
      · rfl
      · exact absurd (.inl halted) breached
      · rfl
      · exact absurd (.inl halted) breached
  · rw [if_neg checkable]
    exact ⟨le_rfl, id⟩

/-- The persistent evaluators keep peaks and halts. -/
theorem evaluate_guarded :
    Guarded s (evaluate profile c f s).1 (evaluate profile c f s).2 := by
  unfold evaluate
  cases Feature.latest f.candles f.nowMs with
  | error e => exact onBrokenHistory_guarded e
  | ok x =>
      simp only [evaluateFeature]
      by_cases unusable : x.unusable c f = true
      · rw [if_pos unusable]
        exact ⟨⟨le_rfl, id⟩, fun _ => rfl⟩
      · rw [if_neg unusable]
        cases profile.band with
        | some band => exact Band.evaluate_guarded profile band c f x s
        | none => exact evaluateRange_guarded

end Persistent

/-- The evaluator of the EVM runner keeps peaks and halts. -/
theorem Strategy.evaluateWithContinuity_guarded {c : StrategyConfig F} {f : MarketFrame F}
    {s t : Strategy F} {d : Decision F} (evaluated : s.evaluateWithContinuity c f = (t, d)) :
    Guarded s t d := by
  unfold evaluateWithContinuity at evaluated
  cases profile : c.ethPersistent with
  | none =>
      simp only [profile] at evaluated
      exact evaluateInner_guarded evaluated
  | some profile =>
      simp only [profile] at evaluated
      obtain ⟨rfl, rfl⟩ := Prod.mk.inj evaluated
      exact Persistent.evaluate_guarded

/-- The regime evaluator keeps peaks and halts on any signals. -/
theorem Regime.evaluateWithSignals_guarded {rc : Regime.Config F} {c : StrategyConfig F}
    {f : MarketFrame F} {sig : Option (Signals F)} {s : Strategy F} :
    Guarded s (evaluateWithSignals rc c f sig s).1 (evaluateWithSignals rc c f sig s).2 := by
  unfold evaluateWithSignals
  dsimp only
  set observed := s.observeLp (!f.portfolio.positions.isEmpty) with observedEq
  have same : KeepsHalt s observed := by
    constructor
    · simp [observedEq]
    · simp [observedEq]
  by_cases unusable : unusable c f = true
  · rw [if_pos unusable]
    exact ⟨⟨same.peak, same.halt⟩, fun _ => rfl⟩
  rw [if_neg unusable]
  have accounted : KeepsHalt s (account c f observed) :=
    same.trans (haltWhen_keeps account_peakEquity account_phase)
  by_cases leaves : (account c f observed).phase = .halted ∨ (danger rc c f sig).isSome
  · obtain ⟨exits, phase, peak⟩ := act_of_leaves leaves
    refine .of_observed accounted peak (fun halted => ⟨?_, exits⟩) fun runs => ?_
    · rw [phase, if_pos halted]
    · rw [phase, if_neg runs]
      exact Phase.noConfusion
  · have running : (account c f observed).phase ≠ .halted := fun halted => leaves (.inl halted)
    cases sig with
    | none => exact absurd (.inr danger_none) leaves
    | some sig =>
        have active : (act rc c f (some sig) (account c f observed)).1.phase ≠ .halted ∧
            (act rc c f (some sig) (account c f observed)).1.peakEquity =
              (account c f observed).peakEquity := by
          by_cases flat : f.portfolio.positions = []
          · obtain ⟨phase, peak⟩ := act_of_flat leaves flat
            rcases phase with ⟨-, phase⟩ | ⟨-, phase⟩ <;>
              exact ⟨by rw [phase]; exact Phase.noConfusion, peak⟩
          · obtain ⟨-, phase, peak⟩ := act_of_held leaves flat
            refine ⟨?_, peak⟩
            rw [phase]
            split_ifs <;> exact Phase.noConfusion
        exact .of_observed accounted active.2 (fun halted => absurd halted running)
          fun _ => active.1

/-- The regime evaluator keeps peaks and halts. -/
theorem Regime.evaluate_guarded {rc : Regime.Config F} {c : StrategyConfig F}
    {f : MarketFrame F} {s : Strategy F} :
    Guarded s (evaluate rc c f s).1 (evaluate rc c f s).2 :=
  evaluateWithSignals_guarded

end LpMaker
