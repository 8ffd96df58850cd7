import LpMaker.Semantics.Trace
import LpMaker.Shipped
import LpMaker.Strategy.LegacySteps
import LpMaker.Strategy.ProfileSteps

/-!
# Retrying a failed exit

The legacy evaluator latches an exit: while a position remains and the re-entry
conditions are not met, every evaluation decides the exit again. The persistent, the
band and the regime evaluator keep no such latch. They decide each frame with a
position by that frame's own exit conditions, and a failed exit is retried by the
workflow record of the executor.
-/

namespace LpMaker

open Semantics

variable {F : Type} [F64 F]

namespace Strategy

variable {c : StrategyConfig F} {f : MarketFrame F} {continuity : Bool} {s : Strategy F}

/-- A fresh, usable frame with a complete bar history that shows a position. -/
structure HoldsLp (c : StrategyConfig F) (f : MarketFrame F) : Prop where
  usable : (stale c f || !validFrame f) = false
  bars : ∃ m, Indicators.calculate f.candles c f.nowMs = .ok m
  held : f.portfolio.positions ≠ []

/-- The full re-entry conditions: the healthy hours and the cooldown since the pause. -/
def Reentered (c : StrategyConfig F) (f : MarketFrame F) (s : Strategy F) : Prop :=
  c.resumeHealthyHours ≤ s.healthyHours ∧
    c.cooldownHours * 3600000 ≤ f.nowMs - s.pauseSince

instance : Decidable (Reentered c f s) := by
  unfold Reentered; infer_instance

/-- An exit still has to be retried: the strategy is paused or halted. -/
def Latched (s : Strategy F) : Prop := s.phase = .paused ∨ s.phase = .halted

/-- A latched strategy exits again and stays latched, unless it may re-enter. -/
theorem evaluateInner_of_latched (holds : HoldsLp c f) (latched : s.Latched)
    (waiting : ¬Reentered c f (s.evaluateInner c f continuity).1) :
    (s.evaluateInner c f continuity).2.lp = .exitToQuote ∧
      (s.evaluateInner c f continuity).1.Latched := by
  obtain ⟨samePhase, established⟩ := startFrame_of_held (s := s) holds.held
  obtain ⟨t, d, evaluated⟩ : ∃ t d, s.evaluateInner c f continuity = (t, d) := ⟨_, _, rfl⟩
  have step := evaluateInner_step evaluated
  rw [evaluated] at waiting ⊢
  cases step with
  | unusable unusable _ => rw [holds.usable] at unusable; cases unusable
  | noIndicators _ _ missing _ =>
      obtain ⟨m, computed⟩ := holds.bars
      rw [computed] at missing
      cases missing
  | halted _ halted exits => exact ⟨exits, .inr halted⟩
  | @market _ running m _ _ _ decided =>
      have paused : ((s.startFrame f).accountEquity c f).phase = .paused := by
        rcases accountEquity_phase (s := s.startFrame f) (c := c) (f := f) with halted | kept
        · exact absurd halted running
        · rw [samePhase] at kept
          rw [kept] at running ⊢
          exact latched.resolve_right running
      obtain ⟨stillPaused, history, _⟩ :=
        observeMarket_of_paused (c := c) (f := f) continuity m paused
      rw [accountEquity_entryHistory, established] at history
      cases decideMarket_step decided with
      | wait advanced exits =>
          cases advanced with
          | wait paused _ => exact ⟨exits, .inl paused⟩
      | decide advanced settled =>
          cases advanced with
          | firstEntry _ first => rw [history] at first; cases first
          | resume _ _ confirmed =>
              refine absurd ?_ waiting
              obtain ⟨_, _, rfl⟩ := settle_frame settled
              simp only [canResume, Bool.and_eq_true, decide_eq_true_eq] at confirmed
              exact ⟨confirmed.1.2, confirmed.2⟩
          | warm warmup => rw [stillPaused] at warmup; cases warmup
          | adopt warmup => rw [stillPaused] at warmup; cases warmup
          | scale recovering => rw [stillPaused] at recovering; cases recovering
          | keep notPaused => exact absurd stillPaused notPaused

/-- Along usable frames with a position, a latched strategy keeps exiting until it may
re-enter. -/
theorem trace_of_latched {frames : List (MarketFrame F)} (latched : s.Latched)
    (holds : ∀ f ∈ frames, HoldsLp c f)
    (waiting : ∀ taken ∈ trace (fun f s => evaluateInner c f continuity s) s frames,
      ¬Reentered c taken.input taken.after) :
    ∀ taken ∈ trace (fun f s => evaluateInner c f continuity s) s frames,
      taken.output.lp = .exitToQuote := by
  refine forall_mem_trace _ Latched
    (fun taken => HoldsLp c taken.input ∧ ¬Reentered c taken.input taken.after) latched (fun taken mem => ⟨?_, waiting taken mem⟩) ?_
  · exact holds _ (eq_transition_of_mem_trace _ mem).2
  · intro s f latched allowed
    exact evaluateInner_of_latched allowed.1 latched allowed.2

end Strategy

/-- A usable frame of a persistent profile that shows a position, with its feature. -/
structure Persistent.HoldsLp (c : StrategyConfig F) (f : MarketFrame F) (x : Feature F) :
    Prop where
  bars : Feature.latest f.candles f.nowMs = .ok x
  usable : x.unusable c f = false
  held : f.portfolio.positions ≠ []

/-- With a position, the persistent evaluator exits exactly on the frame's conditions. -/
theorem Persistent.evaluateRange_of_held {profile : PersistentConfig F} {c : StrategyConfig F}
    {f : MarketFrame F} {x : Feature F} {s : Strategy F} (held : f.portfolio.positions ≠ []) :
    ((evaluateRange profile c f x s).2.lp = .exitToQuote ↔
        (observe profile c f x s).leaves) ∧
      (¬(observe profile c f x s).leaves → (evaluateRange profile c f x s).2.lp = .hold ∧
        (evaluateRange profile c f x s).1.phase = .active) := by
  by_cases leaves : (observe profile c f x s).leaves
  · exact ⟨iff_of_true (act_of_leaves leaves).1 leaves, fun stays => absurd leaves stays⟩
  · obtain ⟨holds, active, -⟩ := act_of_held profile c leaves held
    have holds : (evaluateRange profile c f x s).2.lp = .hold := holds
    refine ⟨iff_of_false ?_ leaves, fun _ => ⟨holds, active⟩⟩
    rw [holds]
    exact nofun

/-- With a position, the band evaluator exits exactly on the frame's conditions. -/
theorem Band.evaluate_of_held {profile : PersistentConfig F} {band : BandConfig F}
    {c : StrategyConfig F} {f : MarketFrame F} {x : Feature F} {s : Strategy F}
    (held : f.portfolio.positions ≠ []) :
    ((evaluate profile band c f x s).2.lp = .exitToQuote ↔
        (observe profile band c f x s).leaves) ∧
      (¬(observe profile band c f x s).leaves →
        ((evaluate profile band c f x s).2.lp = .hold ∨
          ∃ layers, (evaluate profile band c f x s).2.lp = .recenter layers) ∧
        (evaluate profile band c f x s).1.phase = .active) := by
  by_cases leaves : (observe profile band c f x s).leaves
  · exact ⟨iff_of_true (act_of_leaves leaves).1 leaves, fun stays => absurd leaves stays⟩
  · obtain ⟨lp, active, -⟩ :=
      act_of_held profile band c x leaves held
    have stays : (evaluate profile band c f x s).2.lp = .hold ∨
        ∃ layers, (evaluate profile band c f x s).2.lp = .recenter layers :=
      lp.imp id fun recentres => ⟨_, recentres.1⟩
    refine ⟨iff_of_false ?_ leaves, fun _ => ⟨stays, active⟩⟩
    rcases stays with holds | ⟨layers, recentres⟩
    · rw [holds]
      exact nofun
    · rw [recentres]
      exact nofun

namespace Regime

/-- A usable frame with signals that shows a position. -/
structure HoldsLp (c : Config F) (sc : StrategyConfig F) (f : MarketFrame F) (sig : Signals F) :
    Prop where
  bars : signals c sc f.candles f.nowMs = .ok sig
  usable : unusable sc f = false
  held : f.portfolio.positions ≠ []

/-- The exit conditions of a frame: a halt, a danger, or a price out of a range. -/
def leaves (c : Config F) (sc : StrategyConfig F) (f : MarketFrame F) (sig : Signals F)
    (state : Strategy F) : Prop :=
  (account sc f state).phase = .halted ∨ (danger c sc f (some sig)).isSome ∨ outsideRange f

/-- With a position, the regime evaluator exits exactly on the frame's conditions. -/
theorem evaluate_of_held {c : Config F} {sc : StrategyConfig F} {f : MarketFrame F}
    {sig : Signals F} {state : Strategy F} (holds : HoldsLp c sc f sig) :
    ((evaluate c sc f state).2.lp = .exitToQuote ↔ leaves c sc f sig state) ∧
      (¬leaves c sc f sig state → (evaluate c sc f state).2.lp = .hold ∧
        (evaluate c sc f state).1.phase = .active) := by
  set observed := account sc f (state.observeLp (!f.portfolio.positions.isEmpty))
    with observedEq
  have evaluated : evaluate c sc f state = act c sc f (some sig) observed := by
    simp [evaluate, evaluateWithSignals, holds.bars, holds.usable, Except.toOption, observedEq]
  have samePhase : observed.phase = (account sc f state).phase := by
    rw [observedEq, account_phase, account_phase, account_peakEquity, account_peakEquity,
      Strategy.observeLp_peakEquity, Strategy.observeLp_phase]
  rw [evaluated]
  by_cases risk : observed.phase = .halted ∨ (danger c sc f (some sig)).isSome
  · have leaves : leaves c sc f sig state :=
      risk.elim (fun halted => .inl (samePhase ▸ halted)) fun danger => .inr (.inl danger)
    exact ⟨iff_of_true (act_of_leaves risk).1 leaves, fun stays => absurd leaves stays⟩
  · obtain ⟨lp, phase, -⟩ := act_of_held risk holds.held
    have leavesIff : leaves c sc f sig state ↔ outsideRange f = true := by
      rw [samePhase, not_or] at risk
      simp [leaves, risk.1, risk.2]
    rw [leavesIff, lp, phase]
    by_cases outside : outsideRange f = true <;> simp [outside]

end Regime

/-- Two frames with a position: the basis is out of bounds in the first one only. -/
def dangerThenCalm (hours : Nat) (portfolio : Portfolio ℚ) : List (MarketFrame ℚ) :=
  [Shipped.frame hours 1000 100 100 90 portfolio, Shipped.frame hours 16000 100 100 100 portfolio]

/-- A run exits into a pause, and with the position still there it holds at the next frame
although the cooldown has not elapsed. -/
def DropsExit (c : StrategyConfig ℚ)
    (run : List (Transition (Strategy ℚ) (MarketFrame ℚ) (Decision ℚ))) : Prop :=
  match run with
  | [first, second] =>
      first.output.lp = .exitToQuote ∧ first.after.phase = .paused ∧
        first.input.portfolio.positions ≠ [] ∧ second.input.portfolio.positions ≠ [] ∧
        second.input.nowMs - second.before.pauseSince < c.cooldownHours * hourMs ∧
        second.output.lp = .hold
  | _ => False

instance (c : StrategyConfig ℚ)
    (run : List (Transition (Strategy ℚ) (MarketFrame ℚ) (Decision ℚ))) :
    Decidable (DropsExit c run) := by
  unfold DropsExit; split <;> infer_instance

end LpMaker
