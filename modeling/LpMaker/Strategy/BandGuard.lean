import Mathlib
import LpMaker.Semantics.Trace
import LpMaker.Shipped
import LpMaker.Strategy.ProfileSteps

/-!
# The band evaluator and its entry guard

The evaluator proposes openings and `Band.entryEquitySafe` checks them again before
every chain transaction. `observe_spec` and `act_opens` summarise the evaluator;
`entryEquitySafe_iff` compares the two on the evaluator's own result.
-/

namespace LpMaker

variable {F : Type} [F64 F]

namespace Band

/-- Drawdown of the frame against the peak it is compared with. -/
def drawdownAt (c : StrategyConfig F) (s : Strategy F) (raw : F) : F :=
  let eq := c.totalCapital + raw - (origin s).getD raw
  1 - eq / max (max s.peakEquity eq) c.totalCapital

/-- An equity floor is the same as a drawdown limit. -/
theorem floor_lt_iff {eq peak limit : F} (peakPos : 0 < peak) :
    peak * (1 - limit) < eq ↔ 1 - eq / peak < limit := by
  rw [mul_comm, ← lt_div_iff₀ peakPos]
  constructor <;> intro below <;> linarith

/-- With the entry drawdown recorded at the frame, the trip level only caps it. -/
theorem lt_tripDrawdown_iff {band : BandConfig F} (bs : BandState F)
    (budget : 0 < band.reentryLossBudget) :
    bs.entryDrawdown < band.tripDrawdown bs ↔ bs.entryDrawdown < 0.0475 := by
  have below : bs.entryDrawdown <
      max band.pauseDrawdown (bs.entryDrawdown + band.reentryLossBudget) :=
    lt_max_of_lt_right (lt_add_of_pos_right _ budget)
  simp only [BandConfig.tripDrawdown, lt_min_iff, below, true_and]

/-- The guard on the result of an opening decision is a drawdown check: holding a position
already passed it, a flat portfolio was never checked. -/
theorem evaluate_entryEquitySafe {profile : PersistentConfig F} {band : BandConfig F}
    {c : StrategyConfig F} {f : MarketFrame F} {x : Feature F} {s : Strategy F}
    (accepted : c.Accepted) (bandAccepted : band.Accepted c) (banded : c.band = some band)
    (finite : F64.isFinite (f.portfolio.equity f.pool.price))
    (opens : (evaluate profile band c f x s).2.lp.opens = true) :
    entryEquitySafe (evaluate profile band c f x s).1 c (f.portfolio.equity f.pool.price) = true ↔
      f.portfolio.positions ≠ [] ∨ drawdownAt c s (f.portfolio.equity f.pool.price) < 0.0475 := by
  set raw := f.portfolio.equity f.pool.price
  have accounted := observe_accounted profile band c f x s
  set o := observe profile band c f x s
  obtain ⟨stays, active, peak, episode⟩ := act_opens (o := o) opens
  simp only [Observation.leaves, not_or, Bool.not_eq_true] at stays
  obtain ⟨notHalted, -, -, notGlobal⟩ := stays
  have eq_def : o.eq = c.totalCapital + raw - (origin s).getD raw := by
    rw [accounted.eq_def, managedEquity_snd]
  have peakPos : 0 < o.s.peakEquity := by
    rw [accounted.peak]
    exact lt_max_of_lt_right accepted.totalCapital_pos
  have within : o.dd < c.maxDrawdown := by
    by_contra beyond
    exact notHalted (by rw [accounted.phase, if_pos (not_lt.mp beyond)])
  have aboveHalt : o.s.peakEquity * (1 - c.maxDrawdown) < o.eq :=
    (floor_lt_iff peakPos).mpr (accounted.dd_def ▸ within)
  have eqPos : 0 < o.eq :=
    (mul_nonneg peakPos.le (sub_nonneg.mpr accepted.maxDrawdown_le_one)).trans_lt aboveHalt
  have aboveEpisode : o.eq * (1 - band.episodeDrawdown) < o.eq :=
    mul_lt_of_lt_one_right eqPos (by linarith [bandAccepted.episodeDrawdown_pos])
  have tripped : o.s.peakEquity * (1 - band.tripDrawdown (beginEpisode o.eq o.dd o.bs)) < o.eq ↔
      o.dd < 0.0475 := by
    rw [floor_lt_iff peakPos, ← accounted.dd_def]
    exact lt_tripDrawdown_iff (beginEpisode o.eq o.dd o.bs)
      bandAccepted.reentryLossBudget_pos
  have guarded : entryEquitySafe (evaluate profile band c f x s).1 c raw = true ↔
      o.dd < 0.0475 := by
    have recorded : (beginEpisode o.eq o.dd o.bs).accountOriginEquity =
      some ((origin s).getD raw) := accounted.bandOrigin
    have restarted : (beginEpisode o.eq o.dd o.bs).episodePeak = o.eq := rfl
    simp only [entryEquitySafe, banded, evaluate, Option.bind_some]
    simp [o, active, peak, episode, recorded, restarted, ← eq_def, finite, aboveHalt,
      aboveEpisode, tripped]
  have sameDrawdown : drawdownAt c s raw = o.dd := by
    rw [accounted.dd_def, accounted.peak, eq_def]
    rfl
  rw [guarded, sameDrawdown]
  refine ⟨.inr, fun either => either.elim (fun hasLp => ?_) id⟩
  -- With a position present the decision was taken below the pause threshold.
  have threshold : o.dd < o.bs.pauseThreshold := by
    have checked := accounted.globally
    simpa [notGlobal, hasLp] using checked
  rw [accounted.threshold] at threshold
  exact threshold.trans_le (min_le_right _ _)

end Band

section EntryGuard

open Semantics

variable {parsers : Parsers} {c : Config F}

/-- Two frames of the shipped band profile: the first records the origin and stays out
because of the basis, the second deploys although 4.8% of the account has been lost. -/
def Band.lossBeforeEntry : List (MarketFrame ℚ) :=
  [Shipped.frame 73 1000 100 100 90 (Shipped.flatPortfolio 120 60 20),
    Shipped.frame 73 16000 100 100 100 (Shipped.flatPortfolio 120 50.4 20)]

end EntryGuard

end LpMaker
