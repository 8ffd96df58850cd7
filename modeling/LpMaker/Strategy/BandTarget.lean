import Mathlib
import LpMaker.Numeric.Projection
import LpMaker.Shipped
import LpMaker.Strategy.Band

/-!
# The target of the band profile

The short position moves to the nearest one with a net exposure inside the band, up to what
the hedge account carries.
-/

namespace LpMaker

variable {F : Type} [F64 F]

namespace BandConfig

/-- The largest short position which the hedge account carries. -/
def cap (portfolio : Portfolio F) (price : F) : F :=
  F64.clamp portfolio.hedgeEquity 0 60 * 2.55 / price

/-- The target before it is capped. -/
def uncapped (band : BandConfig F) (portfolio : Portfolio F) (price : F) : F :=
  let net := (portfolio.base - portfolio.shortBase) * price
  if net > band.netUpperUsd then max (portfolio.base - band.netUpperUsd / price) 0
  else if net < band.netLowerUsd then max (portfolio.base - band.netLowerUsd / price) 0
  else portfolio.shortBase

/-- The net exposure next to this short position is inside the band. -/
def InBand (band : BandConfig F) (portfolio : Portfolio F) (price short : F) : Prop :=
  band.netLowerUsd ≤ (portfolio.base - short) * price ∧
    (portfolio.base - short) * price ≤ band.netUpperUsd

variable {band : BandConfig F} {portfolio : Portfolio F} {price short : F}

theorem target_eq_min : band.target portfolio price =
    min (band.uncapped portfolio price) (cap portfolio price) := rfl

theorem cap_nonneg (positive : 0 < price) : 0 ≤ cap portfolio price := by
  have collateral := (F64.clamp_mem (x := portfolio.hedgeEquity)
    (show (0 : F) ≤ 60 by norm_num)).1
  have factor : (0 : F) ≤ 2.55 := by norm_num
  exact div_nonneg (mul_nonneg collateral factor) positive.le

theorem uncapped_nonneg (short : 0 ≤ portfolio.shortBase) :
    0 ≤ band.uncapped portfolio price := by
  unfold uncapped
  dsimp only
  split_ifs
  · exact le_max_right _ _
  · exact le_max_right _ _
  · exact short

theorem netUsd_gt_iff (positive : 0 < price) {base limit : F} :
    limit < (base - short) * price ↔ short < base - limit / price := by
  rw [← div_lt_iff₀ positive, lt_sub_comm]

theorem netUsd_lt_iff (positive : 0 < price) {base limit : F} :
    (base - short) * price < limit ↔ base - limit / price < short := by
  rw [← lt_div_iff₀ positive, sub_lt_comm]

/-- The shorts of the band form an interval. -/
theorem inBand_iff (positive : 0 < price) : band.InBand portfolio price short ↔
    portfolio.base - band.netUpperUsd / price ≤ short ∧
      short ≤ portfolio.base - band.netLowerUsd / price := by
  unfold InBand
  rw [← not_lt, ← not_lt, netUsd_gt_iff positive, netUsd_lt_iff positive, not_lt, not_lt,
    and_comm]

/-- A band around a neutral position, as every accepted one is. -/
structure Straddles (band : BandConfig F) : Prop where
  lower : band.netLowerUsd ≤ 0
  upper : 0 < band.netUpperUsd

theorem straddles_of_validate {c : Config F} (accepted : band.validate c = .ok ()) :
    band.Straddles := by
  unfold validate at accepted
  simp only [check_bind_eq_ok, ensure_eq_ok] at accepted
  obtain ⟨-, -, ⟨-, -, lower, upper⟩, -⟩ := accepted
  exact ⟨lower, upper⟩

section Projection

variable (straddles : band.Straddles) (positive : 0 < price)

include straddles positive

theorem limits_ordered : portfolio.base - band.netUpperUsd / price ≤
    portfolio.base - band.netLowerUsd / price := by
  have upper := div_pos straddles.upper positive
  have lower := div_nonpos_of_nonpos_of_nonneg straddles.lower positive.le
  linarith

/-- For amounts which are not negative, the uncapped target is a clamped short position. -/
theorem uncapped_eq_clamp (base : 0 ≤ portfolio.base) (short : 0 ≤ portfolio.shortBase) :
    band.uncapped portfolio price =
      F64.clamp portfolio.shortBase (portfolio.base - band.netUpperUsd / price)
        (portfolio.base - band.netLowerUsd / price) := by
  unfold uncapped F64.clamp
  dsimp only
  simp only [gt_iff_lt, netUsd_gt_iff positive, netUsd_lt_iff positive]
  have lower := div_nonpos_of_nonpos_of_nonneg straddles.lower positive.le
  split_ifs with under beyond
  · exact max_eq_left (short.trans under.le)
  · exact max_eq_left (by linarith)
  · rfl

end Projection

end BandConfig

open BandConfig

/-- The target is the nearest short position with a net exposure in the band, unless the cap
binds. Inside the band a short position within the cap stays, and the target is its own
target. -/
theorem band_target_projects {c : Config F} {band : BandConfig F} {portfolio : Portfolio F}
    {price : F} (valid : band.validate c = .ok ()) (base : 0 ≤ portfolio.base)
    (short : 0 ≤ portfolio.shortBase) (positive : 0 < price) :
    (0 ≤ band.target portfolio price ∧ band.target portfolio price ≤ cap portfolio price) ∧
    (band.uncapped portfolio price ≤ cap portfolio price →
      (∃ reached, 0 ≤ reached ∧ band.InBand portfolio price reached) →
      band.InBand portfolio price (band.target portfolio price) ∧
        ∀ reached, 0 ≤ reached → band.InBand portfolio price reached →
          |band.target portfolio price - portfolio.shortBase| ≤
            |reached - portfolio.shortBase|) ∧
    (band.InBand portfolio price portfolio.shortBase →
      portfolio.shortBase ≤ cap portfolio price →
      band.target portfolio price = portfolio.shortBase) ∧
    band.target { portfolio with shortBase := band.target portfolio price } price =
      band.target portfolio price := by
  have straddles := straddles_of_validate valid
  have ordered : portfolio.base - band.netUpperUsd / price ≤
      portfolio.base - band.netLowerUsd / price := limits_ordered straddles positive
  have clamped := uncapped_eq_clamp straddles positive base short
  have nonneg : 0 ≤ band.target portfolio price :=
    le_min (uncapped_nonneg short) (cap_nonneg positive)
  refine ⟨⟨nonneg, min_le_right _ _⟩, ?_, ?_, ?_⟩
  · intro free _
    rw [target_eq_min, min_eq_left free, clamped]
    constructor
    · rw [inBand_iff positive]
      exact F64.clamp_mem ordered
    · intro reached _ inside
      obtain ⟨above, below⟩ := (inBand_iff positive).mp inside
      exact F64.clamp_closest above below
  · intro inside kept
    obtain ⟨above, below⟩ := (inBand_iff positive).mp inside
    rw [target_eq_min, clamped, F64.clamp_of_mem above below]
    exact min_eq_left kept
  · have again := @uncapped_eq_clamp F _ band { portfolio with
      shortBase := band.target portfolio price } price straddles positive base nonneg
    rw [target_eq_min, again, target_eq_min, clamped]
    exact F64.min_clamp_idempotent ordered

namespace Shipped

/-- The limits of the shipped band profile. -/
def reviewedBand : BandConfig ℚ where
  lowerWidth := 0.07825
  upperWidth := 0.08
  netLowerUsd := -60
  netUpperUsd := 47.24
  minimumHoldingHours := 48
  rollDelaySeconds := 60
  episodeDrawdown := 0.02
  pauseDrawdown := 0.03
  reentryLossBudget := 0.005

/-- Some base and a short position, next to little collateral. -/
def thinCollateral (hedgeEquity : ℚ) : Portfolio ℚ where
  positions := []
  walletBase := 0.03
  walletQuote := 0
  shortBase := 0.02
  hedgeEquity := hedgeEquity
  reserve := 0

/-- With five dollars of collateral a short position inside the band exceeds the cap. -/
theorem in_band_short_capped :
    reviewedBand.validate ethBandPaper = .ok () ∧ 0 ≤ (thinCollateral 5).base ∧
      0 ≤ (thinCollateral 5).shortBase ∧
      reviewedBand.InBand (thinCollateral 5) 2000 (thinCollateral 5).shortBase ∧
      reviewedBand.target (thinCollateral 5) 2000 ≠ (thinCollateral 5).shortBase := by
  unfold InBand
  decide +kernel

/-- With more collateral the same short position stays. -/
theorem in_band_short_kept :
    reviewedBand.target (thinCollateral 50) 2000 = (thinCollateral 50).shortBase :=
  (@band_target_projects ℚ _ ethBandPaper reviewedBand (thinCollateral 50) 2000 (by decide +kernel)
    (by decide +kernel) (by decide +kernel) (by norm_num)).2.2.1
    (by unfold InBand; decide +kernel) (by decide +kernel)

end Shipped

end LpMaker
