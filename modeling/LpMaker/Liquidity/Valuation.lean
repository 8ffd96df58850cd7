import Mathlib
import LpMaker.Math

/-!
# The valuation of a position

The liquidity of a value is worth that value, in every region of the price. For a fixed
liquidity the base falls and the quote rises with the price, and outside the range only one
of the two is held.
-/

namespace LpMaker

variable {F : Type} [F64 F]

open F64 (sqrt isFinite clamp)

theorem F64.clamp_mono {lower upper : F} (ordered : lower ≤ upper) :
    Monotone fun x => clamp x lower upper := by
  intro x y le
  change clamp x lower upper ≤ clamp y lower upper
  unfold clamp
  split_ifs with xLow yLow yHigh xHigh yLow yHigh yLow yHigh
  · exact le_refl _
  · exact ordered
  · exact not_lt.mp yLow
  · exact absurd (xHigh.trans_le le) (not_lt.mpr (yLow.le.trans ordered))
  · exact le_refl _
  · exact absurd (xHigh.trans_le le) yHigh
  · exact absurd (le.trans_lt yLow) xLow
  · exact not_lt.mp xHigh
  · exact le

theorem F64.clamp_of_le_lower {x lower upper : F} (ordered : lower ≤ upper) (below : x ≤ lower) :
    clamp x lower upper = lower := by
  rcases below.lt_or_eq with less | rfl
  · rw [clamp, if_pos less]
  · exact F64.clamp_of_mem (le_refl _) ordered

theorem F64.clamp_of_upper_le {x lower upper : F} (ordered : lower ≤ upper) (above : upper ≤ x) :
    clamp x lower upper = upper := by
  rcases above.lt_or_eq with less | rfl
  · rw [clamp, if_neg (not_lt.mpr (ordered.trans less.le)), if_pos less]
  · exact F64.clamp_of_mem ordered (le_refl _)

namespace Math

section Price

variable {liquidity lower upper price : F}

/-- Below the range no quote is held. -/
theorem amounts_quote_of_le_lower (ordered : lower ≤ upper) (below : price ≤ lower) :
    (amounts liquidity lower upper price).2 = 0 := by
  simp [amounts, F64.clamp_of_le_lower ordered below]

/-- Above the range no base is held. -/
theorem amounts_base_of_upper_le (ordered : lower ≤ upper) (above : upper ≤ price) :
    (amounts liquidity lower upper price).1 = 0 := by
  simp [amounts, F64.clamp_of_upper_le ordered above]

variable [ExactArithmetic F]

theorem sqrt_clamp_mono (lowerPos : 0 < lower) (ordered : lower < upper) :
    Monotone fun price => sqrt (clamp price lower upper) := by
  intro first second le
  have positive := lowerPos.trans_le (F64.clamp_mem (x := first) ordered.le).1
  exact F64.sqrt_le_sqrt positive.le (F64.clamp_mono ordered.le le)

/-- A rising price turns base into quote. -/
theorem amounts_base_antitone (nonneg : 0 ≤ liquidity) (lowerPos : 0 < lower)
    (ordered : lower < upper) : Antitone fun price => (amounts liquidity lower upper price).1 := by
  intro first second le
  have positive := lowerPos.trans_le (F64.clamp_mem (x := first) ordered.le).1
  have reciprocal := one_div_le_one_div_of_le (F64.sqrt_pos positive)
    (sqrt_clamp_mono lowerPos ordered le)
  exact mul_le_mul_of_nonneg_left (sub_le_sub_right reciprocal _) nonneg

theorem amounts_quote_monotone (nonneg : 0 ≤ liquidity) (lowerPos : 0 < lower)
    (ordered : lower < upper) :
    Monotone fun price => (amounts liquidity lower upper price).2 := by
  intro first second le
  have roots := sqrt_clamp_mono lowerPos ordered le
  exact mul_le_mul_of_nonneg_left (sub_le_sub_right roots _) nonneg

/-- Below the range a position is all base. -/
theorem amounts_of_le_lower (positive : 0 < liquidity) (lowerPos : 0 < lower)
    (ordered : lower < upper) (below : price ≤ lower) :
    0 < (amounts liquidity lower upper price).1 ∧ (amounts liquidity lower upper price).2 = 0 := by
  refine ⟨?_, amounts_quote_of_le_lower ordered.le below⟩
  rw [amounts_eq_smul]
  exact mul_pos positive (amounts_base_pos lowerPos ordered (below.trans_lt ordered))

/-- Above the range it is all quote. -/
theorem amounts_of_upper_le (positive : 0 < liquidity) (lowerPos : 0 < lower)
    (ordered : lower < upper) (above : upper ≤ price) :
    (amounts liquidity lower upper price).1 = 0 ∧ 0 < (amounts liquidity lower upper price).2 := by
  refine ⟨amounts_base_of_upper_le ordered.le above, ?_⟩
  rw [amounts_eq_smul]
  exact mul_pos positive (amounts_quote_pos lowerPos ordered (ordered.trans_le above))

end Price

/-- The liquidity of a positive value has that value at the price, and nothing negative; and
the two sides of any liquidity follow the price in opposite directions, with one of them empty
outside the range. -/
theorem valuation_round_trip [ExactArithmetic F] {lower upper price value : F}
    (lowerPos : 0 < lower) (ordered : lower < upper) (pricePos : 0 < price)
    (valuePos : 0 < value) :
    (∃ liquidity, liquidityForValue value lower upper price = .ok liquidity ∧
        0 ≤ (amounts liquidity lower upper price).1 ∧
        0 ≤ (amounts liquidity lower upper price).2 ∧
        (amounts liquidity lower upper price).1 * price +
          (amounts liquidity lower upper price).2 = value) ∧
      ∀ liquidity, 0 ≤ liquidity →
        (Antitone fun price => (amounts liquidity lower upper price).1) ∧
        (Monotone fun price => (amounts liquidity lower upper price).2) ∧
        (∀ price ≤ lower, (amounts liquidity lower upper price).2 = 0 ∧
          (0 < liquidity → 0 < (amounts liquidity lower upper price).1)) ∧
        ∀ price ≥ upper, (amounts liquidity lower upper price).1 = 0 ∧
          (0 < liquidity → 0 < (amounts liquidity lower upper price).2) := by
  obtain ⟨computed, found⟩ := liquidityForValue_of_pos valuePos lowerPos ordered pricePos
  obtain ⟨worth, positive⟩ := worth_of_liquidityForValue found
  have holdings := amounts_nonneg price positive.le lowerPos ordered
  refine ⟨⟨computed, found, holdings.1, holdings.2, worth⟩, fun liquidity nonneg => ?_⟩
  refine ⟨amounts_base_antitone nonneg lowerPos ordered,
    amounts_quote_monotone nonneg lowerPos ordered, ?_, ?_⟩
  · intro price below
    exact ⟨amounts_quote_of_le_lower ordered.le below,
      fun positive => (amounts_of_le_lower positive lowerPos ordered below).1⟩
  · intro price above
    exact ⟨amounts_base_of_upper_le ordered.le above,
      fun positive => (amounts_of_upper_le positive lowerPos ordered above).2⟩

theorem valuation_round_trip_unit :
    ∃ liquidity, liquidityForValue (1 : ℝ) 1 2 1 = .ok liquidity ∧
      (amounts liquidity 1 2 1).1 * 1 + (amounts liquidity 1 2 1).2 = 1 := by
  obtain ⟨⟨liquidity, found, _, _, worth⟩, _⟩ :=
    @valuation_round_trip ℝ _ _ 1 2 1 1 one_pos one_lt_two one_pos one_pos
  exact ⟨liquidity, found, worth⟩

/-- A value of zero is refused. -/
theorem zero_value_refused :
    ¬∀ value : ℝ, 0 ≤ value → ∃ liquidity, liquidityForValue value 1 2 1 = .ok liquidity := by
  intro all
  obtain ⟨liquidity, found⟩ := all 0 (le_refl _)
  simp [liquidityForValue] at found

end Math

end LpMaker
