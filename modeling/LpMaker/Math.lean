import Mathlib
import LpMaker.Numeric.F64
import LpMaker.Semantics.Result

/-!
# Concentrated-liquidity valuation

`amounts` splits a liquidity amount into base and quote at a price, and
`liquidityForValue` inverts the valuation. The results below hold wherever the
square root is exact.
-/

namespace LpMaker.Math

variable {F : Type} [F64 F]

open F64 (sqrt isFinite clamp)

/-- Base and quote held by `liquidity` in a range at `price`. -/
def amounts (liquidity lower upper price : F) : F × F :=
  let p := sqrt (clamp price lower upper)
  (liquidity * (1 / p - 1 / sqrt upper), liquidity * (p - sqrt lower))

/-- The liquidity whose holdings are worth `value` at `price`. -/
def liquidityForValue (value lower upper price : F) : Except String F := do
  ensure ((∀ x ∈ [value, lower, upper, price], isFinite x ∧ x > 0) ∧ lower < upper)
    "invalid liquidity inputs"
  let (b, q) := amounts 1 lower upper price
  .ok (value / (b * price + q))

/-- The symmetric range of a layer around `price`. -/
def range (price width : F) : F × F :=
  (price / (1 + width), price * (1 + width))

/-- Value of a position's holdings at `price`. -/
def worth (holdings : F × F) (price : F) : F := holdings.1 * price + holdings.2

/-- Holdings are linear in the liquidity. -/
theorem amounts_eq_smul (liquidity lower upper price : F) :
    amounts liquidity lower upper price =
      (liquidity * (amounts 1 lower upper price).1,
        liquidity * (amounts 1 lower upper price).2) := by
  simp [amounts]

theorem amounts_add (first second lower upper price : F) :
    amounts (first + second) lower upper price =
      ((amounts first lower upper price).1 + (amounts second lower upper price).1,
        (amounts first lower upper price).2 + (amounts second lower upper price).2) := by
  simp [amounts, add_mul]

theorem worth_amounts (liquidity lower upper price : F) :
    worth (amounts liquidity lower upper price) price =
      liquidity * worth (amounts 1 lower upper price) price := by
  rw [amounts_eq_smul]
  simp only [worth]
  ring

section Exact

variable [ExactArithmetic F] {lower upper : F} (price : F)

/-- Unit liquidity never holds a negative amount of base. -/
theorem amounts_base_nonneg (lowerPos : 0 < lower) (ordered : lower < upper) :
    0 ≤ (amounts 1 lower upper price).1 := by
  have bounds := F64.clamp_mem (x := price) ordered.le
  have clampPos : 0 < clamp price lower upper := lowerPos.trans_le bounds.1
  have order : sqrt (clamp price lower upper) ≤ sqrt upper :=
    F64.sqrt_le_sqrt clampPos.le bounds.2
  have reciprocal := one_div_le_one_div_of_le (F64.sqrt_pos clampPos) order
  simp only [amounts, one_mul]
  linarith

/-- Unit liquidity never holds a negative amount of quote. -/
theorem amounts_quote_nonneg (lowerPos : 0 < lower) (ordered : lower < upper) :
    0 ≤ (amounts 1 lower upper price).2 := by
  have bounds := F64.clamp_mem (x := price) ordered.le
  have order : sqrt lower ≤ sqrt (clamp price lower upper) :=
    F64.sqrt_le_sqrt lowerPos.le bounds.1
  simp only [amounts, one_mul]
  linarith

/-- At or below the upper bound's interior the base side is strictly positive. -/
theorem amounts_base_pos {price : F} (lowerPos : 0 < lower) (ordered : lower < upper)
    (below : price < upper) : 0 < (amounts 1 lower upper price).1 := by
  have bounds := F64.clamp_mem (x := price) ordered.le
  have clampPos : 0 < clamp price lower upper := lowerPos.trans_le bounds.1
  have clampLt : clamp price lower upper < upper := by
    unfold clamp
    split_ifs with under beyond
    · exact ordered
    · exact absurd below (not_lt.mpr beyond.le)
    · exact below
  have order := F64.sqrt_lt_sqrt clampPos.le clampLt
  have reciprocal := one_div_lt_one_div_of_lt (F64.sqrt_pos clampPos) order
  simp only [amounts, one_mul]
  linarith

/-- Above the lower bound the quote side is strictly positive. -/
theorem amounts_quote_pos {price : F} (lowerPos : 0 < lower) (ordered : lower < upper)
    (above : lower < price) : 0 < (amounts 1 lower upper price).2 := by
  have clampGt : lower < clamp price lower upper := by
    unfold clamp
    split_ifs with under beyond
    · exact absurd above (not_lt.mpr under.le)
    · exact ordered
    · exact above
  have order := F64.sqrt_lt_sqrt lowerPos.le clampGt
  simp only [amounts, one_mul]
  linarith

/-- Unit liquidity is worth something at every positive price. -/
theorem worth_unit_pos {price : F} (lowerPos : 0 < lower) (ordered : lower < upper)
    (pricePos : 0 < price) :
    0 < worth (amounts 1 lower upper price) price := by
  have baseNonneg := amounts_base_nonneg price lowerPos ordered
  have quoteNonneg := amounts_quote_nonneg price lowerPos ordered
  simp only [worth]
  rcases lt_or_ge price upper with below | above
  · have basePos := amounts_base_pos lowerPos ordered below
    have := mul_pos basePos pricePos
    linarith
  · have quotePos := amounts_quote_pos lowerPos ordered (ordered.trans_le above)
    have := mul_nonneg baseNonneg pricePos.le
    linarith

/-- The computed liquidity is worth exactly the requested value. -/
theorem worth_of_liquidityForValue {value liquidity price : F}
    (computed : liquidityForValue value lower upper price = .ok liquidity) :
    worth (amounts liquidity lower upper price) price = value ∧ 0 < liquidity := by
  simp only [liquidityForValue, check_bind_eq_ok, ensure_eq_ok, List.forall_mem_cons,
    Except.ok.injEq] at computed
  obtain ⟨⟨⟨valuePos, lowerPos, upperPos, pricePos, -⟩, ordered⟩, rfl⟩ := computed
  have unit := worth_unit_pos lowerPos.2 ordered pricePos.2
  have shape : (amounts 1 lower upper price).1 * price + (amounts 1 lower upper price).2 =
      worth (amounts 1 lower upper price) price := rfl
  rw [shape, worth_amounts]
  exact ⟨div_mul_cancel₀ _ unit.ne', div_pos valuePos.2 unit⟩

/-- A positive value in an ordered range of positive prices always has a liquidity. -/
theorem liquidityForValue_of_pos {value price : F} (valuePos : 0 < value) (lowerPos : 0 < lower)
    (ordered : lower < upper) (pricePos : 0 < price) :
    ∃ liquidity, liquidityForValue value lower upper price = .ok liquidity := by
  have upperPos := lowerPos.trans ordered
  have checked : (∀ x ∈ [value, lower, upper, price], isFinite x ∧ x > 0) ∧ lower < upper := by
    simp [ExactArithmetic.finite, valuePos, lowerPos, upperPos, pricePos, ordered]
  exact ⟨_, check_bind_eq_ok.mpr ⟨ensure_eq_ok.mpr checked, rfl⟩⟩

/-- The holdings of a computed liquidity are nonnegative. -/
theorem amounts_nonneg {liquidity : F} (liquidityNonneg : 0 ≤ liquidity) (lowerPos : 0 < lower)
    (ordered : lower < upper) :
    0 ≤ (amounts liquidity lower upper price).1 ∧
      0 ≤ (amounts liquidity lower upper price).2 := by
  rw [amounts_eq_smul]
  exact ⟨mul_nonneg liquidityNonneg (amounts_base_nonneg price lowerPos ordered),
    mul_nonneg liquidityNonneg (amounts_quote_nonneg price lowerPos ordered)⟩

end Exact

/-- A symmetric range of positive width contains its centre. -/
theorem range_mem {price width : F} (pricePos : 0 < price) (widthPos : 0 < width) :
    0 < (range price width).1 ∧ (range price width).1 < price ∧ price < (range price width).2 := by
  have one : (1 : F) < 1 + width := by linarith
  refine ⟨div_pos pricePos (by linarith), div_lt_self pricePos one, ?_⟩
  exact lt_mul_of_one_lt_right pricePos one

end LpMaker.Math
