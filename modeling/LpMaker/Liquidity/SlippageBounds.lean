import Mathlib
import LpMaker.Liquidity.Slippage

/-!
# Minimum amounts

What the computed liquidity costs, and how the amounts of a liquidity move with the price. A
mint never asks for more than the desired amounts and a burn inside the price bounds returns
its minimums. The minimums of a mint hold for the liquidity of the quote: they are reached at
an accepted price which still funds that liquidity.
-/

namespace LpMaker.Slippage

open Rounding

variable {sqrt bps lo hi : Nat}

/-- The square roots of the outermost ticks. -/
theorem sqrtAtTick_ends :
    sqrtAtTick minTick = .ok 4295128739 ∧
      sqrtAtTick maxTick = .ok 1461446703485210103287273052203988822378723970342 := by
  constructor
  · rw [sqrtAtTick_eq_ok]
    decide +kernel
  · rw [sqrtAtTick_eq_ok]
    decide +kernel

/-- Bounds of a price in the V3 range. -/
structure Bounds (sqrt bps lo hi : Nat) : Prop where
  low : 4295128739 ≤ sqrt
  high : sqrt < 1461446703485210103287273052203988822378723970342
  slippage : bps < 10000
  lo_eq : lo = max (sqrt * sqrt * (10000 - bps) / 10000).sqrt 4295128740
  hi_eq : hi = min (sqrt * sqrt * (10000 + bps) / 10000).sqrt
    1461446703485210103287273052203988822378723970341

theorem narrow_eq_ok {n m : Nat} : narrow n = .ok m ↔ n ≤ maxU256 ∧ n = m := by
  unfold narrow
  rw [check_bind_eq_ok, ensure_eq_ok, pure_eq_ok]

theorem priceBounds_eq_ok : priceBounds sqrt bps = .ok (lo, hi) ↔ Bounds sqrt bps lo hi := by
  obtain ⟨least, greatest⟩ := sqrtAtTick_ends
  unfold priceBounds
  simp only [least, greatest, bind_eq_ok, ensure_eq_ok, pure_eq_ok, narrow_eq_ok,
    Except.ok.injEq, exists_eq_left', Prod.mk.injEq]
  constructor
  · rintro ⟨_, ⟨low, high, slippage⟩, _, ⟨-, rfl⟩, _, ⟨-, rfl⟩, lo_eq, hi_eq⟩
    exact ⟨low, high, slippage, lo_eq.symm, hi_eq.symm⟩
  · rintro ⟨low, high, slippage, lo_eq, hi_eq⟩
    have fits : ∀ factor ≤ 20000, (sqrt * sqrt * factor / 10000).sqrt ≤ maxU256 := by
      intro factor small
      have root : (sqrt * sqrt * factor / 10000).sqrt < 2 ^ 256 := by
        rw [Nat.sqrt_lt]
        calc sqrt * sqrt * factor / 10000 ≤ sqrt * sqrt * factor := Nat.div_le_self _ _
          _ ≤ 2 ^ 161 * 2 ^ 161 * 20000 := by
              have bound : sqrt ≤ 2 ^ 161 := by omega
              gcongr
          _ < 2 ^ 256 * 2 ^ 256 := by norm_num
      exact Nat.le_of_lt_succ root
    exact ⟨(), ⟨low, high, slippage⟩, _, ⟨fits _ (by omega), rfl⟩, _, ⟨fits _ (by omega), rfl⟩,
      lo_eq.symm, hi_eq.symm⟩

/-- Every price in the V3 range has bounds. -/
theorem exists_priceBounds (low : 4295128739 ≤ sqrt)
    (high : sqrt < 1461446703485210103287273052203988822378723970342) (slippage : bps < 10000) :
    ∃ lo hi, priceBounds sqrt bps = .ok (lo, hi) :=
  ⟨_, _, priceBounds_eq_ok.mpr ⟨low, high, slippage, rfl, rfl⟩⟩

namespace Bounds

variable (bounds : Bounds sqrt bps lo hi)

include bounds

theorem le_hi : sqrt ≤ hi := by
  rw [bounds.hi_eq]
  refine le_min ?_ (by have := bounds.high; omega)
  calc sqrt = (sqrt * sqrt).sqrt := (Nat.sqrt_eq sqrt).symm
    _ = (sqrt * sqrt * 10000 / 10000).sqrt := by rw [Nat.mul_div_cancel _ (by omega)]
    _ ≤ (sqrt * sqrt * (10000 + bps) / 10000).sqrt := by
        apply Nat.sqrt_le_sqrt
        gcongr
        omega

/-- The lower bound only exceeds the price at the end of the V3 range. -/
theorem lo_le (inside : 4295128739 < sqrt) : lo ≤ sqrt := by
  rw [bounds.lo_eq]
  refine max_le ?_ (by omega)
  calc (sqrt * sqrt * (10000 - bps) / 10000).sqrt
      ≤ (sqrt * sqrt * 10000 / 10000).sqrt := by
        apply Nat.sqrt_le_sqrt
        gcongr
        omega
    _ = (sqrt * sqrt).sqrt := by rw [Nat.mul_div_cancel _ (by omega)]
    _ = sqrt := Nat.sqrt_eq sqrt

end Bounds

namespace Range

variable (range : Range)

theorem lower_low : 4295128739 ≤ range.lower :=
  (range.executable _ _ sqrtAtTick_ends.1 sqrtAtTick_ends.2).1

theorem upper_high : range.upper ≤ 1461446703485210103287273052203988822378723970342 :=
  (range.executable _ _ sqrtAtTick_ends.1 sqrtAtTick_ends.2).2

/-- The amount of token 0 of a liquidity at a price. -/
def amount0 (sqrt l : Nat) (roundUp : Bool) : Nat :=
  divide roundUp (l * q96 * (range.upper - range.clamp sqrt)) (range.upper * range.clamp sqrt)

/-- The amount of token 1 of a liquidity at a price. -/
def amount1 (sqrt l : Nat) (roundUp : Bool) : Nat :=
  divide roundUp (l * (range.clamp sqrt - range.lower)) q96

/-- The desired amounts pay for a liquidity at a price. -/
def Funds (sqrt l desired0 desired1 : Nat) : Prop :=
  l * (range.upper - range.clamp sqrt) ≤ desired0 * (range.clamp sqrt * range.upper / q96) ∧
    l * (range.clamp sqrt - range.lower) ≤ desired1 * q96

variable {range} {p q l l' desired0 desired1 : Nat} {roundUp : Bool} {mins used : Nat × Nat}

section Clamp

theorem clamp_mem : range.lower ≤ range.clamp p ∧ range.clamp p ≤ range.upper := by
  have ordered := range.ordered
  unfold clamp
  split_ifs <;> omega

theorem clamp_mono (le : p ≤ q) : range.clamp p ≤ range.clamp q := by
  have ordered := range.ordered
  unfold clamp
  split_ifs <;> omega

theorem clamp_of_le (below : p ≤ range.lower) : range.clamp p = range.lower := by
  have ordered := range.ordered
  unfold clamp
  split_ifs <;> omega

theorem clamp_of_ge (above : range.upper ≤ p) : range.clamp p = range.upper := by
  have ordered := range.ordered
  unfold clamp
  split_ifs <;> omega

theorem clamp_inside (low : range.lower ≤ p) (high : p ≤ range.upper) : range.clamp p = p := by
  unfold clamp
  split_ifs <;> omega

theorem clamp_pos : 0 < range.clamp p := by
  have low := range.lower_low
  have clamped := range.clamp_mem (p := p)
  omega

theorem upper_pos : 0 < range.upper := by
  have ordered := range.ordered
  omega

theorem denominator_pos : 0 < range.upper * range.clamp p := Nat.mul_pos upper_pos clamp_pos

theorem q96_pos : 0 < q96 := by norm_num [q96]

end Clamp

section Monotone

/-- Token 0 falls with the price and rises with the liquidity. -/
theorem amount0_le (price : p ≤ q) (liquidity : l ≤ l') :
    range.amount0 q l roundUp ≤ range.amount0 p l' roundUp := by
  unfold amount0
  apply divide_le_divide denominator_pos denominator_pos
  have prices : range.clamp p ≤ range.clamp q := clamp_mono price
  have swap : (range.upper - range.clamp q) * range.clamp p ≤
      (range.upper - range.clamp p) * range.clamp q := by
    rw [Nat.sub_mul, Nat.sub_mul, Nat.mul_comm (range.clamp q) (range.clamp p)]
    exact Nat.sub_le_sub_right (Nat.mul_le_mul_left _ prices) _
  calc l * q96 * (range.upper - range.clamp q) * (range.upper * range.clamp p)
      = l * (q96 * range.upper * ((range.upper - range.clamp q) * range.clamp p)) := by ring
    _ ≤ l' * (q96 * range.upper * ((range.upper - range.clamp p) * range.clamp q)) := by gcongr
    _ = l' * q96 * (range.upper - range.clamp p) * (range.upper * range.clamp q) := by ring

/-- Token 1 rises with the price and with the liquidity. -/
theorem amount1_le (price : p ≤ q) (liquidity : l ≤ l') :
    range.amount1 p l roundUp ≤ range.amount1 q l' roundUp := by
  unfold amount1
  apply divide_le_divide_right q96_pos
  have prices : range.clamp p ≤ range.clamp q := clamp_mono price
  gcongr

end Monotone

section Amounts

theorem checkedDivide_eq_ok {n d m : Nat} :
    checkedDivide n d roundUp = .ok m ↔ 0 < d ∧ divide roundUp n d ≤ maxU256 ∧
      divide roundUp n d = m := by
  simp only [checkedDivide, check_bind_eq_ok, ensure_eq_ok, narrow_eq_ok, gt_iff_lt]

theorem divide_le_up {n d : Nat} : divide roundUp n d ≤ divide true n d := by
  cases roundUp
  · simp [divide]
  · exact le_rfl

/-- The amounts of a 128-bit liquidity always fit. -/
theorem amounts_eq_ok :
    range.amounts p l roundUp = .ok used ↔
      l ≤ maxU128 ∧ used = (range.amount0 p l roundUp, range.amount1 p l roundUp) := by
  have first : l ≤ maxU128 → range.amount0 p l roundUp ≤ maxU256 := by
    intro small
    refine divide_le_up.trans ((divide_up_le_iff denominator_pos).mpr ?_)
    have positive : 0 < range.clamp p := clamp_pos
    calc l * q96 * (range.upper - range.clamp p)
        ≤ maxU128 * q96 * range.upper := by gcongr; exact Nat.sub_le _ _
      _ ≤ maxU256 * range.upper := by
          apply Nat.mul_le_mul_right
          norm_num [maxU128, maxU256, q96]
      _ ≤ maxU256 * (range.upper * range.clamp p) := by
          apply Nat.mul_le_mul_left
          exact Nat.le_mul_of_pos_right _ positive
  have second : l ≤ maxU128 → range.amount1 p l roundUp ≤ maxU256 := by
    intro small
    refine divide_le_up.trans ((divide_up_le_iff q96_pos).mpr ?_)
    have high := range.upper_high
    have clamped : range.clamp p ≤ range.upper := clamp_mem.2
    calc l * (range.clamp p - range.lower)
        ≤ maxU128 * 2 ^ 161 := by gcongr; omega
      _ ≤ maxU256 * q96 := by norm_num [maxU128, maxU256, q96]
  unfold amounts
  simp only [ensure_eq_ok, bind_eq_ok, checkedDivide_eq_ok, pure_eq_ok]
  constructor
  · rintro ⟨_, small, _, ⟨-, -, rfl⟩, _, ⟨-, -, rfl⟩, rfl⟩
    exact ⟨small, rfl⟩
  · rintro ⟨small, rfl⟩
    exact ⟨(), small, _, ⟨denominator_pos, first small, rfl⟩, _, ⟨q96_pos, second small, rfl⟩, rfl⟩

/-- The minimums take token 0 at the upper bound and token 1 at the lower one. -/
theorem minimums_eq_ok :
    range.minimums sqrt l bps roundUp = .ok mins ↔ ∃ lo hi, Bounds sqrt bps lo hi ∧
      l ≤ maxU128 ∧ mins = (range.amount0 hi l roundUp, range.amount1 lo l roundUp) := by
  unfold minimums
  simp only [bind_eq_ok, pure_eq_ok, amounts_eq_ok]
  constructor
  · rintro ⟨⟨lo, hi⟩, bounded, _, ⟨small, rfl⟩, _, ⟨-, rfl⟩, rfl⟩
    exact ⟨lo, hi, priceBounds_eq_ok.mp bounded, small, rfl⟩
  · rintro ⟨lo, hi, bounded, small, rfl⟩
    exact ⟨(lo, hi), priceBounds_eq_ok.mpr bounded, _, ⟨small, rfl⟩, _, ⟨small, rfl⟩, rfl⟩

end Amounts

section Funding

/-- The computed liquidity is the largest one which the desired amounts pay for. -/
theorem le_liquidity_iff (computed : range.liquidity p desired0 desired1 = .ok l') :
    l ≤ l' ↔ range.Funds p l desired0 desired1 := by
  have ordered := range.ordered
  unfold liquidity liquidity0 liquidity1 at computed
  unfold Funds
  split_ifs at computed with below above
  · simp only [bind_eq_ok, checkedDivide_eq_ok, ensure_eq_ok, pure_eq_ok] at computed
    obtain ⟨_, ⟨positive, -, rfl⟩, _, -, rfl⟩ := computed
    rw [le_divide_down_iff positive, clamp_of_le below]
    simp
  · simp only [bind_eq_ok, checkedDivide_eq_ok, ensure_eq_ok, pure_eq_ok] at computed
    obtain ⟨_, ⟨positive, -, rfl⟩, _, -, rfl⟩ := computed
    rw [le_divide_down_iff positive, clamp_of_ge above]
    simp
  · simp only [bind_eq_ok, checkedDivide_eq_ok, ensure_eq_ok, pure_eq_ok] at computed
    obtain ⟨_, ⟨positive0, -, rfl⟩, _, ⟨positive1, -, rfl⟩, _, rfl, _, -, rfl⟩ := computed
    rw [clamp_inside (by omega) (by omega)]
    exact le_min_iff.trans
      (and_congr (le_divide_down_iff positive0) (le_divide_down_iff positive1))

theorem liquidity_le_maxU128 (computed : range.liquidity p desired0 desired1 = .ok l) :
    l ≤ maxU128 := by
  unfold liquidity at computed
  split_ifs at computed
  · simp only [bind_eq_ok, ensure_eq_ok, pure_eq_ok] at computed
    obtain ⟨_, -, _, small, rfl⟩ := computed
    exact small
  · simp only [bind_eq_ok, ensure_eq_ok, pure_eq_ok] at computed
    obtain ⟨_, -, _, small, rfl⟩ := computed
    exact small
  · simp only [bind_eq_ok, ensure_eq_ok, pure_eq_ok] at computed
    obtain ⟨_, -, _, -, _, -, _, small, rfl⟩ := computed
    exact small

/-- A funded liquidity costs at most the desired amounts, rounded up. -/
theorem amounts_le_of_funds (funds : range.Funds p l desired0 desired1) :
    range.amount0 p l true ≤ desired0 ∧ range.amount1 p l true ≤ desired1 := by
  obtain ⟨funds0, funds1⟩ := funds
  constructor
  · rw [amount0, divide_up_le_iff denominator_pos]
    calc l * q96 * (range.upper - range.clamp p)
        = l * (range.upper - range.clamp p) * q96 := Nat.mul_right_comm _ _ _
      _ ≤ desired0 * (range.clamp p * range.upper / q96) * q96 := Nat.mul_le_mul_right _ funds0
      _ = desired0 * (range.clamp p * range.upper / q96 * q96) := Nat.mul_assoc _ _ _
      _ ≤ desired0 * (range.clamp p * range.upper) :=
          Nat.mul_le_mul_left _ (Nat.div_mul_le_self _ _)
      _ = desired0 * (range.upper * range.clamp p) := by rw [Nat.mul_comm range.upper]
  · rw [amount1, divide_up_le_iff q96_pos]
    exact funds1

/-- A price which rises keeps token 0 sufficient. -/
theorem funds_of_rise (rise : p ≤ q) (funds : range.Funds p l desired0 desired1) :
    range.Funds q l desired0 desired1 ↔ l * (range.clamp q - range.lower) ≤ desired1 * q96 := by
  refine ⟨And.right, fun enough => ⟨?_, enough⟩⟩
  have prices : range.clamp p ≤ range.clamp q := clamp_mono rise
  calc l * (range.upper - range.clamp q)
      ≤ l * (range.upper - range.clamp p) := by gcongr
    _ ≤ desired0 * (range.clamp p * range.upper / q96) := funds.1
    _ ≤ desired0 * (range.clamp q * range.upper / q96) := by gcongr

/-- A price which falls keeps token 1 sufficient. -/
theorem funds_of_fall (fall : q ≤ p) (funds : range.Funds p l desired0 desired1) :
    range.Funds q l desired0 desired1 ↔
      l * (range.upper - range.clamp q) ≤ desired0 * (range.clamp q * range.upper / q96) := by
  refine ⟨And.left, fun enough => ⟨enough, ?_⟩⟩
  have prices : range.clamp q ≤ range.clamp p := clamp_mono fall
  calc l * (range.clamp q - range.lower)
      ≤ l * (range.clamp p - range.lower) := by gcongr
    _ ≤ desired1 * q96 := funds.2

end Funding

end Range

section Errors

variable {α β : Type} {ε : Type} {errors : List ε}

/-- A computation only fails with the given errors. -/
def FailsWith (errors : List ε) (computation : Except ε α) : Prop :=
  ∀ error, computation = .error error → error ∈ errors

theorem FailsWith.pure (value : α) : FailsWith errors (Pure.pure value : Except ε α) := by
  intro error failed
  cases failed

theorem FailsWith.ensure {condition : Prop} [Decidable condition] {error : ε}
    (known : error ∈ errors) : FailsWith errors (ensure condition error) := by
  intro failure failed
  rw [(ensure_eq_error.mp failed).2]
  exact known

theorem FailsWith.bind {first : Except ε α} {rest : α → Except ε β}
    (firstFails : FailsWith errors first) (restFails : ∀ value, FailsWith errors (rest value)) :
    FailsWith errors (first >>= rest) := by
  intro error failed
  rcases bind_eq_error.mp failed with failed | ⟨value, -, failed⟩
  · exact firstFails error failed
  · exact restFails value error failed

/-- The errors of the arithmetic. -/
def arithmeticErrors : List String :=
  ["invalid V3 tick", "invalid V3 denominator", "V3 amount overflow",
    "V3 liquidity exceeds uint128", "invalid V3 price/slippage"]

theorem narrow_failsWith {n : Nat} : FailsWith arithmeticErrors (narrow n) := by
  unfold narrow
  refine .bind (.ensure ?_) fun _ => .pure _
  decide

theorem checkedDivide_failsWith {n d : Nat} {roundUp : Bool} :
    FailsWith arithmeticErrors (checkedDivide n d roundUp) := by
  unfold checkedDivide
  refine .bind (.ensure ?_) fun _ => narrow_failsWith
  decide

theorem priceBounds_failsWith : FailsWith arithmeticErrors (priceBounds sqrt bps) := by
  obtain ⟨least, greatest⟩ := sqrtAtTick_ends
  unfold priceBounds
  rw [least, greatest]
  refine .bind (.pure _) fun min => ?_
  refine .bind (.pure _) fun max => ?_
  refine .bind (.ensure (by decide)) fun _ => ?_
  refine .bind narrow_failsWith fun _ => ?_
  exact .bind narrow_failsWith fun _ => .pure _

theorem Range.liquidity_failsWith {range : Range} {desired0 desired1 : Nat} :
    FailsWith arithmeticErrors (range.liquidity sqrt desired0 desired1) := by
  unfold Range.liquidity
  split_ifs
  · refine .bind checkedDivide_failsWith fun _ => ?_
    exact .bind (.ensure (by decide)) fun _ => .pure _
  · refine .bind checkedDivide_failsWith fun _ => ?_
    exact .bind (.ensure (by decide)) fun _ => .pure _
  · refine .bind checkedDivide_failsWith fun _ => ?_
    refine .bind checkedDivide_failsWith fun _ => ?_
    refine .bind (.pure _) fun _ => ?_
    exact .bind (.ensure (by decide)) fun _ => .pure _

theorem Range.amounts_failsWith {range : Range} {l : Nat} {roundUp : Bool} :
    FailsWith arithmeticErrors (range.amounts sqrt l roundUp) := by
  unfold amounts
  refine .bind (.ensure (by decide)) fun _ => ?_
  refine .bind checkedDivide_failsWith fun _ => ?_
  exact .bind checkedDivide_failsWith fun _ => .pure _

theorem Range.minimums_failsWith {range : Range} {l : Nat} {roundUp : Bool} :
    FailsWith arithmeticErrors (range.minimums sqrt l bps roundUp) := by
  refine .bind priceBounds_failsWith fun _ => ?_
  refine .bind Range.amounts_failsWith fun _ => ?_
  exact .bind Range.amounts_failsWith fun _ => .pure _

end Errors

section Minimums

variable {range : Range} {p q l desired0 desired1 : Nat} {mins : Nat × Nat}

open Range

theorem contains_iff : range.contains sqrt = true ↔ range.lower < sqrt ∧ sqrt < range.upper := by
  simp [contains]

/-- Within the range the minimums of a funded liquidity stay below the desired amounts. -/
theorem minimums_le (inside : range.contains sqrt = true)
    (funds : range.Funds sqrt l desired0 desired1)
    (computed : range.minimums sqrt l bps true = .ok mins) :
    mins.1 ≤ desired0 ∧ mins.2 ≤ desired1 := by
  obtain ⟨low, -⟩ := contains_iff.mp inside
  have least := range.lower_low
  obtain ⟨lo, hi, bounds, -, rfl⟩ := minimums_eq_ok.mp computed
  obtain ⟨cost0, cost1⟩ := amounts_le_of_funds funds
  constructor
  · exact (amount0_le bounds.le_hi le_rfl).trans cost0
  · exact (amount1_le (bounds.lo_le (by omega)) le_rfl).trans cost1

/-- Minting the computed liquidity never needs more than the desired amounts, and neither do
its minimums. -/
theorem mint_funded (range : Range) (sqrt desired0 desired1 bps : Nat) :
    (∀ l, range.liquidity sqrt desired0 desired1 = .ok l →
      ∃ used, range.amounts sqrt l true = .ok used ∧ used.1 ≤ desired0 ∧ used.2 ≤ desired1) ∧
    (∀ l mins, range.contains sqrt = true → range.liquidity sqrt desired0 desired1 = .ok l →
      range.minimums sqrt l bps true = .ok mins → mins.1 ≤ desired0 ∧ mins.2 ≤ desired1) ∧
    range.mintMinimums sqrt desired0 desired1 bps ≠ .error "invalid LP minimum amounts" := by
  have below : ∀ l mins, range.contains sqrt = true →
      range.liquidity sqrt desired0 desired1 = .ok l → range.minimums sqrt l bps true = .ok mins →
      mins.1 ≤ desired0 ∧ mins.2 ≤ desired1 := by
    intro l mins inside computed minimums
    exact minimums_le inside ((le_liquidity_iff computed).mp le_rfl) minimums
  refine ⟨?_, below, ?_⟩
  · intro l computed
    have small := liquidity_le_maxU128 computed
    have cost := amounts_le_of_funds ((le_liquidity_iff computed).mp le_rfl)
    exact ⟨_, amounts_eq_ok.mpr ⟨small, rfl⟩, cost⟩
  · intro failed
    unfold mintMinimums at failed
    simp only [bind_eq_error, ensure_eq_error, ensure_eq_ok] at failed
    rcases failed with ⟨-, other⟩ | ⟨_, inside, failed | ⟨l, computed, ⟨-, other⟩ |
      ⟨_, -, failed | ⟨mins, minimums, ⟨-, other⟩ | ⟨_, -, ⟨exceeds, -⟩ | ⟨_, -, other⟩⟩⟩⟩⟩⟩
    · exact absurd other (by decide)
    · exact absurd (liquidity_failsWith _ failed) (by decide)
    · exact absurd other (by decide)
    · exact absurd (minimums_failsWith _ failed) (by decide)
    · exact absurd other (by decide)
    · exact exceeds (below l mins inside computed minimums)
    · cases other

/-- The price bounds which the check of a price move accepts. -/
theorem checkPriceMove_eq_ok :
    checkPriceMove sqrt p bps = .ok () ↔ ∃ lo hi, Bounds sqrt bps lo hi ∧ lo ≤ p ∧ p ≤ hi := by
  unfold checkPriceMove
  rw [bind_eq_ok]
  constructor
  · rintro ⟨⟨lo, hi⟩, bounded, accepted⟩
    obtain ⟨low, high⟩ := ensure_eq_ok.mp accepted
    exact ⟨lo, hi, priceBounds_eq_ok.mp bounded, low, high⟩
  · rintro ⟨lo, hi, bounded, low, high⟩
    exact ⟨(lo, hi), priceBounds_eq_ok.mpr bounded, ensure_eq_ok.mpr ⟨low, high⟩⟩

/-- A price inside the V3 range is accepted exactly when its square is within the slippage, up
to one unit below. -/
theorem check_price_move_iff {min max before after : Nat} (least : sqrtAtTick minTick = .ok min)
    (greatest : sqrtAtTick maxTick = .ok max) (low : min ≤ before) (high : before < max)
    (slippage : bps < 10000) (above : min < after) (below : after < max) :
    checkPriceMove before after bps = .ok () ↔
      10000 * after ^ 2 ≤ (10000 + bps) * before ^ 2 ∧
        10000 * (after + 1) ^ 2 > (10000 - bps) * before ^ 2 := by
  cases least.symm.trans sqrtAtTick_ends.1
  cases greatest.symm.trans sqrtAtTick_ends.2
  have ten_thousand : 0 < 10000 := by omega
  have upper : after ≤ (before * before * (10000 + bps) / 10000).sqrt ↔
      10000 * after ^ 2 ≤ (10000 + bps) * before ^ 2 := by
    rw [Nat.le_sqrt', Nat.le_div_iff_mul_le ten_thousand, Nat.mul_comm, Nat.pow_two before,
      Nat.mul_comm (before * before)]
  have lower : (before * before * (10000 - bps) / 10000).sqrt ≤ after ↔
      10000 * (after + 1) ^ 2 > (10000 - bps) * before ^ 2 := by
    rw [← Nat.lt_succ_iff, Nat.sqrt_lt', Nat.div_lt_iff_lt_mul ten_thousand, Nat.pow_two before,
      Nat.mul_comm (before * before), Nat.mul_comm _ 10000]
  rw [checkPriceMove_eq_ok, ← upper, ← lower]
  constructor
  · rintro ⟨lo, hi, bounds, reached, kept⟩
    rw [bounds.lo_eq] at reached
    rw [bounds.hi_eq] at kept
    exact ⟨kept.trans (min_le_left _ _), (le_max_left _ _).trans reached⟩
  · rintro ⟨kept, reached⟩
    refine ⟨_, _, ⟨low, high, slippage, rfl, rfl⟩, ?_, ?_⟩
    · exact max_le reached (by omega)
    · exact le_min kept (by omega)

theorem Bounds.unique {lo' hi' : Nat} (first : Bounds sqrt bps lo hi)
    (second : Bounds sqrt bps lo' hi') : lo' = lo ∧ hi' = hi :=
  ⟨second.lo_eq.trans first.lo_eq.symm, second.hi_eq.trans first.hi_eq.symm⟩

/-- The minimums hold at every accepted price for at least the liquidity they were computed
for. -/
theorem minimums_le_amounts {l' : Nat} {roundUp : Bool} (bounds : Bounds sqrt bps lo hi)
    (computed : range.minimums sqrt l bps roundUp = .ok mins) (low : lo ≤ p) (high : p ≤ hi)
    (enough : l ≤ l') : mins.1 ≤ range.amount0 p l' roundUp ∧ mins.2 ≤ range.amount1 p l' roundUp := by
  obtain ⟨_, _, bounds', -, rfl⟩ := minimums_eq_ok.mp computed
  obtain ⟨rfl, rfl⟩ := bounds'.unique bounds
  exact ⟨amount0_le high enough, amount1_le low enough⟩

/-- A burn within the price bounds returns its minimums. -/
theorem burn_minimums_sound (range : Range) (low : 4295128739 ≤ sqrt)
    (high : sqrt < 1461446703485210103287273052203988822378723970342) (slippage : bps < 10000)
    (small : l ≤ maxU128) :
    ∃ bounds mins, priceBounds sqrt bps = .ok bounds ∧
      range.burnMinimums sqrt l bps = .ok mins ∧
      ∀ p, bounds.1 ≤ p → p ≤ bounds.2 →
        ∃ returned, range.amounts p l false = .ok returned ∧
          mins.1 ≤ returned.1 ∧ mins.2 ≤ returned.2 := by
  obtain ⟨lo, hi, bounded⟩ := exists_priceBounds low high slippage
  have bounds := priceBounds_eq_ok.mp bounded
  have computed : range.minimums sqrt l bps false =
      .ok (range.amount0 hi l false, range.amount1 lo l false) :=
    minimums_eq_ok.mpr ⟨lo, hi, bounds, small, rfl⟩
  refine ⟨(lo, hi), _, bounded, computed, ?_⟩
  intro p above below
  exact ⟨_, amounts_eq_ok.mpr ⟨small, rfl⟩,
    minimums_le_amounts bounds computed above below le_rfl⟩

theorem mintMinimums_eq_ok :
    range.mintMinimums sqrt desired0 desired1 bps = .ok mins →
      ∃ l, range.contains sqrt = true ∧ range.liquidity sqrt desired0 desired1 = .ok l ∧
        range.minimums sqrt l bps true = .ok mins := by
  intro minted
  unfold mintMinimums at minted
  simp only [bind_eq_ok, ensure_eq_ok, pure_eq_ok] at minted
  obtain ⟨_, inside, l, computed, _, -, _, minimums, _, -, _, -, rfl⟩ := minted
  exact ⟨l, inside, computed, minimums⟩

/-- At an accepted price the quoted liquidity costs its minimums. The liquidity of the desired
amounts there is not below the quoted one when the token that grew scarcer still funds it, and
then the mint pays its minimums. -/
theorem mint_minimums_of_funded
    (minted : range.mintMinimums sqrt desired0 desired1 bps = .ok mins)
    (accepted : checkPriceMove sqrt p bps = .ok ()) :
    ∃ l, range.liquidity sqrt desired0 desired1 = .ok l ∧
      (∃ charged, range.amounts p l true = .ok charged ∧
        mins.1 ≤ charged.1 ∧ mins.2 ≤ charged.2) ∧
      ∀ l' used, range.liquidity p desired0 desired1 = .ok l' →
        range.amounts p l' true = .ok used →
        (l ≤ l' ↔
          if sqrt ≤ p then l * (range.clamp p - range.lower) ≤ desired1 * q96
          else l * (range.upper - range.clamp p) ≤
            desired0 * (range.clamp p * range.upper / q96)) ∧
        (l ≤ l' → mins.1 ≤ used.1 ∧ mins.2 ≤ used.2) := by
  obtain ⟨l, -, computed, minimums⟩ := mintMinimums_eq_ok minted
  obtain ⟨lo, hi, bounds, low, high⟩ := checkPriceMove_eq_ok.mp accepted
  have small := liquidity_le_maxU128 computed
  have funds := (le_liquidity_iff computed).mp le_rfl
  refine ⟨l, computed, ?_, ?_⟩
  · exact ⟨_, amounts_eq_ok.mpr ⟨small, rfl⟩,
      minimums_le_amounts bounds minimums low high le_rfl⟩
  · intro l' used recomputed charged
    obtain ⟨-, rfl⟩ := amounts_eq_ok.mp charged
    refine ⟨?_, minimums_le_amounts bounds minimums low high⟩
    rw [le_liquidity_iff recomputed]
    split_ifs with rise
    · exact funds_of_rise rise funds
    · exact funds_of_fall (by omega) funds

end Minimums

/-- A range is built from the square roots at its ticks. -/
theorem Range.new_eq_ok {lowerTick upperTick : Int} {range : Range} :
    Range.new lowerTick upperTick = .ok range ↔ lowerTick < upperTick ∧
      sqrtAtTick lowerTick = .ok range.lower ∧ sqrtAtTick upperTick = .ok range.upper := by
  unfold Range.new
  constructor
  · intro built
    split_ifs at built with ordered
    split at built
    · cases built
      exact ⟨ordered, by assumption, by assumption⟩
    · cases built
    · cases built
  · rintro ⟨ordered, lower_ok, upper_ok⟩
    rw [dif_pos ordered]
    split
    · rename_i lower upper lower_found upper_found
      cases lower_ok.symm.trans lower_found
      cases upper_ok.symm.trans upper_found
      rfl
    · rename_i failed
      cases lower_ok.symm.trans failed
    · rename_i failed _
      cases upper_ok.symm.trans failed

end LpMaker.Slippage

namespace LpMaker.Shipped

open Slippage

/-- Two hundred ticks on both sides of price one. -/
def aroundOne : Range where
  lower := 78439868342809377387252074393
  upper := 80024378775772204256025656563
  ordered := by norm_num
  executable := by
    intro min max least greatest
    cases least.symm.trans sqrtAtTick_ends.1
    cases greatest.symm.trans sqrtAtTick_ends.2
    norm_num

theorem aroundOne_new : Range.new (-200) 200 = .ok aroundOne := by
  rw [Range.new_eq_ok, sqrtAtTick_eq_ok, sqrtAtTick_eq_ok]
  decide +kernel

/-- Thirty basis points around price one. -/
theorem bounds_aroundOne :
    Bounds (2 ^ 96) 30 79109231004861377817720469692 79346915759800272189730647825 := by
  have low : (2 ^ 96 * 2 ^ 96 * (10000 - 30) / 10000).sqrt = 79109231004861377817720469692 :=
    (Nat.eq_sqrt.mpr (by norm_num)).symm
  have high : (2 ^ 96 * 2 ^ 96 * (10000 + 30) / 10000).sqrt = 79346915759800272189730647825 :=
    (Nat.eq_sqrt.mpr (by norm_num)).symm
  constructor
  · norm_num
  · norm_num
  · norm_num
  · rw [low]
    norm_num
  · rw [high]
    norm_num

/-- The minimums at price one, for equal amounts and with a surplus of token 1. -/
theorem mint_aroundOne :
    ∀ desired1 ∈ [10 ^ 18, 2 * 10 ^ 18],
      aroundOne.mintMinimums (2 ^ 96) (10 ^ 18) desired1 30 =
        .ok (849579611578731699, 849128011204945185) := by
  have bounded := priceBounds_eq_ok.mpr bounds_aroundOne
  unfold Range.mintMinimums Range.minimums
  rw [bounded]
  decide +kernel

/-- Equal amounts at price one: the mint neither fails nor exceeds them. -/
theorem mint_funded_aroundOne :
    (∃ used, aroundOne.amounts (2 ^ 96) 100505833206951600031 true = .ok used ∧
      used.1 ≤ 10 ^ 18 ∧ used.2 ≤ 10 ^ 18) ∧
      aroundOne.mintMinimums (2 ^ 96) (10 ^ 18) (10 ^ 18) 30 ≠
        .error "invalid LP minimum amounts" := by
  obtain ⟨funded, -, sound⟩ := mint_funded aroundOne (2 ^ 96) (10 ^ 18) (10 ^ 18) 30
  exact ⟨funded _ (by decide +kernel), sound⟩

/-- A burn at price one. -/
theorem burn_aroundOne :
    ∃ bounds mins, priceBounds (2 ^ 96) 30 = .ok bounds ∧
      aroundOne.burnMinimums (2 ^ 96) (10 ^ 18) 30 = .ok mins ∧
      ∀ p, bounds.1 ≤ p → p ≤ bounds.2 →
        ∃ returned, aroundOne.amounts p (10 ^ 18) false = .ok returned ∧
          mins.1 ≤ returned.1 ∧ mins.2 ≤ returned.2 :=
  burn_minimums_sound aroundOne (by norm_num) (by norm_num) (by norm_num)
    (by norm_num [maxU128])

/-- At the upper bound token 1 binds, and token 0 stays below its minimum. -/
theorem mint_below_minimum :
    ∃ mins used, aroundOne.mintMinimums (2 ^ 96) (10 ^ 18) (10 ^ 18) 30 = .ok mins ∧
      checkPriceMove (2 ^ 96) 79346915759800272189730647825 30 = .ok () ∧
      aroundOne.liquidity 79346915759800272189730647825 (10 ^ 18) (10 ^ 18) =
        .ok 87347321683690602704 ∧
      aroundOne.amounts 79346915759800272189730647825 87347321683690602704 true = .ok used ∧
      used.1 < mins.1 := by
  refine ⟨_, (738350215710063640, 10 ^ 18), mint_aroundOne _ (by simp), ?_, ?_, ?_, ?_⟩
  · rw [checkPriceMove_eq_ok]
    exact ⟨_, _, bounds_aroundOne, by norm_num, le_rfl⟩
  · decide +kernel
  · decide +kernel
  · norm_num

/-- Thirty basis points above price one: the square decides. -/
theorem price_move_aroundOne :
    checkPriceMove (2 ^ 96) 79346915759800272189730647825 30 = .ok () ↔
      10000 * 79346915759800272189730647825 ^ 2 ≤ (10000 + 30) * (2 ^ 96) ^ 2 ∧
        10000 * (79346915759800272189730647825 + 1) ^ 2 > (10000 - 30) * (2 ^ 96) ^ 2 :=
  check_price_move_iff sqrtAtTick_ends.1 sqrtAtTick_ends.2 (by norm_num) (by norm_num)
    (by norm_num) (by norm_num) (by norm_num)

/-- A surplus of token 1 funds the quoted liquidity up to the upper bound. -/
theorem mint_minimums_of_surplus :
    ∃ l' used, aroundOne.liquidity 79346915759800272189730647825 (10 ^ 18) (2 * 10 ^ 18) = .ok l' ∧
      aroundOne.amounts 79346915759800272189730647825 l' true = .ok used ∧
      849579611578731699 ≤ used.1 ∧ 849128011204945185 ≤ used.2 := by
  have accepted : checkPriceMove (2 ^ 96) 79346915759800272189730647825 30 = .ok () :=
    checkPriceMove_eq_ok.mpr ⟨_, _, bounds_aroundOne, by norm_num, le_rfl⟩
  have quoted : aroundOne.liquidity (2 ^ 96) (10 ^ 18) (2 * 10 ^ 18) = .ok 100505833206951600031 := by
    decide +kernel
  have recomputed : aroundOne.liquidity 79346915759800272189730647825 (10 ^ 18) (2 * 10 ^ 18) =
      .ok 118300665219809818557 := by decide +kernel
  have charged : aroundOne.amounts 79346915759800272189730647825 118300665219809818557 true =
      .ok (1000000000000000000, 1354370837473529434) := by decide +kernel
  obtain ⟨l, computed, -, reached⟩ :=
    mint_minimums_of_funded (mint_aroundOne (2 * 10 ^ 18) (by simp)) accepted
  cases quoted.symm.trans computed
  exact ⟨_, _, recomputed, charged, (reached _ _ recomputed charged).2 (by norm_num)⟩

end LpMaker.Shipped
