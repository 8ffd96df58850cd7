import Mathlib
import LpMaker.Config
import LpMaker.Math
import LpMaker.Shipped

/-!
# Ticks of price intervals

The conversion between prices and ticks, the outward alignment of a range to the tick spacing
and the inward alignment of a bounded range. The model keeps the conversion to 32-bit integers
of the source, which saturates, and the product of two of them, which wraps.
-/

namespace LpMaker.Math

open F64 (isFinite ln)

/-- A floating-point integer as `i32`. -/
def toI32 (n : Int) : Int := max (-2 ^ 31) (min n (2 ^ 31 - 1))

/-- The product of two `i32`. -/
def mulI32 (a b : Int) : Int := (a * b).bmod (2 ^ 32)

section Definitions

variable {F : Type} [F64 F] (baseDecimals quoteDecimals : Nat) (baseIsToken0 : Bool)

/-- The tick of a positive price, not rounded. -/
def tickOf (price : F) : F :=
  let raw := price * 10 ^ ((quoteDecimals : Int) - baseDecimals)
  (if baseIsToken0 then ln raw else -ln raw) / ln 1.0001

def priceToTick (price : F) : Except String F := do
  ensure (isFinite price ∧ price > 0) "invalid price"
  pure (tickOf baseDecimals quoteDecimals baseIsToken0 price)

def tickToPrice (tick : Int) : F :=
  let raw : F := 1.0001 ^ tick
  (if baseIsToken0 then raw else 1 / raw) * 10 ^ ((baseDecimals : Int) - quoteDecimals)

variable [FloorRing F]

/-- The range grows outward to multiples of the spacing. -/
def alignedTicks (lower upper : F) (spacing : Int) : Except String (Int × Int) := do
  ensure (spacing > 0 ∧ lower < upper) "invalid tick range"
  let a ← priceToTick baseDecimals quoteDecimals baseIsToken0 lower
  let b ← priceToTick baseDecimals quoteDecimals baseIsToken0 upper
  let lo := mulI32 (toI32 ⌊min a b / spacing⌋) spacing
  let hi := mulI32 (toI32 ⌈max a b / spacing⌉) spacing
  ensure (lo ≥ -887272 ∧ hi ≤ 887272 ∧ lo < hi) "ticks outside Uniswap bounds"
  pure (lo, hi)

/-- An arithmetic range around the price of a snapshot shrinks inward. The spacing and the token
order are fields of the snapshot. -/
def boundedTicks (c : LiquidityConfig F) (price : F) (tickSpacing : Int) (baseIsToken0 : Bool)
    (widths : F × F) : Except String (Int × Int) := do
  ensure (tickSpacing > 0 ∧ ∀ w ∈ [widths.1, widths.2], isFinite w ∧ w > 0.001 ∧ w ≤ 0.08)
    "invalid bounded LP widths"
  let lo := price * (1 - widths.1)
  let hi := price * (1 + widths.2)
  let a ← priceToTick c.baseDecimals c.quoteDecimals baseIsToken0 lo
  let b ← priceToTick c.baseDecimals c.quoteDecimals baseIsToken0 hi
  let tl := toI32 (⌈min a b / tickSpacing⌉ * tickSpacing)
  let tu := toI32 (⌊max a b / tickSpacing⌋ * tickSpacing)
  let low : F := tickToPrice c.baseDecimals c.quoteDecimals baseIsToken0 tl
  let high : F := tickToPrice c.baseDecimals c.quoteDecimals baseIsToken0 tu
  ensure (tl < tu ∧ min low high ≥ lo ∧ max low high ≤ hi ∧ min low high < price ∧
      max low high > price)
    "tick spacing cannot fit bounded LP range"
  pure (tl, tu)

end Definitions

section Integers

variable {x : ℝ} {n : Int}

theorem toI32_of_mem (low : -2 ^ 31 ≤ n) (high : n ≤ 2 ^ 31 - 1) : toI32 n = n := by
  unfold toI32
  omega

theorem mulI32_of_mem {a b : Int} (low : -2 ^ 31 ≤ a * b) (high : a * b ≤ 2 ^ 31 - 1) :
    mulI32 a b = a * b := by
  unfold mulI32
  exact Int.bmod_eq_of_le (by omega) (by omega)

/-- The multiple below a number, less than one spacing away. -/
theorem floor_multiple (positive : 0 < n) :
    (⌊x / n⌋ * n : ℤ) ≤ x ∧ x < (⌊x / n⌋ * n + n : ℤ) := by
  have spacing : (0 : ℝ) < n := by exact_mod_cast positive
  push_cast
  constructor
  · exact (le_div_iff₀ spacing).mp (Int.floor_le (x / n))
  · have next := (div_lt_iff₀ spacing).mp (Int.lt_floor_add_one (x / n))
    linarith

/-- The multiple above a number, less than one spacing away. -/
theorem ceil_multiple (positive : 0 < n) :
    x ≤ (⌈x / n⌉ * n : ℤ) ∧ (⌈x / n⌉ * n - n : ℤ) < x := by
  have spacing : (0 : ℝ) < n := by exact_mod_cast positive
  push_cast
  constructor
  · exact (div_le_iff₀ spacing).mp (Int.le_ceil (x / n))
  · have before := (lt_div_iff₀ spacing).mp (sub_lt_iff_lt_add.mpr (Int.ceil_lt_add_one (x / n)))
    linarith

/-- Where a multiple is less than one spacing away from a small number, it and its quotient are
in the 32-bit range. -/
theorem multiple_fits {k : Int} (positive : 0 < n) (spacing : n < 2 ^ 31)
    (below : (k * n - n : ℤ) < x) (above : x < (k * n + n : ℤ)) (small : |x| ≤ 2 ^ 30) :
    (-2 ^ 31 ≤ k ∧ k ≤ 2 ^ 31 - 1) ∧ -2 ^ 31 ≤ k * n ∧ k * n ≤ 2 ^ 31 - 1 := by
  obtain ⟨low, high⟩ := abs_le.mp small
  have upper : k * n - n < 2 ^ 30 := by exact_mod_cast below.trans_le high
  have lower : -2 ^ 30 < k * n + n := by exact_mod_cast low.trans_lt above
  have product : -2 ^ 31 ≤ k * n ∧ k * n ≤ 2 ^ 31 - 1 := by
    by_cases narrow : n ≤ 2 ^ 30
    · omega
    · -- A wide spacing leaves only the quotients next to zero.
      have k_high : k < 2 := lt_of_mul_lt_mul_right (by omega : k * n < 2 * n) positive.le
      have k_low : -2 < k := lt_of_mul_lt_mul_right (by omega : -2 * n < k * n) positive.le
      obtain rfl | rfl | rfl : k = -1 ∨ k = 0 ∨ k = 1 := by omega
      · omega
      · omega
      · omega
  refine ⟨?_, product⟩
  rcases le_total 0 k with nonneg | nonpos
  · have grows : k ≤ k * n := le_mul_of_one_le_right nonneg positive
    omega
  · have falls : k * n ≤ k * 1 := mul_le_mul_of_nonpos_left positive nonpos
    omega

theorem floor_fits (positive : 0 < n) (spacing : n < 2 ^ 31) (small : |x| ≤ 2 ^ 30) :
    mulI32 (toI32 ⌊x / n⌋) n = ⌊x / n⌋ * n ∧ toI32 (⌊x / n⌋ * n) = ⌊x / n⌋ * n := by
  obtain ⟨below, above⟩ := floor_multiple (x := x) positive
  have gap : (⌊x / n⌋ * n - n : ℤ) < x := by
    have spacing : (0 : ℝ) < n := by exact_mod_cast positive
    push_cast at below ⊢
    linarith
  obtain ⟨quotient, product⟩ := multiple_fits positive spacing gap above small
  rw [toI32_of_mem quotient.1 quotient.2]
  exact ⟨mulI32_of_mem product.1 product.2, toI32_of_mem product.1 product.2⟩

theorem ceil_fits (positive : 0 < n) (spacing : n < 2 ^ 31) (small : |x| ≤ 2 ^ 30) :
    mulI32 (toI32 ⌈x / n⌉) n = ⌈x / n⌉ * n ∧ toI32 (⌈x / n⌉ * n) = ⌈x / n⌉ * n := by
  obtain ⟨above, below⟩ := ceil_multiple (x := x) positive
  have gap : x < (⌈x / n⌉ * n + n : ℤ) := by
    have spacing : (0 : ℝ) < n := by exact_mod_cast positive
    push_cast at above ⊢
    linarith
  obtain ⟨quotient, product⟩ := multiple_fits positive spacing below gap small
  rw [toI32_of_mem quotient.1 quotient.2]
  exact ⟨mulI32_of_mem product.1 product.2, toI32_of_mem product.1 product.2⟩

end Integers

section Prices

variable {baseDecimals quoteDecimals : Nat} {baseIsToken0 : Bool} {price : ℝ} {tick : Int}

theorem log_base_pos : 0 < Real.log 1.0001 := Real.log_pos (by norm_num)

/-- The price of a raw value is undone by the decimals. -/
theorem decimals_cancel (price : ℝ) :
    price * 10 ^ ((quoteDecimals : Int) - baseDecimals) *
      10 ^ ((baseDecimals : Int) - quoteDecimals) = price := by
  rw [mul_assoc, ← zpow_add₀ (by norm_num : (10 : ℝ) ≠ 0)]
  simp

/-- The tick of a price compares with an integer as the raw price with its power. -/
theorem log_raw_le_iff {raw : ℝ} (positive : 0 < raw) :
    Real.log raw / Real.log 1.0001 ≤ tick ↔ raw ≤ (1.0001 : ℝ) ^ tick := by
  rw [div_le_iff₀ log_base_pos, ← Real.log_zpow, Real.log_le_log_iff positive (by positivity)]

theorem le_log_raw_iff {raw : ℝ} (positive : 0 < raw) :
    tick ≤ Real.log raw / Real.log 1.0001 ↔ (1.0001 : ℝ) ^ tick ≤ raw := by
  rw [le_div_iff₀ log_base_pos, ← Real.log_zpow, Real.log_le_log_iff (by positivity) positive]

/-- With the base as token 0 the price rises with the tick. -/
theorem tickOf_le_iff_token0 (positive : 0 < price) :
    (tickOf baseDecimals quoteDecimals true price ≤ tick ↔
      price ≤ tickToPrice baseDecimals quoteDecimals true tick) ∧
    (tick ≤ tickOf baseDecimals quoteDecimals true price ↔
      tickToPrice baseDecimals quoteDecimals true tick ≤ price) := by
  have scale : (0 : ℝ) < 10 ^ ((baseDecimals : Int) - quoteDecimals) := by positivity
  have raw : 0 < price * 10 ^ ((quoteDecimals : Int) - baseDecimals) := by positivity
  unfold tickOf tickToPrice
  simp only [if_true]
  constructor
  · rw [show (F64.ln : ℝ → ℝ) = Real.log from rfl, log_raw_le_iff raw,
      ← mul_le_mul_iff_left₀ scale, decimals_cancel]
  · rw [show (F64.ln : ℝ → ℝ) = Real.log from rfl, le_log_raw_iff raw,
      ← mul_le_mul_iff_left₀ scale, decimals_cancel]

/-- With the base as token 1 the price falls with the tick. -/
theorem tickOf_le_iff_token1 (positive : 0 < price) :
    (tickOf baseDecimals quoteDecimals false price ≤ tick ↔
      tickToPrice baseDecimals quoteDecimals false tick ≤ price) ∧
    (tick ≤ tickOf baseDecimals quoteDecimals false price ↔
      price ≤ tickToPrice baseDecimals quoteDecimals false tick) := by
  have scale : (0 : ℝ) < 10 ^ ((baseDecimals : Int) - quoteDecimals) := by positivity
  have raw : 0 < price * 10 ^ ((quoteDecimals : Int) - baseDecimals) := by positivity
  have mirrored : (1 : ℝ) / 1.0001 ^ tick = 1.0001 ^ (-tick) := by rw [zpow_neg, one_div]
  unfold tickOf tickToPrice
  simp only [Bool.false_eq_true, if_false, mirrored]
  rw [show (F64.ln : ℝ → ℝ) = Real.log from rfl, neg_div]
  constructor
  · rw [neg_le, ← Int.cast_neg, le_log_raw_iff raw, ← mul_le_mul_iff_left₀ scale, decimals_cancel]
  · rw [le_neg, ← Int.cast_neg, log_raw_le_iff raw, ← mul_le_mul_iff_left₀ scale, decimals_cancel]

theorem tickOf_lt_token0 {other : ℝ} (positive : 0 < price) (less : price < other) :
    tickOf baseDecimals quoteDecimals true price <
      tickOf baseDecimals quoteDecimals true other := by
  have scale : (0 : ℝ) < 10 ^ ((quoteDecimals : Int) - baseDecimals) := by positivity
  exact div_lt_div_of_pos_right
    (Real.log_lt_log (mul_pos positive scale) (mul_lt_mul_of_pos_right less scale)) log_base_pos

theorem tickOf_lt_token1 {other : ℝ} (positive : 0 < price) (less : price < other) :
    tickOf baseDecimals quoteDecimals false other <
      tickOf baseDecimals quoteDecimals false price := by
  have scale : (0 : ℝ) < 10 ^ ((quoteDecimals : Int) - baseDecimals) := by positivity
  exact div_lt_div_of_pos_right (neg_lt_neg
    (Real.log_lt_log (mul_pos positive scale) (mul_lt_mul_of_pos_right less scale))) log_base_pos

/-- The positive doubles, with room for a width on both sides. -/
structure InDoubleRange (x : ℝ) : Prop where
  least : 2 ^ (-1075 : ℤ) ≤ x
  greatest : x ≤ 2 ^ (1025 : ℤ)

theorem InDoubleRange.log_le (range : InDoubleRange price) : |Real.log price| ≤ 1075 := by
  have two : Real.log 2 ≤ 1 := (Real.log_le_sub_one_of_pos two_pos).trans (by norm_num)
  have positive : 0 < price := lt_of_lt_of_le (by positivity) range.least
  have low := Real.log_le_log (by positivity) range.least
  have high := Real.log_le_log positive range.greatest
  rw [Real.log_zpow] at low high
  rw [abs_le]
  push_cast at low high
  constructor <;> linarith

/-- The tick of a double with token decimals is far below the 32-bit range. -/
theorem tickOf_small (range : InDoubleRange price)
    (decimals : baseDecimals ≤ 255 ∧ quoteDecimals ≤ 255) :
    |tickOf baseDecimals quoteDecimals baseIsToken0 price| ≤ 2 ^ 30 := by
  have positive : 0 < price := lt_of_lt_of_le (by positivity) range.least
  have ten_nonneg : 0 ≤ Real.log 10 := Real.log_nonneg (by norm_num)
  have ten : Real.log 10 ≤ 9 := (Real.log_le_sub_one_of_pos (by norm_num)).trans (by norm_num)
  have base : (1 : ℝ) / 10001 ≤ Real.log 1.0001 :=
    le_trans (by norm_num) (Real.one_sub_inv_le_log_of_pos (by norm_num : (0 : ℝ) < 1.0001))
  have shift : |(((quoteDecimals : Int) - baseDecimals : Int) : ℝ)| ≤ 255 := by
    rw [abs_le]
    have low : -255 ≤ (quoteDecimals : Int) - baseDecimals := by omega
    have high : (quoteDecimals : Int) - baseDecimals ≤ 255 := by omega
    exact ⟨by exact_mod_cast low, by exact_mod_cast high⟩
  have raw : |Real.log (price * 10 ^ ((quoteDecimals : Int) - baseDecimals))| ≤ 3370 := by
    rw [Real.log_mul positive.ne' (by positivity), Real.log_zpow]
    calc |Real.log price + ((quoteDecimals : Int) - baseDecimals : Int) * Real.log 10|
        ≤ |Real.log price| + |(((quoteDecimals : Int) - baseDecimals : Int) : ℝ)| * Real.log 10 := by
          refine (abs_add_le _ _).trans ?_
          rw [abs_mul, abs_of_nonneg ten_nonneg]
      _ ≤ 1075 + 255 * 9 := by
          have bound := range.log_le
          gcongr
      _ = 3370 := by norm_num
  have quotient : |tickOf baseDecimals quoteDecimals baseIsToken0 price| =
      |Real.log (price * 10 ^ ((quoteDecimals : Int) - baseDecimals))| / Real.log 1.0001 := by
    unfold tickOf
    rw [abs_div, show (F64.ln : ℝ → ℝ) = Real.log from rfl, abs_of_pos log_base_pos]
    cases baseIsToken0
    · simp
    · simp
  rw [quotient, div_le_iff₀ log_base_pos]
  calc |Real.log (price * 10 ^ ((quoteDecimals : Int) - baseDecimals))| ≤ 3370 := raw
    _ ≤ 2 ^ 30 * (1 / 10001) := by norm_num
    _ ≤ 2 ^ 30 * Real.log 1.0001 := by gcongr

end Prices

section Ranges

variable {baseDecimals quoteDecimals : Nat} {baseIsToken0 : Bool} {lower upper price : ℝ}
  {spacing lo hi : Int}

/-- The prices at the ends of a tick range, the lower one first. -/
noncomputable def priceEnds (baseDecimals quoteDecimals : Nat) (baseIsToken0 : Bool)
    (lo hi : Int) : ℝ × ℝ :=
  if baseIsToken0 then
    (tickToPrice baseDecimals quoteDecimals true lo,
      tickToPrice baseDecimals quoteDecimals true hi)
  else
    (tickToPrice baseDecimals quoteDecimals false hi,
      tickToPrice baseDecimals quoteDecimals false lo)

theorem priceToTick_eq_ok {tick : ℝ} :
    priceToTick baseDecimals quoteDecimals baseIsToken0 price = .ok tick ↔
      0 < price ∧ tickOf baseDecimals quoteDecimals baseIsToken0 price = tick := by
  unfold priceToTick
  rw [check_bind_eq_ok, ensure_eq_ok, pure_eq_ok]
  exact and_congr_left fun _ => ⟨fun valid => valid.2, fun positive => ⟨rfl, positive⟩⟩

/-- The aligned ticks before they are checked against the bounds of the pool. -/
structure Aligned (baseDecimals quoteDecimals : Nat) (baseIsToken0 : Bool) (lower upper : ℝ)
    (spacing lo hi : Int) : Prop where
  spacing_pos : 0 < spacing
  ordered : lower < upper
  positive : 0 < lower
  lo_eq : lo = ⌊min (tickOf baseDecimals quoteDecimals baseIsToken0 lower)
    (tickOf baseDecimals quoteDecimals baseIsToken0 upper) / spacing⌋ * spacing
  hi_eq : hi = ⌈max (tickOf baseDecimals quoteDecimals baseIsToken0 lower)
    (tickOf baseDecimals quoteDecimals baseIsToken0 upper) / spacing⌉ * spacing

theorem alignedTicks_eq_ok (decimals : baseDecimals ≤ 255 ∧ quoteDecimals ≤ 255)
    (narrow : spacing < 2 ^ 31) (low : InDoubleRange lower) (high : InDoubleRange upper) :
    alignedTicks baseDecimals quoteDecimals baseIsToken0 lower upper spacing = .ok (lo, hi) ↔
      Aligned baseDecimals quoteDecimals baseIsToken0 lower upper spacing lo hi ∧
        lo ≥ -887272 ∧ hi ≤ 887272 ∧ lo < hi := by
  have lowSmall : |tickOf baseDecimals quoteDecimals baseIsToken0 lower| ≤ 2 ^ 30 :=
    tickOf_small low decimals
  have highSmall : |tickOf baseDecimals quoteDecimals baseIsToken0 upper| ≤ 2 ^ 30 :=
    tickOf_small high decimals
  have least := abs_min_le_max_abs_abs.trans (max_le lowSmall highSmall)
  have greatest := abs_max_le_max_abs_abs.trans (max_le lowSmall highSmall)
  unfold alignedTicks
  simp only [bind_eq_ok, ensure_eq_ok, pure_eq_ok, priceToTick_eq_ok, Prod.mk.injEq]
  constructor
  · rintro ⟨-, ⟨positive, ordered⟩, _, ⟨lowerPos, rfl⟩, _, ⟨-, rfl⟩, -, bounds, rfl, rfl⟩
    rw [(floor_fits positive narrow least).1, (ceil_fits positive narrow greatest).1] at bounds ⊢
    exact ⟨⟨positive, ordered, lowerPos, rfl, rfl⟩, bounds⟩
  · rintro ⟨⟨positive, ordered, lowerPos, rfl, rfl⟩, bounds⟩
    refine ⟨(), ⟨positive, ordered⟩, _, ⟨lowerPos, rfl⟩, _, ⟨lowerPos.trans ordered, rfl⟩, (), ?_⟩
    rw [(floor_fits positive narrow least).1, (ceil_fits positive narrow greatest).1]
    exact ⟨bounds, rfl, rfl⟩

/-- The outward range contains the requested one, and one spacing less would not. -/
theorem Aligned.contains
    (aligned : Aligned baseDecimals quoteDecimals baseIsToken0 lower upper spacing lo hi) :
    ((priceEnds baseDecimals quoteDecimals baseIsToken0 lo hi).1 ≤ lower ∧
      upper ≤ (priceEnds baseDecimals quoteDecimals baseIsToken0 lo hi).2) ∧
    lower < (priceEnds baseDecimals quoteDecimals baseIsToken0 (lo + spacing) (hi - spacing)).1 ∧
      (priceEnds baseDecimals quoteDecimals baseIsToken0 (lo + spacing) (hi - spacing)).2 <
        upper := by
  obtain ⟨spacing_pos, ordered, positive, rfl, rfl⟩ := aligned
  have upperPos := positive.trans ordered
  cases baseIsToken0 with
  | true =>
      have order : tickOf baseDecimals quoteDecimals true lower ≤
          tickOf baseDecimals quoteDecimals true upper := (tickOf_lt_token0 positive ordered).le
      rw [min_eq_left order, max_eq_right order]
      obtain ⟨below, next⟩ := floor_multiple
        (x := tickOf baseDecimals quoteDecimals true lower) spacing_pos
      obtain ⟨above, previous⟩ := ceil_multiple
        (x := tickOf baseDecimals quoteDecimals true upper) spacing_pos
      refine ⟨⟨?_, ?_⟩, ?_, ?_⟩
      · exact (tickOf_le_iff_token0 positive).2.mp below
      · exact (tickOf_le_iff_token0 upperPos).1.mp above
      · exact not_le.mp fun le => not_le.mpr next ((tickOf_le_iff_token0 positive).2.mpr le)
      · exact not_le.mp fun le => not_le.mpr previous ((tickOf_le_iff_token0 upperPos).1.mpr le)
  | false =>
      -- The upper price has the lower tick.
      have order : tickOf baseDecimals quoteDecimals false upper ≤
          tickOf baseDecimals quoteDecimals false lower := (tickOf_lt_token1 positive ordered).le
      rw [min_eq_right order, max_eq_left order]
      obtain ⟨below, next⟩ := floor_multiple
        (x := tickOf baseDecimals quoteDecimals false upper) spacing_pos
      obtain ⟨above, previous⟩ := ceil_multiple
        (x := tickOf baseDecimals quoteDecimals false lower) spacing_pos
      refine ⟨⟨?_, ?_⟩, ?_, ?_⟩
      · exact (tickOf_le_iff_token1 positive).1.mp above
      · exact (tickOf_le_iff_token1 upperPos).2.mp below
      · exact not_le.mp fun le => not_le.mpr previous ((tickOf_le_iff_token1 positive).1.mpr le)
      · exact not_le.mp fun le => not_le.mpr next ((tickOf_le_iff_token1 upperPos).2.mpr le)

/-- A tick range whose end prices lie in an interval. -/
theorem priceEnds_mem
    (inside : lower ≤ min (tickToPrice baseDecimals quoteDecimals baseIsToken0 lo)
        (tickToPrice baseDecimals quoteDecimals baseIsToken0 hi) ∧
      max (tickToPrice baseDecimals quoteDecimals baseIsToken0 lo)
        (tickToPrice baseDecimals quoteDecimals baseIsToken0 hi) ≤ upper) :
    lower ≤ (priceEnds baseDecimals quoteDecimals baseIsToken0 lo hi).1 ∧
      (priceEnds baseDecimals quoteDecimals baseIsToken0 lo hi).2 ≤ upper := by
  obtain ⟨above, below⟩ := inside
  obtain ⟨lo_above, hi_above⟩ := le_min_iff.mp above
  obtain ⟨lo_below, hi_below⟩ := max_le_iff.mp below
  cases baseIsToken0 with
  | true => exact ⟨lo_above, hi_below⟩
  | false => exact ⟨hi_above, lo_below⟩

/-- The ends of a bounded range are doubles where its price is one. -/
theorem InDoubleRange.scaled {factor : ℝ} (low : 2 ^ (-1074 : ℤ) ≤ price)
    (high : price ≤ 2 ^ (1024 : ℤ)) (least : 1 / 2 ≤ factor) (greatest : factor ≤ 2) :
    InDoubleRange (price * factor) := by
  have positive : 0 < price := lt_of_lt_of_le (by positivity) low
  constructor
  · calc (2 : ℝ) ^ (-1075 : ℤ) = 2 ^ (-1074 : ℤ) * (1 / 2) := by
          rw [show (-1075 : ℤ) = -1074 + -1 by norm_num, zpow_add₀ two_ne_zero]
          norm_num
      _ ≤ price * factor := by gcongr
  · calc price * factor ≤ 2 ^ (1024 : ℤ) * 2 := by gcongr
      _ = 2 ^ (1025 : ℤ) := by
          rw [show (1025 : ℤ) = 1024 + 1 by norm_num, zpow_add₀ two_ne_zero, zpow_one]

/-- The ticks of a bounded range, with the checks which they pass. -/
structure Bounded (c : LiquidityConfig ℝ) (price : ℝ) (spacing : Int) (baseIsToken0 : Bool)
    (widths : ℝ × ℝ) (lo hi : Int) : Prop where
  spacing_pos : 0 < spacing
  widths_mem : ∀ w ∈ [widths.1, widths.2], w > 0.001 ∧ w ≤ 0.08
  positive : 0 < price * (1 - widths.1)
  lo_eq : lo = ⌈min
    (tickOf c.baseDecimals c.quoteDecimals baseIsToken0 (price * (1 - widths.1)))
    (tickOf c.baseDecimals c.quoteDecimals baseIsToken0 (price * (1 + widths.2))) / spacing⌉ *
      spacing
  hi_eq : hi = ⌊max
    (tickOf c.baseDecimals c.quoteDecimals baseIsToken0 (price * (1 - widths.1)))
    (tickOf c.baseDecimals c.quoteDecimals baseIsToken0 (price * (1 + widths.2))) / spacing⌋ *
      spacing
  lt : lo < hi
  inside : price * (1 - widths.1) ≤
      min (tickToPrice c.baseDecimals c.quoteDecimals baseIsToken0 lo)
        (tickToPrice c.baseDecimals c.quoteDecimals baseIsToken0 hi) ∧
    max (tickToPrice c.baseDecimals c.quoteDecimals baseIsToken0 lo)
      (tickToPrice c.baseDecimals c.quoteDecimals baseIsToken0 hi) ≤ price * (1 + widths.2)
  around : min (tickToPrice c.baseDecimals c.quoteDecimals baseIsToken0 lo)
      (tickToPrice c.baseDecimals c.quoteDecimals baseIsToken0 hi) < price ∧
    max (tickToPrice c.baseDecimals c.quoteDecimals baseIsToken0 lo)
      (tickToPrice c.baseDecimals c.quoteDecimals baseIsToken0 hi) > price

theorem boundedTicks_eq_ok {c : LiquidityConfig ℝ} {widths : ℝ × ℝ}
    (decimals : c.baseDecimals ≤ 255 ∧ c.quoteDecimals ≤ 255) (narrow : spacing < 2 ^ 31)
    (low : 2 ^ (-1074 : ℤ) ≤ price) (high : price ≤ 2 ^ (1024 : ℤ)) :
    boundedTicks c price spacing baseIsToken0 widths = .ok (lo, hi) ↔
      Bounded c price spacing baseIsToken0 widths lo hi := by
  have small (least : widths.1 > 0.001 ∧ widths.1 ≤ 0.08)
      (greatest : widths.2 > 0.001 ∧ widths.2 ≤ 0.08) :
      |tickOf c.baseDecimals c.quoteDecimals baseIsToken0 (price * (1 - widths.1))| ≤ 2 ^ 30 ∧
        |tickOf c.baseDecimals c.quoteDecimals baseIsToken0 (price * (1 + widths.2))| ≤ 2 ^ 30 :=
    ⟨tickOf_small (InDoubleRange.scaled low high (by linarith [least.2])
        (by linarith [least.1])) decimals,
      tickOf_small (InDoubleRange.scaled low high (by linarith [greatest.1])
        (by linarith [greatest.2])) decimals⟩
  unfold boundedTicks
  simp only [bind_eq_ok, ensure_eq_ok, pure_eq_ok, priceToTick_eq_ok, Prod.mk.injEq]
  constructor
  · rintro ⟨-, ⟨spacing_pos, widths_mem⟩, _, ⟨lowerPos, rfl⟩, _, ⟨-, rfl⟩, -, checks, rfl, rfl⟩
    obtain ⟨lowSmall, highSmall⟩ :=
      small (widths_mem widths.1 (by simp)).2 (widths_mem widths.2 (by simp)).2
    have lo_fits := (ceil_fits spacing_pos narrow
      (abs_min_le_max_abs_abs.trans (max_le lowSmall highSmall))).2
    have hi_fits := (floor_fits spacing_pos narrow
      (abs_max_le_max_abs_abs.trans (max_le lowSmall highSmall))).2
    exact {
      spacing_pos := spacing_pos
      widths_mem := fun w mem => (widths_mem w mem).2
      positive := lowerPos
      lo_eq := lo_fits
      hi_eq := hi_fits
      lt := checks.1
      inside := ⟨checks.2.1, checks.2.2.1⟩
      around := checks.2.2.2 }
  · rintro ⟨spacing_pos, widths_mem, positive, rfl, rfl, lt, inside, around⟩
    obtain ⟨lowSmall, highSmall⟩ :=
      small (widths_mem widths.1 (by simp)) (widths_mem widths.2 (by simp))
    have pricePos : 0 < price := lt_of_lt_of_le (by positivity) low
    have upperPos : 0 < price * (1 + widths.2) :=
      mul_pos pricePos (by linarith [(widths_mem widths.2 (by simp)).1])
    refine ⟨(), ⟨spacing_pos, fun w mem => ⟨rfl, widths_mem w mem⟩⟩, _, ⟨positive, rfl⟩, _,
      ⟨upperPos, rfl⟩, (), ?_⟩
    rw [(ceil_fits spacing_pos narrow
        (abs_min_le_max_abs_abs.trans (max_le lowSmall highSmall))).2,
      (floor_fits spacing_pos narrow
        (abs_max_le_max_abs_abs.trans (max_le lowSmall highSmall))).2]
    exact ⟨⟨lt, inside.1, inside.2, around⟩, rfl, rfl⟩

end Ranges

/-- Aligned ticks are multiples of the spacing whose prices contain the requested interval by
less than one spacing at each end. Bounded ticks are multiples of the spacing whose prices lie
in the requested interval. Prices are in the range of the doubles, decimals in that of a byte and
the spacing in that of an `i32`. -/
theorem tick_ranges :
    (∀ (baseDecimals quoteDecimals : Nat) (baseIsToken0 : Bool) (lower upper : ℝ)
        (spacing lo hi : Int),
      baseDecimals ≤ 255 ∧ quoteDecimals ≤ 255 → spacing < 2 ^ 31 →
      InDoubleRange lower → InDoubleRange upper →
      alignedTicks baseDecimals quoteDecimals baseIsToken0 lower upper spacing = .ok (lo, hi) →
      (spacing ∣ lo ∧ spacing ∣ hi ∧ lo < hi) ∧
      ((priceEnds baseDecimals quoteDecimals baseIsToken0 lo hi).1 ≤ lower ∧
        upper ≤ (priceEnds baseDecimals quoteDecimals baseIsToken0 lo hi).2) ∧
      lower < (priceEnds baseDecimals quoteDecimals baseIsToken0 (lo + spacing)
          (hi - spacing)).1 ∧
        (priceEnds baseDecimals quoteDecimals baseIsToken0 (lo + spacing) (hi - spacing)).2 <
          upper) ∧
    ∀ (c : LiquidityConfig ℝ) (price : ℝ) (spacing : Int) (baseIsToken0 : Bool)
        (widths : ℝ × ℝ) (lo hi : Int),
      c.baseDecimals ≤ 255 ∧ c.quoteDecimals ≤ 255 → spacing < 2 ^ 31 →
      2 ^ (-1074 : ℤ) ≤ price → price ≤ 2 ^ (1024 : ℤ) →
      boundedTicks c price spacing baseIsToken0 widths = .ok (lo, hi) →
      (spacing ∣ lo ∧ spacing ∣ hi ∧ lo < hi) ∧
      price * (1 - widths.1) ≤
          (priceEnds c.baseDecimals c.quoteDecimals baseIsToken0 lo hi).1 ∧
        (priceEnds c.baseDecimals c.quoteDecimals baseIsToken0 lo hi).2 ≤
          price * (1 + widths.2) := by
  constructor
  · intro baseDecimals quoteDecimals baseIsToken0 lower upper spacing lo hi decimals narrow low
      high converted
    obtain ⟨aligned, -, -, less⟩ :=
      (alignedTicks_eq_ok decimals narrow low high).mp converted
    refine ⟨⟨?_, ?_, less⟩, aligned.contains⟩
    · rw [aligned.lo_eq]
      exact dvd_mul_left spacing _
    · rw [aligned.hi_eq]
      exact dvd_mul_left spacing _
  · intro c price spacing baseIsToken0 widths lo hi decimals narrow low high converted
    have bounded := (boundedTicks_eq_ok decimals narrow low high).mp converted
    refine ⟨⟨?_, ?_, bounded.lt⟩, priceEnds_mem bounded.inside⟩
    · rw [bounded.lo_eq]
      exact dvd_mul_left spacing _
    · rw [bounded.hi_eq]
      exact dvd_mul_left spacing _

section Around

/-- The doubles reach far beyond the unit. -/
theorem double_ends : (2 : ℝ) ^ (-1075 : ℤ) ≤ 1 ∧ (2 : ℝ) ≤ 2 ^ (1024 : ℤ) := by
  constructor
  · exact zpow_le_one_of_nonpos₀ (by norm_num) (by norm_num)
  · calc (2 : ℝ) = 2 ^ (1 : ℤ) := (zpow_one 2).symm
      _ ≤ 2 ^ (1024 : ℤ) := zpow_le_zpow_right₀ (by norm_num) (by norm_num)

theorem double_of_mem {x : ℝ} (low : 1 ≤ x) (high : x ≤ 2) : InDoubleRange x :=
  ⟨double_ends.1.trans low, (high.trans double_ends.2).trans
    (zpow_le_zpow_right₀ (by norm_num) (by norm_num))⟩

/-- Twenty ticks apart, the range of ninety ticks above price one is widened by ten. -/
theorem aligned_from_one :
    alignedTicks 18 18 true (1 : ℝ) (1.0001 ^ (90 : ℤ)) 20 = .ok (0, 100) := by
  have lowerTick : tickOf 18 18 true (1 : ℝ) = 0 := by
    simp [tickOf, show (F64.ln : ℝ → ℝ) = Real.log from rfl]
  have upperTick : tickOf 18 18 true ((1.0001 : ℝ) ^ (90 : ℤ)) = 90 := by
    simp only [tickOf, sub_self, zpow_zero, mul_one, if_true,
      show (F64.ln : ℝ → ℝ) = Real.log from rfl, Real.log_zpow]
    rw [mul_div_cancel_right₀ _ log_base_pos.ne']
    norm_num
  rw [alignedTicks_eq_ok (by norm_num) (by norm_num) (double_of_mem le_rfl (by norm_num))
    (double_of_mem (by norm_num) (by norm_num))]
  refine ⟨⟨by norm_num, by norm_num, by norm_num, ?_, ?_⟩, by norm_num, by norm_num, by norm_num⟩
  · rw [lowerTick, upperTick]
    norm_num
  · rw [lowerTick, upperTick]
    have rounded : ⌈max (0 : ℝ) 90 / (20 : ℤ)⌉ = 5 := by
      rw [Int.ceil_eq_iff]
      norm_num
    rw [rounded]
    norm_num

/-- A venue with equal decimals. -/
noncomputable def equalDecimals : LiquidityConfig ℝ :=
  { Shipped.robinhood.liquidity with
    quoteDecimals := 18
    maxGasNative := 1 }

/-- Twenty ticks apart, one percent around price one keeps a hundred and eighty ticks. -/
theorem bounded_around_one :
    boundedTicks equalDecimals (1 : ℝ) 20 true (0.01, 0.01) = .ok (-100, 80) := by
  have lower_high : tickOf 18 18 true (0.99 : ℝ) ≤ (-100 : ℤ) :=
    (tickOf_le_iff_token0 (by norm_num)).1.mpr (by norm_num [tickToPrice])
  have lower_low : ((-120 : ℤ) : ℝ) < tickOf 18 18 true (0.99 : ℝ) := by
    rw [← not_le, (tickOf_le_iff_token0 (by norm_num)).1]
    norm_num [tickToPrice]
  have upper_low : ((80 : ℤ) : ℝ) ≤ tickOf 18 18 true (1.01 : ℝ) :=
    (tickOf_le_iff_token0 (by norm_num)).2.mpr (by norm_num [tickToPrice])
  have upper_high : tickOf 18 18 true (1.01 : ℝ) < (100 : ℤ) := by
    rw [← not_le, (tickOf_le_iff_token0 (by norm_num)).2]
    norm_num [tickToPrice]
  push_cast at lower_high lower_low upper_low upper_high
  have order : tickOf 18 18 true (0.99 : ℝ) ≤ tickOf 18 18 true (1.01 : ℝ) := by linarith
  have decimals : equalDecimals.baseDecimals = 18 ∧ equalDecimals.quoteDecimals = 18 := ⟨rfl, rfl⟩
  have lower_price : (1 : ℝ) * (1 - 0.01) = 0.99 := by norm_num
  have upper_price : (1 : ℝ) * (1 + 0.01) = 1.01 := by norm_num
  rw [boundedTicks_eq_ok (by rw [decimals.1, decimals.2]; norm_num) (by norm_num)
    (zpow_le_one_of_nonpos₀ (by norm_num) (by norm_num)) (one_le_two.trans double_ends.2)]
  constructor
  · norm_num
  · norm_num
  · norm_num
  · have rounded : ⌈tickOf 18 18 true (0.99 : ℝ) / (20 : ℤ)⌉ = -5 := by
      rw [Int.ceil_eq_iff]
      push_cast
      constructor <;> linarith
    simp only [decimals.1, decimals.2, lower_price, upper_price, min_eq_left order, rounded]
    norm_num
  · have rounded : ⌊tickOf 18 18 true (1.01 : ℝ) / (20 : ℤ)⌋ = 4 := by
      rw [Int.floor_eq_iff]
      push_cast
      constructor <;> linarith
    simp only [decimals.1, decimals.2, lower_price, upper_price, max_eq_right order, rounded]
    norm_num
  · norm_num
  · simp only [decimals.1, decimals.2]
    norm_num [tickToPrice]
  · simp only [decimals.1, decimals.2]
    norm_num [tickToPrice]

/-- Both conversions succeed on these ranges, which they enclose and fill. -/
theorem tick_ranges_around_one :
    ((priceEnds 18 18 true 0 100).1 ≤ 1 ∧
      (1.0001 : ℝ) ^ (90 : ℤ) ≤ (priceEnds 18 18 true 0 100).2) ∧
    (1 : ℝ) * (1 - 0.01) ≤ (priceEnds 18 18 true (-100) 80).1 ∧
      (priceEnds 18 18 true (-100) 80).2 ≤ (1 : ℝ) * (1 + 0.01) :=
  ⟨(tick_ranges.1 18 18 true 1 (1.0001 ^ (90 : ℤ)) 20 0 100 (by norm_num) (by norm_num)
      (double_of_mem le_rfl (by norm_num)) (double_of_mem (by norm_num) (by norm_num))
      aligned_from_one).2.1,
    (tick_ranges.2 equalDecimals 1 20 true (0.01, 0.01) (-100) 80 (by decide) (by norm_num)
      (zpow_le_one_of_nonpos₀ (by norm_num) (by norm_num)) (one_le_two.trans double_ends.2)
      bounded_around_one).2⟩

end Around

end LpMaker.Math
