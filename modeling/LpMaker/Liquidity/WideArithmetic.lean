import LpMaker.Liquidity.DustProof
import LpMaker.Numeric.Fault

/-!
# The wide arithmetic never overflows

The integer functions again, with every product, sum, difference, quotient and narrowing checked
in the width of the source: 256 bits for amounts and prices, 512 bits for what comes between.
None of the checks ever fails.
-/

namespace LpMaker.Slippage

open Fault Rounding

namespace Guarded

/-- One factor of the tick. -/
def tickStep (n ratio : Nat) (factor : Nat × Nat) : Faulty String Nat :=
  if n.testBit factor.2 then do
    let product ← mul 256 ratio factor.1
    pure (product / 2 ^ 128)
  else pure ratio

/-- The ratio is inverted for a positive tick. -/
def tickValue (tick : Int) (ratio : Nat) : Faulty String Nat :=
  if tick > 0 then div (2 ^ 256 - 1) ratio else pure ratio

def sqrtAtTick (tick : Int) : Faulty String Nat := do
  ensure (minTick ≤ tick ∧ tick ≤ maxTick) (.failed "invalid V3 tick")
  let ratio ← tickFactors.zipIdx.foldlM (tickStep tick.natAbs) (2 ^ 128)
  let ratio ← tickValue tick ratio
  add 256 (ratio / 2 ^ 32) (if ratio % 2 ^ 32 = 0 then 0 else 1)

def narrow (n : Nat) : Faulty String Nat := do
  ensure (n ≤ maxU256) (.failed "V3 amount overflow")
  fit 256 n

def divide (n d : Nat) (roundUp : Bool) : Faulty String Nat := do
  ensure (d > 0) (.failed "invalid V3 denominator")
  let quotient ← div n d
  let rounded ← add 512 quotient (if roundUp ∧ n % d ≠ 0 then 1 else 0)
  narrow rounded

/-- The bound of one side of the price. -/
def bound (square factor : Nat) : Faulty String Nat := do
  let product ← mul 512 square factor
  let quotient ← div product 10000
  narrow quotient.sqrt

def priceBounds (sqrt bps : Nat) : Faulty String (Nat × Nat) := do
  let min ← sqrtAtTick minTick
  let max ← sqrtAtTick maxTick
  ensure (sqrt ≥ min ∧ sqrt < max ∧ bps < 10000) (.failed "invalid V3 price/slippage")
  let square ← mul 512 sqrt sqrt
  let below ← sub 10000 bps
  let lo ← bound square below
  let least ← add 256 min 1
  let above ← add 32 10000 bps
  let hi ← bound square above
  let greatest ← sub max 1
  pure (Nat.max lo least, Nat.min hi greatest)

def liquidity0 (amount0 a b : Nat) : Faulty String Nat := do
  let product ← mul 512 a b
  let intermediate ← div product q96
  let numerator ← mul 512 amount0 intermediate
  let width ← sub b a
  divide numerator width false

def liquidity1 (amount1 a b : Nat) : Faulty String Nat := do
  let numerator ← mul 512 amount1 q96
  let width ← sub b a
  divide numerator width false

def liquidity (range : Range) (sqrt amount0 amount1 : Nat) : Faulty String Nat := do
  let l ←
    if sqrt ≤ range.lower then liquidity0 amount0 range.lower range.upper
    else if sqrt ≥ range.upper then liquidity1 amount1 range.lower range.upper
    else do
      let l0 ← liquidity0 amount0 sqrt range.upper
      let l1 ← liquidity1 amount1 range.lower sqrt
      pure (Nat.min l0 l1)
  ensure (l ≤ maxU128) (.failed "V3 liquidity exceeds uint128")
  pure l

/-- `amounts`. The clamp of the source panics where its bounds are not in order. -/
def amounts (range : Range) (sqrt l : Nat) (roundUp : Bool) : Faulty String (Nat × Nat) := do
  ensure (l ≤ maxU128) (.failed "V3 liquidity exceeds uint128")
  ensure (range.lower ≤ range.upper) .panic
  let p := range.clamp sqrt
  let shifted ← mul 512 l q96
  let above ← sub range.upper p
  let numerator ← mul 512 shifted above
  let denominator ← mul 512 range.upper p
  let a0 ← divide numerator denominator roundUp
  let below ← sub p range.lower
  let numerator ← mul 512 l below
  let a1 ← divide numerator q96 roundUp
  pure (a0, a1)

end Guarded

section Ticks

variable {tick : Int} {n : Nat}

theorem tickFactors_lt : ∀ f ∈ tickFactors, f < 2 ^ 128 := by decide +kernel

/-- The products of the factors stay within 256 bits. -/
theorem tickRatio_agrees :
    tickFactors.zipIdx.foldlM (Guarded.tickStep n) (2 ^ 128) = .ok (tickRatio n) := by
  have exact : tickRatio n = tickFactors.zipIdx.foldl
      (fun ratio factor => if n.testBit factor.2 then ratio * factor.1 / 2 ^ 128 else ratio)
      (2 ^ 128) := by
    rw [foldl_zipIdx_eq_truncated, Nat.pow_zero, Nat.div_one]
    rfl
  rw [exact]
  refine foldlM_agrees (· ≤ 2 ^ 128) (fun ratio small factor mem => ?_) le_rfl
  have proper := tickFactors_lt factor.1 (List.fst_mem_of_mem_zipIdx mem)
  have product : ratio * factor.1 < 2 ^ 256 := by
    calc ratio * factor.1 ≤ 2 ^ 128 * factor.1 := Nat.mul_le_mul_right _ small
      _ < 2 ^ 128 * 2 ^ 128 := Nat.mul_lt_mul_of_pos_left proper (by norm_num)
      _ = 2 ^ 256 := by norm_num
  unfold Guarded.tickStep
  split_ifs
  · refine ⟨by rw [mul_of_lt product, ok_bind]; rfl, ?_⟩
    exact (Nat.div_lt_of_lt_mul (by rwa [← pow_add])).le
  · exact ⟨rfl, small⟩

theorem tickValue_agrees (valid : minTick ≤ tick ∧ tick ≤ maxTick) :
    Guarded.tickValue tick (tickRatio tick.natAbs) = .ok (tickValue tick) ∧
      tickValue tick < 2 ^ 256 := by
  unfold minTick maxTick at valid
  have ratio := tickRatio_le (n := tick.natAbs) (by omega)
  unfold Guarded.tickValue tickValue
  split_ifs
  · refine ⟨div_of_ne (by omega), ?_⟩
    exact (Nat.div_le_self _ _).trans_lt (by norm_num)
  · exact ⟨rfl, ratio.2.trans_lt (by norm_num)⟩

theorem sqrtAtTick_agrees : Guarded.sqrtAtTick tick = returned (sqrtAtTick tick) := by
  by_cases valid : minTick ≤ tick ∧ tick ≤ maxTick
  · obtain ⟨value, small⟩ := tickValue_agrees valid
    have exact : sqrtAtTick tick = .ok (divide true (tickValue tick) (2 ^ 32)) :=
      sqrtAtTick_eq_ok.mpr ⟨valid, rfl⟩
    have accepted : ensure (minTick ≤ tick ∧ tick ≤ maxTick) (Stop.failed "invalid V3 tick") =
        .ok () := ensure_eq_ok.mpr valid
    unfold Guarded.sqrtAtTick
    rw [accepted, ok_bind, tickRatio_agrees, ok_bind, value, ok_bind, exact, divide_up_eq]
    apply add_of_lt
    split_ifs <;> omega
  · unfold Guarded.sqrtAtTick sqrtAtTick ensure
    rw [if_neg valid, if_neg valid]
    rfl

end Ticks

section Division

/-- The bound of the wide words, in factors which evaluate. -/
theorem wide : (2 ^ 512 : Nat) = 2 ^ 256 * 2 ^ 256 := by rw [← pow_add]

variable {n d a b : Nat} {roundUp : Bool}

theorem narrow_agrees : Guarded.narrow n = returned (narrow n) := by
  unfold Guarded.narrow narrow
  refine bind_agrees ensure_agrees fun _ fits => ?_
  rw [ensure_eq_ok] at fits
  exact fit_of_lt (Nat.lt_of_le_pred (by norm_num) fits)

/-- A quotient stays within 512 bits when the dividend does. -/
theorem divide_agrees (small : n + 1 < 2 ^ 512) :
    Guarded.divide n d roundUp = returned (checkedDivide n d roundUp) := by
  unfold Guarded.divide checkedDivide
  refine bind_agrees ensure_agrees fun _ positive => ?_
  rw [ensure_eq_ok] at positive
  have quotient : n / d ≤ n := Nat.div_le_self _ _
  have rounded : n / d + (if roundUp = true ∧ n % d ≠ 0 then 1 else 0) < 2 ^ 512 := by
    split_ifs <;> omega
  rw [div_of_ne positive.ne', ok_bind, add_of_lt rounded, ok_bind]
  exact narrow_agrees

theorem priceBounds_agrees {sqrt bps : Nat} :
    Guarded.priceBounds sqrt bps = returned (priceBounds sqrt bps) := by
  unfold Guarded.priceBounds priceBounds
  refine bind_agrees sqrtAtTick_agrees fun min least => ?_
  refine bind_agrees sqrtAtTick_agrees fun max greatest => ?_
  refine bind_agrees ensure_agrees fun _ inside => ?_
  cases least.symm.trans sqrtAtTick_ends.1
  cases greatest.symm.trans sqrtAtTick_ends.2
  rw [ensure_eq_ok] at inside
  obtain ⟨-, high, slippage⟩ := inside
  have square : sqrt * sqrt ≤ 2 ^ 161 * 2 ^ 161 := Nat.mul_le_mul (by omega) (by omega)
  have bound : ∀ factor ≤ 20000, Guarded.bound (sqrt * sqrt) factor =
      returned (narrow (sqrt * sqrt * factor / 10000).sqrt) := by
    intro factor small
    have product : sqrt * sqrt * factor < 2 ^ 512 := by
      calc sqrt * sqrt * factor ≤ 2 ^ 161 * 2 ^ 161 * 20000 := Nat.mul_le_mul square small
        _ < 2 ^ 512 := by norm_num [wide]
    unfold Guarded.bound
    rw [mul_of_lt product, ok_bind, div_of_ne (by norm_num), ok_bind]
    exact narrow_agrees
  rw [mul_of_lt (square.trans_lt (by norm_num [wide])), ok_bind, sub_of_le slippage.le, ok_bind]
  refine bind_agrees (bound _ (by omega)) fun lo _ => ?_
  rw [add_of_lt (by norm_num), ok_bind, add_of_lt (by omega), ok_bind]
  refine bind_agrees (bound _ (by omega)) fun hi _ => ?_
  rw [sub_of_le (by norm_num), ok_bind]
  rfl

end Division

section Amounts

variable {range : Range} {sqrt amount0 amount1 l a b : Nat} {roundUp : Bool}

theorem liquidity0_agrees (amount : amount0 < 2 ^ 256) (ordered : a ≤ b) (high : b ≤ 2 ^ 161) :
    Guarded.liquidity0 amount0 a b = returned (Range.liquidity0 amount0 a b) := by
  have product : a * b ≤ 2 ^ 161 * 2 ^ 161 := Nat.mul_le_mul (ordered.trans high) high
  have intermediate : a * b / q96 ≤ 2 ^ 226 := by
    calc a * b / q96 ≤ 2 ^ 161 * 2 ^ 161 / q96 := Nat.div_le_div_right product
      _ = 2 ^ 226 := by norm_num [q96]
  have numerator : amount0 * (a * b / q96) + 1 < 2 ^ 512 := by
    calc amount0 * (a * b / q96) + 1 ≤ 2 ^ 256 * 2 ^ 226 + 1 :=
          Nat.succ_le_succ (Nat.mul_le_mul amount.le intermediate)
      _ < 2 ^ 512 := by norm_num [wide]
  unfold Guarded.liquidity0 Range.liquidity0
  rw [mul_of_lt (product.trans_lt (by norm_num [wide])), ok_bind,
    div_of_ne Range.q96_pos.ne', ok_bind, mul_of_lt (Nat.lt_of_succ_lt numerator), ok_bind, sub_of_le ordered, ok_bind]
  exact divide_agrees numerator

theorem liquidity1_agrees (amount : amount1 < 2 ^ 256) (ordered : a ≤ b) :
    Guarded.liquidity1 amount1 a b = returned (Range.liquidity1 amount1 a b) := by
  have numerator : amount1 * q96 + 1 < 2 ^ 512 := by
    calc amount1 * q96 + 1 ≤ 2 ^ 256 * q96 + 1 :=
          Nat.succ_le_succ (Nat.mul_le_mul_right _ amount.le)
      _ < 2 ^ 512 := by norm_num [wide, q96]
  unfold Guarded.liquidity1 Range.liquidity1
  rw [mul_of_lt (Nat.lt_of_succ_lt numerator), ok_bind, sub_of_le ordered, ok_bind]
  exact divide_agrees numerator

theorem upper_le : range.upper ≤ 2 ^ 161 := range.upper_high.trans (by norm_num)

theorem liquidity_agrees (first : amount0 < 2 ^ 256) (second : amount1 < 2 ^ 256) :
    Guarded.liquidity range sqrt amount0 amount1 =
      returned (range.liquidity sqrt amount0 amount1) := by
  have ordered := range.ordered.le
  unfold Guarded.liquidity Range.liquidity
  split_ifs with below above
  · refine bind_agrees (liquidity0_agrees first ordered upper_le) fun l _ => ?_
    exact bind_agrees ensure_agrees fun _ _ => rfl
  · refine bind_agrees (liquidity1_agrees second ordered) fun l _ => ?_
    exact bind_agrees ensure_agrees fun _ _ => rfl
  · refine bind_agrees (liquidity0_agrees first (Nat.le_of_not_le above) upper_le) fun l0 _ => ?_
    refine bind_agrees (liquidity1_agrees second (Nat.le_of_not_le below)) fun l1 _ => ?_
    exact bind_agrees rfl fun l _ => bind_agrees ensure_agrees fun _ _ => rfl

theorem amounts_agrees :
    Guarded.amounts range sqrt l roundUp = returned (range.amounts sqrt l roundUp) := by
  have high : range.upper ≤ 2 ^ 161 := upper_le
  obtain ⟨above, below⟩ := range.clamp_mem (p := sqrt)
  have inOrder : (ensure (range.lower ≤ range.upper) .panic : Faulty String Unit) = .ok () :=
    ensure_eq_ok.mpr range.ordered.le
  unfold Guarded.amounts Range.amounts
  refine bind_agrees ensure_agrees fun _ small => ?_
  rw [ensure_eq_ok] at small
  have shifted : l * q96 ≤ maxU128 * q96 := Nat.mul_le_mul_right _ small
  have numerator0 : l * q96 * (range.upper - range.clamp sqrt) ≤ maxU128 * q96 * 2 ^ 161 :=
    Nat.mul_le_mul shifted ((Nat.sub_le _ _).trans high)
  have denominator : range.upper * range.clamp sqrt ≤ 2 ^ 161 * 2 ^ 161 :=
    Nat.mul_le_mul high (below.trans high)
  have numerator1 : l * (range.clamp sqrt - range.lower) ≤ maxU128 * 2 ^ 161 :=
    Nat.mul_le_mul small ((Nat.sub_le _ _).trans (below.trans high))
  rw [inOrder, ok_bind]
  dsimp only
  rw [mul_of_lt (shifted.trans_lt (by norm_num [wide, maxU128, q96])), ok_bind,
    sub_of_le below, ok_bind,
    mul_of_lt (numerator0.trans_lt (by norm_num [wide, maxU128, q96])), ok_bind,
    mul_of_lt (denominator.trans_lt (by norm_num [wide])), ok_bind]
  refine bind_agrees (divide_agrees ?_) fun a0 _ => ?_
  · exact (Nat.succ_le_succ numerator0).trans_lt (by norm_num [wide, maxU128, q96])
  rw [sub_of_le above, ok_bind,
    mul_of_lt (numerator1.trans_lt (by norm_num [wide, maxU128])), ok_bind]
  refine bind_agrees (divide_agrees ?_) fun a1 _ => rfl
  exact (Nat.succ_le_succ numerator1).trans_lt (by norm_num [wide, maxU128])

end Amounts

section Errors

variable {ε α β : Type} {errors : List ε}

theorem FailsWith.after {first : Except ε α} {rest : α → Except ε β}
    (firstFails : FailsWith errors first)
    (restFails : ∀ value, first = .ok value → FailsWith errors (rest value)) :
    FailsWith errors (first >>= rest) := by
  intro error failed
  rcases bind_eq_error.mp failed with failed | ⟨value, given, failed⟩
  · exact firstFails error failed
  · exact restFails value given error failed

theorem FailsWith.passed {condition : Prop} [Decidable condition] {error : ε}
    (holds : condition) : FailsWith errors (LpMaker.ensure condition error) := by
  intro failure failed
  exact absurd holds (ensure_eq_error.mp failed).1

variable {known : List String} {range : Range} {sqrt amount0 amount1 l n d : Nat} {roundUp : Bool}

theorem narrow_fails (overflow : "V3 amount overflow" ∈ known) : FailsWith known (narrow n) := by
  unfold narrow
  exact .bind (.ensure overflow) fun _ => .pure _

/-- A positive divisor leaves the size of the quotient to fail. -/
theorem divide_fails (positive : 0 < d) (overflow : "V3 amount overflow" ∈ known) :
    FailsWith known (checkedDivide n d roundUp) := by
  unfold checkedDivide
  exact .bind (.passed positive) fun _ => narrow_fails overflow

/-- The errors left when no divisor is zero. -/
def sizeErrors : List String := ["V3 amount overflow", "V3 liquidity exceeds uint128"]

theorem liquidity_fails : FailsWith sizeErrors (range.liquidity sqrt amount0 amount1) := by
  have overflow : "V3 amount overflow" ∈ sizeErrors := by decide
  have ordered := Nat.sub_pos_of_lt range.ordered
  unfold Range.liquidity
  split_ifs with below above
  · refine .bind (divide_fails ordered overflow) fun _ => ?_
    exact .bind (.ensure (by decide)) fun _ => .pure _
  · refine .bind (divide_fails ordered overflow) fun _ => ?_
    exact .bind (.ensure (by decide)) fun _ => .pure _
  · refine .bind (divide_fails (by omega) overflow) fun _ => ?_
    refine .bind (divide_fails (by omega) overflow) fun _ => ?_
    refine .bind (.pure _) fun _ => ?_
    exact .bind (.ensure (by decide)) fun _ => .pure _

theorem amounts_fails : FailsWith sizeErrors (range.amounts sqrt l roundUp) := by
  have overflow : "V3 amount overflow" ∈ sizeErrors := by decide
  unfold Range.amounts
  refine .bind (.ensure (by decide)) fun _ => ?_
  refine .bind (divide_fails Range.denominator_pos overflow) fun _ => ?_
  exact .bind (divide_fails Range.q96_pos overflow) fun _ => .pure _

end Errors

section Order

variable {tick other : Int}

/-- Valid ticks in order are the ends of a range in order. -/
theorem new_ordered (low : minTick ≤ tick) (less : tick < other) (high : other ≤ maxTick) :
    ∃ range : Range, Range.new tick other = .ok range ∧ sqrtAtTick tick = .ok range.lower ∧
      sqrtAtTick other = .ok range.upper ∧ range.lower < range.upper := by
  have here : sqrtAtTick tick = .ok (divide true (tickValue tick) (2 ^ 32)) :=
    sqrtAtTick_eq_ok.mpr ⟨⟨low, by omega⟩, rfl⟩
  have there : sqrtAtTick other = .ok (divide true (tickValue other) (2 ^ 32)) :=
    sqrtAtTick_eq_ok.mpr ⟨⟨by omega, high⟩, rfl⟩
  have ordered := sqrtAtTick_lt less here there
  let range : Range := {
    lower := divide true (tickValue tick) (2 ^ 32)
    upper := divide true (tickValue other) (2 ^ 32)
    ordered := ordered
    executable := fun _ _ least greatest =>
      ⟨(sqrtAtTick_mem here least greatest).1, (sqrtAtTick_mem there least greatest).2⟩ }
  exact ⟨range, Range.new_eq_ok.mpr ⟨less, here, there⟩, here, there, ordered⟩

end Order

end LpMaker.Slippage

namespace LpMaker

open Fault Rounding Slippage

/-- The amounts of a mint, reduced in proportion to what the balances hold. -/
def fitBalances (base quote availableBase availableQuote : Nat) : Except String (Nat × Nat) := do
  ensure (base > 0 ∧ quote > 0) "mint requires two positive token amounts"
  let fitted :=
    if base > availableBase then (availableBase, quote * availableBase / base) else (base, quote)
  let fitted :=
    if fitted.2 > availableQuote then (fitted.1 * availableQuote / fitted.2, availableQuote)
    else fitted
  ensure (fitted.1 > 0 ∧ fitted.2 > 0) "insufficient token balances for mint"
  pure fitted

namespace Guarded

/-- `amount * available / whole` through 512 bits. -/
def share (amount available whole : Nat) : Faulty String Nat := do
  let product ← mul 512 amount available
  let quotient ← div product whole
  fit 256 quotient

/-- The first reduction, to the balance of the base token. -/
def fitBase (base quote availableBase : Nat) : Faulty String (Nat × Nat) :=
  if base > availableBase then do
    let quote ← share quote availableBase base
    pure (availableBase, quote)
  else pure (base, quote)

/-- The second reduction, to the balance of the quote token. -/
def fitQuote (base quote availableQuote : Nat) : Faulty String (Nat × Nat) :=
  if quote > availableQuote then do
    let base ← share base availableQuote quote
    pure (base, availableQuote)
  else pure (base, quote)

def fitBalances (base quote availableBase availableQuote : Nat) : Faulty String (Nat × Nat) := do
  ensure (base > 0 ∧ quote > 0) (.failed "mint requires two positive token amounts")
  let fitted ← fitBase base quote availableBase
  let fitted ← fitQuote fitted.1 fitted.2 availableQuote
  ensure (fitted.1 > 0 ∧ fitted.2 > 0) (.failed "insufficient token balances for mint")
  pure fitted

/-- The value of a balance in quote units. -/
def fraction (raw squared : Nat) (baseIsToken0 : Bool) : Faulty String (Nat × Nat) :=
  if baseIsToken0 then do
    let numerator ← returned (checkedMul raw squared "dust amount overflow")
    pure (numerator, 2 ^ 192)
  else do
    let numerator ← returned (checkedMul raw (2 ^ 192) "dust amount overflow")
    pure (numerator, squared)

/-- The value rounded up, if it is small enough. -/
def ceiling (fraction : Nat × Nat) : Faulty String (Option Nat) := do
  ensure (fraction.2 ≠ 0) (.failed "invalid dust price")
  let quotient ← div fraction.1 fraction.2
  let ceiling ← add 512 quotient (if fraction.1 % fraction.2 = 0 then 0 else 1)
  if ceiling ≤ quoteAtoms then do
    let word ← fit 64 ceiling
    pure (some word)
  else pure none

/-- `within_limit`. Its products are checked in the source, too. -/
def withinLimit (raw decimals sqrt : Nat) (baseIsToken0 : Bool) : Faulty String (Option Nat) := do
  ensure (decimals ≤ 36) (.failed "unsupported dust token decimals")
  let power ← fit 256 (10 ^ decimals)
  let baseLimit ← div power 100000000
  if raw = 0 ∨ raw > baseLimit then pure none
  else do
    let min ← Slippage.Guarded.sqrtAtTick minTick
    let max ← Slippage.Guarded.sqrtAtTick maxTick
    ensure (sqrt ≥ min ∧ sqrt < max) (.failed "invalid dust pool price")
    let squared ← returned (checkedMul sqrt sqrt "dust price overflow")
    let fraction ← fraction raw squared baseIsToken0
    ceiling fraction

end Guarded

section Balances

variable {amount available whole base quote availableBase availableQuote : Nat}

theorem share_agrees (first : amount < 2 ^ 256) (second : available < whole)
    (third : whole < 2 ^ 256) :
    Guarded.share amount available whole = .ok (amount * available / whole) ∧
      amount * available / whole ≤ amount := by
  have product : amount * available < 2 ^ 512 := by
    calc amount * available ≤ 2 ^ 256 * available := Nat.mul_le_mul_right _ first.le
      _ < 2 ^ 256 * 2 ^ 256 := Nat.mul_lt_mul_of_pos_left (second.trans third) (by norm_num)
      _ = 2 ^ 512 := wide.symm
  have quotient : amount * available / whole ≤ amount :=
    Nat.div_le_of_le_mul (by rw [Nat.mul_comm whole]; exact Nat.mul_le_mul_left _ second.le)
  unfold Guarded.share
  rw [mul_of_lt product, ok_bind, div_of_ne (by omega), ok_bind, fit_of_lt (by omega)]
  exact ⟨rfl, quotient⟩

theorem fitBase_agrees (first : base < 2 ^ 256) (second : quote < 2 ^ 256) :
    ∃ fitted : Nat × Nat, (if base > availableBase then
        (availableBase, quote * availableBase / base) else (base, quote)) = fitted ∧
      Guarded.fitBase base quote availableBase = .ok fitted ∧
        fitted.1 < 2 ^ 256 ∧ fitted.2 < 2 ^ 256 := by
  unfold Guarded.fitBase
  split_ifs with short
  · obtain ⟨agrees, less⟩ := share_agrees second short first
    rw [agrees, ok_bind]
    exact ⟨_, rfl, rfl, short.trans first, less.trans_lt second⟩
  · exact ⟨_, rfl, rfl, first, second⟩

theorem fitQuote_agrees (first : base < 2 ^ 256) (second : quote < 2 ^ 256) :
    Guarded.fitQuote base quote availableQuote = .ok (if quote > availableQuote then
      (base * availableQuote / quote, availableQuote) else (base, quote)) := by
  unfold Guarded.fitQuote
  split_ifs with short
  · rw [(share_agrees first short second).1, ok_bind]
    rfl
  · rfl

theorem fitBalances_agrees (first : base < 2 ^ 256) (second : quote < 2 ^ 256) :
    Guarded.fitBalances base quote availableBase availableQuote =
      returned (fitBalances base quote availableBase availableQuote) := by
  obtain ⟨fitted, exact, agrees, small, small'⟩ :=
    @fitBase_agrees base quote availableBase first second
  unfold Guarded.fitBalances fitBalances
  refine bind_agrees ensure_agrees fun _ _ => ?_
  dsimp only
  rw [agrees, ok_bind, exact, fitQuote_agrees small small', ok_bind]
  exact bind_agrees ensure_agrees fun _ _ => rfl

end Balances

section Dust

variable {raw decimals sqrt : Nat} {baseIsToken0 : Bool}

/-- The last steps of the valuation, without faults. -/
def ceilingOf (fraction : Nat × Nat) : Except String (Option Nat) := do
  ensure (fraction.2 ≠ 0) "invalid dust price"
  let ceiling := fraction.1 / fraction.2 + if fraction.1 % fraction.2 = 0 then 0 else 1
  .ok (if ceiling ≤ quoteAtoms then some ceiling else none)

theorem succeed_bind {ε α β : Type} {value : α} {rest : α → Except ε β} :
    ((.ok value : Except ε α) >>= rest) = rest value := rfl

theorem ceiling_agrees {fraction : Nat × Nat} (small : fraction.1 + 1 < 2 ^ 512) :
    Guarded.ceiling fraction = returned (ceilingOf fraction) := by
  unfold Guarded.ceiling ceilingOf
  refine bind_agrees ensure_agrees fun _ priced => ?_
  rw [ensure_eq_ok] at priced
  have quotient : fraction.1 / fraction.2 ≤ fraction.1 := Nat.div_le_self _ _
  have rounded : fraction.1 / fraction.2 + (if fraction.1 % fraction.2 = 0 then 0 else 1) <
      2 ^ 512 := by
    split_ifs <;> omega
  rw [div_of_ne priced, ok_bind, add_of_lt rounded, ok_bind]
  dsimp only
  generalize fraction.1 / fraction.2 + (if fraction.1 % fraction.2 = 0 then 0 else 1) = ceiling
  split_ifs with atoms
  · rw [fit_of_lt (atoms.trans_lt (by norm_num [quoteAtoms])), ok_bind]
    rfl
  · rfl

/-- A price inside the range of the pools values every small balance. -/
structure Valued (raw decimals sqrt : Nat) : Prop where
  decimals_le : decimals ≤ 36
  counted : ¬(raw = 0 ∨ raw > 10 ^ decimals / 100000000)
  low : 4295128739 ≤ sqrt
  high : sqrt < 1461446703485210103287273052203988822378723970342

namespace Valued

variable (valued : Valued raw decimals sqrt)

include valued

theorem raw_le : raw ≤ 10 ^ 28 := by
  have power : 10 ^ decimals ≤ 10 ^ 36 := Nat.pow_le_pow_right (by norm_num) valued.decimals_le
  have limit : 10 ^ decimals / 100000000 ≤ 10 ^ 36 / 100000000 := Nat.div_le_div_right power
  have counted := valued.counted
  omega

theorem square_le : sqrt * sqrt ≤ 2 ^ 161 * 2 ^ 161 := by
  have high := valued.high
  exact Nat.mul_le_mul (by omega) (by omega)

theorem square_pos : 0 < sqrt * sqrt := by
  have low := valued.low
  exact Nat.mul_pos (by omega) (by omega)

theorem numerator0_lt : raw * (sqrt * sqrt) + 1 < 2 ^ 512 :=
  (Nat.succ_le_succ (Nat.mul_le_mul valued.raw_le valued.square_le)).trans_lt (by norm_num [wide])

theorem numerator1_lt : raw * 2 ^ 192 + 1 < 2 ^ 512 :=
  (Nat.succ_le_succ (Nat.mul_le_mul_right _ valued.raw_le)).trans_lt (by norm_num [wide])

/-- The checked products never overflow. -/
theorem squared : checkedMul sqrt sqrt "dust price overflow" = .ok (sqrt * sqrt) :=
  checkedMul_eq_ok.mpr ⟨valued.square_le.trans_lt (by norm_num [wide]), rfl⟩

theorem product0 : checkedMul raw (sqrt * sqrt) "dust amount overflow" =
    .ok (raw * (sqrt * sqrt)) :=
  checkedMul_eq_ok.mpr ⟨Nat.lt_of_succ_lt valued.numerator0_lt, rfl⟩

theorem product1 : checkedMul raw (2 ^ 192) "dust amount overflow" = .ok (raw * 2 ^ 192) :=
  checkedMul_eq_ok.mpr ⟨Nat.lt_of_succ_lt valued.numerator1_lt, rfl⟩

end Valued

theorem withinLimit_agrees :
    Guarded.withinLimit raw decimals sqrt baseIsToken0 =
      returned (withinLimit raw decimals sqrt baseIsToken0) := by
  unfold Guarded.withinLimit withinLimit
  refine bind_agrees ensure_agrees fun _ few => ?_
  rw [ensure_eq_ok] at few
  have power : 10 ^ decimals ≤ 10 ^ 36 := Nat.pow_le_pow_right (by norm_num) few
  rw [fit_of_lt (power.trans_lt (by norm_num)), ok_bind, div_of_ne (by norm_num), ok_bind]
  by_cases out : raw = 0 ∨ raw > 10 ^ decimals / 100000000
  · rw [if_pos out, if_pos out]
    rfl
  rw [if_neg out, if_neg out]
  refine bind_agrees Slippage.sqrtAtTick_agrees fun min least => ?_
  refine bind_agrees Slippage.sqrtAtTick_agrees fun max greatest => ?_
  refine bind_agrees ensure_agrees fun _ inside => ?_
  cases least.symm.trans sqrtAtTick_ends.1
  cases greatest.symm.trans sqrtAtTick_ends.2
  rw [ensure_eq_ok] at inside
  have valued : Valued raw decimals sqrt := ⟨few, out, inside.1, inside.2⟩
  refine bind_agrees rfl fun squared product => ?_
  rw [checkedMul_eq_ok] at product
  obtain ⟨-, rfl⟩ := product
  unfold Guarded.fraction
  cases baseIsToken0 with
  | true =>
      have agrees := @ceiling_agrees (raw * (sqrt * sqrt), 2 ^ 192) valued.numerator0_lt
      rw [if_pos rfl, if_pos rfl, valued.product0, returned_ok, ok_bind, pure_bind, agrees]
      simp only [succeed_bind]
      rfl
  | false =>
      have agrees := @ceiling_agrees (raw * 2 ^ 192, sqrt * sqrt) valued.numerator1_lt
      have other : ¬(false = true) := Bool.false_ne_true
      rw [if_neg other, if_neg other, valued.product1, returned_ok, ok_bind, pure_bind, agrees]
      simp only [succeed_bind]
      rfl

/-- A balance is refused for its decimals or its price, never for an overflow. -/
theorem withinLimit_failsWith :
    FailsWith ["unsupported dust token decimals", "invalid dust pool price"]
      (withinLimit raw decimals sqrt baseIsToken0) := by
  obtain ⟨least, greatest⟩ := sqrtAtTick_ends
  unfold withinLimit
  refine .after (.ensure (by decide)) fun _ few => ?_
  rw [ensure_eq_ok] at few
  by_cases out : raw = 0 ∨ raw > 10 ^ decimals / 100000000
  · rw [if_pos out]
    exact .pure none
  rw [if_neg out, least, greatest, succeed_bind, succeed_bind]
  refine .after (.ensure (by decide)) fun _ inside => ?_
  rw [ensure_eq_ok] at inside
  have valued : Valued raw decimals sqrt := ⟨few, out, inside.1, inside.2⟩
  rw [valued.squared, succeed_bind]
  split_ifs
  · rw [valued.product0]
    simp only [succeed_bind]
    exact .bind (.passed (Nat.two_pow_pos 192).ne') fun _ => .pure _
  · dsimp only
    rw [valued.product1]
    simp only [succeed_bind]
    exact .bind (.passed valued.square_pos.ne') fun _ => .pure _

end Dust

/-- None of the functions overflows a word, truncates a number or divides by zero, and a range
has its ends in order. -/
theorem wide_arithmetic_safe :
    (∀ sqrt bps, Safe (Slippage.Guarded.priceBounds sqrt bps) (priceBounds sqrt bps)) ∧
      (∀ (range : Range) (sqrt amount0 amount1 : Nat), amount0 < 2 ^ 256 → amount1 < 2 ^ 256 →
        Safe (Slippage.Guarded.liquidity range sqrt amount0 amount1)
            (range.liquidity sqrt amount0 amount1) ∧
          FailsWith sizeErrors (range.liquidity sqrt amount0 amount1)) ∧
      (∀ (range : Range) (sqrt l : Nat) (roundUp : Bool),
        Safe (Slippage.Guarded.amounts range sqrt l roundUp) (range.amounts sqrt l roundUp) ∧
          FailsWith sizeErrors (range.amounts sqrt l roundUp)) ∧
      (∀ raw decimals sqrt baseIsToken0,
        Safe (Guarded.withinLimit raw decimals sqrt baseIsToken0)
            (withinLimit raw decimals sqrt baseIsToken0) ∧
          FailsWith ["unsupported dust token decimals", "invalid dust pool price"]
            (withinLimit raw decimals sqrt baseIsToken0)) ∧
      (∀ base quote availableBase availableQuote : Nat, base < 2 ^ 256 → quote < 2 ^ 256 →
        Safe (Guarded.fitBalances base quote availableBase availableQuote)
          (fitBalances base quote availableBase availableQuote)) ∧
      (∀ tick, Safe (Slippage.Guarded.sqrtAtTick tick) (sqrtAtTick tick)) ∧
      ∀ tick other, minTick ≤ tick → tick < other → other ≤ maxTick →
        ∃ range : Range, Range.new tick other = .ok range ∧ sqrtAtTick tick = .ok range.lower ∧
          sqrtAtTick other = .ok range.upper ∧ range.lower < range.upper := by
  refine ⟨fun _ _ => .of_agrees priceBounds_agrees, fun _ _ _ _ first second => ?_,
    fun _ _ _ _ => ?_, fun _ _ _ _ => ?_, fun _ _ _ _ first second => ?_,
    fun _ => .of_agrees sqrtAtTick_agrees, fun _ _ => new_ordered⟩
  · exact ⟨.of_agrees (liquidity_agrees first second), liquidity_fails⟩
  · exact ⟨.of_agrees amounts_agrees, amounts_fails⟩
  · exact ⟨.of_agrees withinLimit_agrees, withinLimit_failsWith⟩
  · exact .of_agrees (fitBalances_agrees first second)

theorem wide_arithmetic_safe_around_one :
    Safe (Slippage.Guarded.liquidity aroundOne q96 (10 ^ 18) (10 ^ 18))
        (aroundOne.liquidity q96 (10 ^ 18) (10 ^ 18)) ∧
      ∃ range, Range.new (-200) 200 = .ok range ∧ range.lower < range.upper := by
  have small : 10 ^ 18 < 2 ^ 256 := by norm_num
  refine ⟨(wide_arithmetic_safe.2.1 _ _ _ _ small small).1, ?_⟩
  obtain ⟨range, built, -, -, ordered⟩ :=
    wide_arithmetic_safe.2.2.2.2.2.2 (-200) 200 (by decide) (by decide) (by decide)
  exact ⟨range, built, ordered⟩

end LpMaker
