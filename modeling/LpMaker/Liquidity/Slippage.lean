import Mathlib
import LpMaker.Liquidity.TickMath

/-!
# Slippage of concentrated liquidity

Price bounds, liquidity and minimum amounts of `slippage.rs`, in raw integers. Amounts are
natural numbers: the products stay below 512 bits, and what leaves 256 or 128 bits is an error.
-/

namespace LpMaker.Slippage

open Rounding

def maxU256 : Nat := 2 ^ 256 - 1
def maxU128 : Nat := 2 ^ 128 - 1
def q96 : Nat := 2 ^ 96

def narrow (n : Nat) : Except String Nat := do
  ensure (n ≤ maxU256) "V3 amount overflow"
  pure n

/-- A quotient that must fit in 256 bits. -/
def checkedDivide (n d : Nat) (roundUp : Bool) : Except String Nat := do
  ensure (d > 0) "invalid V3 denominator"
  narrow (divide roundUp n d)

/-- `sqrt (P * (1 ± slippage))`, kept where V3 can execute. -/
def priceBounds (sqrt bps : Nat) : Except String (Nat × Nat) := do
  let min ← sqrtAtTick minTick
  let max ← sqrtAtTick maxTick
  ensure (sqrt ≥ min ∧ sqrt < max ∧ bps < 10000) "invalid V3 price/slippage"
  let at_ := fun factor : Nat => narrow (sqrt * sqrt * factor / 10000).sqrt
  let lo ← at_ (10000 - bps)
  let hi ← at_ (10000 + bps)
  pure (Nat.max lo (min + 1), Nat.min hi (max - 1))

/-- The price may not leave the slippage while approvals are waited for. -/
def checkPriceMove (before after bps : Nat) : Except String Unit := do
  let bounds ← priceBounds before bps
  ensure (after ≥ bounds.1 ∧ after ≤ bounds.2)
    "LP price moved beyond configured slippage during approvals; no LP transaction sent"

/-- The square roots at the two ends of a position. -/
structure Range where
  lower : Nat
  upper : Nat
  ordered : lower < upper
  /-- The ends lie between the square roots of the outermost ticks. -/
  executable : ∀ min max, sqrtAtTick minTick = .ok min → sqrtAtTick maxTick = .ok max →
    min ≤ lower ∧ upper ≤ max

namespace Range

def new (lowerTick upperTick : Int) : Except String Range :=
  if ordered : lowerTick < upperTick then
    match lower_ok : sqrtAtTick lowerTick, upper_ok : sqrtAtTick upperTick with
    | .ok lower, .ok upper => .ok {
        lower := lower
        upper := upper
        ordered := sqrtAtTick_lt ordered lower_ok upper_ok
        executable := fun _ _ least greatest =>
          ⟨(sqrtAtTick_mem lower_ok least greatest).1, (sqrtAtTick_mem upper_ok least greatest).2⟩ }
    | .error error, _ => .error error
    | _, .error error => .error error
  else .error "invalid V3 range"

variable (range : Range)

def contains (sqrt : Nat) : Bool := sqrt > range.lower ∧ sqrt < range.upper

/-- The liquidity of an amount of token 0. The product of the prices is rounded first. -/
def liquidity0 (amount0 a b : Nat) : Except String Nat :=
  checkedDivide (amount0 * (a * b / q96)) (b - a) false

/-- The liquidity of an amount of token 1. -/
def liquidity1 (amount1 a b : Nat) : Except String Nat :=
  checkedDivide (amount1 * q96) (b - a) false

def liquidity (sqrt amount0 amount1 : Nat) : Except String Nat := do
  let l ←
    if sqrt ≤ range.lower then liquidity0 amount0 range.lower range.upper
    else if sqrt ≥ range.upper then liquidity1 amount1 range.lower range.upper
    else do
      let l0 ← liquidity0 amount0 sqrt range.upper
      let l1 ← liquidity1 amount1 range.lower sqrt
      pure (Nat.min l0 l1)
  ensure (l ≤ maxU128) "V3 liquidity exceeds uint128"
  pure l

/-- A price within the range. -/
def clamp (sqrt : Nat) : Nat :=
  if sqrt < range.lower then range.lower else if sqrt > range.upper then range.upper else sqrt

/-- The amounts of a liquidity: a mint rounds up, a burn rounds down. -/
def amounts (sqrt l : Nat) (roundUp : Bool) : Except String (Nat × Nat) := do
  ensure (l ≤ maxU128) "V3 liquidity exceeds uint128"
  let p := range.clamp sqrt
  let a0 ← checkedDivide (l * q96 * (range.upper - p)) (range.upper * p) roundUp
  let a1 ← checkedDivide (l * (p - range.lower)) q96 roundUp
  pure (a0, a1)

/-- Token 0 falls as the price rises and token 1 falls with it: each has its own end. -/
def minimums (sqrt l bps : Nat) (roundUp : Bool) : Except String (Nat × Nat) := do
  let bounds ← priceBounds sqrt bps
  let high ← range.amounts bounds.2 l roundUp
  let low ← range.amounts bounds.1 l roundUp
  pure (high.1, low.2)

def mintMinimums (sqrt amount0 amount1 bps : Nat) : Except String (Nat × Nat) := do
  ensure (range.contains sqrt) "LP entry price is outside planned ticks"
  let l ← range.liquidity sqrt amount0 amount1
  ensure (l > 0) "zero V3 entry liquidity"
  let mins ← range.minimums sqrt l bps true
  ensure (mins.1 > 0 ∨ mins.2 > 0) "LP range too narrow for configured slippage"
  ensure (mins.1 ≤ amount0 ∧ mins.2 ≤ amount1) "invalid LP minimum amounts"
  pure mins

def burnMinimums (sqrt l bps : Nat) : Except String (Nat × Nat) :=
  range.minimums sqrt l bps false

end Range

end LpMaker.Slippage
