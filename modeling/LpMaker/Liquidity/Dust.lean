import LpMaker.Semantics.Result

/-!
# Base token dust

A manual exit may leave a base balance which is too small to be sold. The evidence repeats
the valuation from raw integers, so an observation can be checked again later.
-/

namespace LpMaker

namespace Slippage

def minTick : Int := -887272
def maxTick : Int := 887272

/-- The Q128 factors of `sqrt_at_tick`, one for each bit of the tick. -/
def tickFactors : List Nat :=
  [0xfffcb933bd6fad37aa2d162d1a594001, 0xfff97272373d413259a46990580e213a,
    0xfff2e50f5f656932ef12357cf3c7fdcc, 0xffe5caca7e10e4e61c3624eaa0941cd0,
    0xffcb9843d60f6159c9db58835c926644, 0xff973b41fa98c081472e6896dfb254c0,
    0xff2ea16466c96a3843ec78b326b52861, 0xfe5dee046a99a2a811c461f1969c3053,
    0xfcbe86c7900a88aedcffc83b479aa3a4, 0xf987a7253ac413176f2b074cf7815e54,
    0xf3392b0822b70005940c7a398e4b70f3, 0xe7159475a2c29b7443b29c7fa6e889d9,
    0xd097f3bdfd2022b8845ad8f792aa5825, 0xa9f746462d870fdf8a65dc1f90e061e5,
    0x70d869a156d2a1b890bb3df62baf32f7, 0x31be135f97d08fd981231505542fcfa6,
    0x9aa508b5b7a84e1c677de54f3e99bc9, 0x5d6af8dedb81196699c329225ee604,
    0x2216e584f5fa1ea926041bedfe98, 0x48a170391f7dc42444e8fa2]

/-- The Q64.96 square root of the price at a tick. -/
def sqrtAtTick (tick : Int) : Except String Nat := do
  ensure (minTick ≤ tick ∧ tick ≤ maxTick) "invalid V3 tick"
  let ratio := tickFactors.zipIdx.foldl
    (fun ratio factor =>
      if tick.natAbs.testBit factor.2 then ratio * factor.1 / 2 ^ 128 else ratio) (2 ^ 128)
  let ratio := if tick > 0 then (2 ^ 256 - 1) / ratio else ratio
  .ok (ratio / 2 ^ 32 + if ratio % 2 ^ 32 = 0 then 0 else 1)

end Slippage

/-- A product which must fit in 512 bits. -/
def checkedMul (a b : Nat) (error : String) : Except String Nat := do
  ensure (a * b < 2 ^ 512) error
  .ok (a * b)

/-- How much of the quote token an exit may leave behind. -/
def quoteAtoms : Nat := 2

/-- The value of a base balance in raw quote units, rounded up, if both are small enough. -/
def withinLimit (raw decimals sqrt : Nat) (baseIsToken0 : Bool) :
    Except String (Option Nat) := do
  ensure (decimals ≤ 36) "unsupported dust token decimals"
  if raw = 0 ∨ raw > 10 ^ decimals / 100000000 then .ok none
  else do
    let min ← Slippage.sqrtAtTick Slippage.minTick
    let max ← Slippage.sqrtAtTick Slippage.maxTick
    ensure (sqrt ≥ min ∧ sqrt < max) "invalid dust pool price"
    let squared ← checkedMul sqrt sqrt "dust price overflow"
    let q192 := 2 ^ 192
    let fraction ← if baseIsToken0 then do
        let numerator ← checkedMul raw squared "dust amount overflow"
        .ok (numerator, q192)
      else do
        let numerator ← checkedMul raw q192 "dust amount overflow"
        .ok (numerator, squared)
    ensure (fraction.2 ≠ 0) "invalid dust price"
    let ceiling := fraction.1 / fraction.2 + if fraction.1 % fraction.2 = 0 then 0 else 1
    .ok (if ceiling ≤ quoteAtoms then some ceiling else none)

/-- Evidence that a base balance is dust. -/
structure BaseDust where
  rawBase : Nat
  rawQuoteCeiling : Nat
  baseDecimals : Nat
  quoteDecimals : Nat
  sqrtPriceX96 : Nat
  baseIsToken0 : Bool
  block : Nat
  blockHash : String
  timeMs : Nat
deriving DecidableEq

/-- The evidence still holds for this balance. -/
def BaseDust.validate (dust : BaseDust) (balance : Nat) : Except String Unit := do
  ensure (dust.rawBase = balance) "dust proof balance changed"
  let limit ← withinLimit balance dust.baseDecimals dust.sqrtPriceX96 dust.baseIsToken0
  let ceiling ← context limit "base remainder exceeds exit dust limit"
  ensure (ceiling = dust.rawQuoteCeiling) "dust valuation proof mismatch"

/-- The range of pool prices which the limits of the square root allow. -/
example : (Slippage.sqrtAtTick Slippage.minTick).toOption = some 4295128739 ∧
    (Slippage.sqrtAtTick Slippage.maxTick).toOption =
      some 1461446703485210103287273052203988822378723970342 := by decide +kernel

end LpMaker
