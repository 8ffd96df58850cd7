import Mathlib
import LpMaker.Numeric.Decimal
import LpMaker.Numeric.F64
import LpMaker.Semantics.Result

/-!
# Order prices and sizes

Prices and sizes of orders leave the program as decimal text. A price keeps five significant
figures and the places which the asset allows; a size is never rounded up. The limits of the
decimal library show only as failed conversions.
-/

namespace LpMaker.Hyperliquid

structure Asset where
  name : String
  szDecimals : Nat
  maxLeverage : Nat
  isDelisted : Bool

/-- An order as it is sent. -/
structure Wire where
  asset : Nat
  buy : Bool
  price : String
  size : String
  reduce : Bool
  tif : String
  cloid : Option String
deriving DecidableEq

/-- The prices which the exchange accepts: whole numbers, or at most five significant figures
within the places of the asset. -/
def grid (F : Type) [F64 F] (szDecimals : Nat) : Set F :=
  {v | (∃ n : ℤ, v = n) ∨
    (∃ n : ℤ, v * 10 ^ (6 - szDecimals) = n) ∧ ∃ (m : ℤ) (e : ℕ), |m| < 10 ^ 5 ∧ v * 10 ^ e = m}

namespace Orders

/-- Opening dust is deferred, never rounded up into additional exposure. -/
def tradeable (text : Decimal.Text) (price size : String) (reduceOnly : Bool) :
    Except String Bool := do
  let p ← context (text.parse price) "invalid decimal"
  let s ← context (text.parse size) "invalid decimal"
  ensure ((p.value : ℚ) > 0 ∧ (s.value : ℚ) ≥ 0) "invalid hedge amount"
  pure ((s.value : ℚ) > 0 ∧ (reduceOnly = true ∨ (p.value : ℚ) * s.value ≥ 10))

def validatePrice (text : Decimal.Text) (s : String) (szDecimals : Nat) :
    Except String Decimal := do
  let d ← context (text.parse s) "invalid decimal"
  let d := d.normalize
  ensure ((d.value : ℚ) > 0 ∧ szDecimals ≤ 6) "invalid price/asset decimals"
  ensure (d.scale ≤ 6 - szDecimals) "price exceeds tick decimals"
  ensure (d.scale = 0 ∨ d.significant ≤ 5) "price exceeds five significant figures"
  pure d

/-- A client order id: 128 bits in hexadecimal digits. -/
def validCloid (id : String) : Bool :=
  match id.toList with
  | '0' :: 'x' :: digits => digits.length = 32 ∧ digits.all fun ch =>
      ch.isDigit || ('a' ≤ ch && ch ≤ 'f') || ('A' ≤ ch && ch ≤ 'F')
  | _ => false

/-- The times in force of the exchange. -/
def timesInForce : List String := ["Alo", "Ioc", "Gtc"]

def wire (text : Decimal.Text) (id : Nat) (a : Asset) (buy : Bool) (price size tif : String)
    (reduce : Bool) (cloid : Option String) : Except String Wire := do
  let p ← validatePrice text price a.szDecimals
  let s ← context (text.parse size) "invalid decimal"
  let s := s.normalize
  ensure ((s.value : ℚ) > 0 ∧ s.scale ≤ a.szDecimals) "size exceeds lot precision or is zero"
  ensure (tif ∈ timesInForce) "unknown time in force"
  ensure (reduce = true ∨ (p.value : ℚ) * s.value ≥ 10) "order below $10 minimum notional"
  ensure (∀ c ∈ cloid, validCloid c = true) "invalid client order id"
  pure ⟨id, buy, text.format p, text.format s, reduce, tif, cloid⟩

variable {F : Type} [F64 F] [FloorRing F]

def quantity (conversion : F → Option Decimal) (text : Decimal.Text) (x : F) (decimals : Nat) :
    Except String String := do
  ensure (F64.isFinite x = true ∧ x ≥ 0) "invalid quantity"
  let d ← context (conversion x) "quantity overflow"
  pure (text.format (d.round decimals .toZero).normalize)

/-- The places of a price: five significant figures, within those of the asset. -/
def places (x : F) (szDecimals : Nat) : Nat := min (4 - Int.log 10 x).toNat (6 - szDecimals)

def price (conversion : F → Option Decimal) (text : Decimal.Text) (x : F) (szDecimals : Nat)
    (roundUp : Bool) : Except String String := do
  ensure (F64.isFinite x = true ∧ x > 0 ∧ szDecimals ≤ 6) "invalid price"
  let d ← context (conversion x) "price overflow"
  let strategy : Decimal.Strategy := if roundUp then .toPositiveInfinity else .toNegativeInfinity
  let p := (d.round (places x szDecimals) strategy).normalize
  let _ ← validatePrice text (text.format p) szDecimals
  pure (text.format p)

end Orders

end LpMaker.Hyperliquid
