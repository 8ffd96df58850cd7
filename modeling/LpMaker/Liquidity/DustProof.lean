import Mathlib
import LpMaker.Engine.Reset
import LpMaker.Liquidity.SlippageBounds
import LpMaker.Numeric.Decimal

/-!
# Stored evidence of dust

The evidence and the reset proof as they are written, with their numbers as text. An assessed
record passes its own validation, and a valid reset proof describes a flat account whose base
balance is dust by the exact price.
-/

namespace LpMaker

open Rounding Slippage

/-- A text form of the words of 256 bits. What is written is read back. -/
structure WordText where
  parse : String → Option Nat
  format : Nat → String
  parse_format : ∀ n < 2 ^ 256, parse (format n) = some n

/-- What a dust assessment reads of a pool snapshot. -/
structure DustSnapshot where
  sqrtPriceX96 : String
  baseIsToken0 : Bool
  block : Nat
  blockHash : String
  timeMs : Nat

/-- `BaseDust` as it is written. -/
structure StoredDust where
  rawBase : String
  rawQuoteCeiling : String
  baseDecimals : Nat
  quoteDecimals : Nat
  sqrtPriceX96 : String
  baseIsToken0 : Bool
  block : Nat
  blockHash : String
  timeMs : Nat
deriving DecidableEq

/-- `Proof` as it is written. -/
structure StoredProof where
  lpIds : List String
  baseRaw : String
  baseDust : Option StoredDust
  hedgeSize : String
  openOrders : Nat
  pending : Bool
  unresolvedOrders : Nat

variable (words : WordText)

def parseSqrt (raw : String) : Except String Nat :=
  context (words.parse raw) "invalid pool sqrtPriceX96"

namespace StoredDust

def assess (baseDecimals quoteDecimals : Nat) (snapshot : DustSnapshot) (balance : Nat) :
    Except String (Option StoredDust) := do
  let sqrt ← parseSqrt words snapshot.sqrtPriceX96
  let limit ← withinLimit balance baseDecimals sqrt snapshot.baseIsToken0
  pure (limit.map fun ceiling => {
    rawBase := words.format balance
    rawQuoteCeiling := words.format ceiling
    baseDecimals := baseDecimals
    quoteDecimals := quoteDecimals
    sqrtPriceX96 := snapshot.sqrtPriceX96
    baseIsToken0 := snapshot.baseIsToken0
    block := snapshot.block
    blockHash := snapshot.blockHash
    timeMs := snapshot.timeMs })

def validate (dust : StoredDust) (balance : Nat) : Except String Unit := do
  let raw ← context (words.parse dust.rawBase) "invalid number"
  ensure (raw = balance) "dust proof balance changed"
  let sqrt ← parseSqrt words dust.sqrtPriceX96
  let limit ← withinLimit balance dust.baseDecimals sqrt dust.baseIsToken0
  let ceiling ← context limit "base remainder exceeds exit dust limit"
  ensure (words.format ceiling = dust.rawQuoteCeiling) "dust valuation proof mismatch"

end StoredDust

/-- The size of the hedge is only read once there is no liquidity position. -/
def StoredProof.validate (sizes : Decimal.Text) (proof : StoredProof) : Except String Unit := do
  let flat ← if proof.lpIds = [] then do
      let size ← context (sizes.parse proof.hedgeSize) "invalid decimal"
      pure (decide (size.mantissa = 0 ∧ proof.openOrders = 0 ∧ proof.pending = false ∧
        proof.unresolvedOrders = 0))
    else pure false
  ensure (flat = true)
    "仍有 LP/代币/合约/挂单或未决记录，未清空状态、未重启；请查看退出日志后再运行同一命令"
  let base ← context (words.parse proof.baseRaw) "invalid number"
  if base ≠ 0 then do
    let dust ← context proof.baseDust "基础币余额非零且没有本次核对的尾差证据，保留原状态"
    dust.validate words base
  else ensure (proof.baseDust = none) "zero balance has inconsistent dust evidence"

section Value

variable {raw decimals sqrt ceiling : Nat} {baseIsToken0 : Bool}

/-- The exact value of a base balance in raw quote units, at a Q64.96 square root. -/
def quoteValue (raw sqrt : Nat) (baseIsToken0 : Bool) : ℚ :=
  if baseIsToken0 then raw * (sqrt / 2 ^ 96) ^ 2 else raw / (sqrt / 2 ^ 96) ^ 2

/-- The fraction of the exact value. -/
def quoteFraction (raw sqrt : Nat) (baseIsToken0 : Bool) : Nat × Nat :=
  if baseIsToken0 then (raw * (sqrt * sqrt), 2 ^ 192) else (raw * 2 ^ 192, sqrt * sqrt)

theorem quoteValue_eq (positive : 0 < sqrt) : quoteValue raw sqrt baseIsToken0 =
    (quoteFraction raw sqrt baseIsToken0).1 / (quoteFraction raw sqrt baseIsToken0).2 := by
  have sqrt_ne : (sqrt : ℚ) ≠ 0 := by exact_mod_cast positive.ne'
  unfold quoteValue quoteFraction
  cases baseIsToken0 with
  | true =>
      simp only [if_true]
      push_cast
      field_simp
      norm_num
  | false =>
      simp only [Bool.false_eq_true, if_false]
      push_cast
      field_simp
      norm_num

/-- What passes the limit: a balance of at most a hundred-millionth of a unit, with a value
which rounds up to at most the allowed atoms. -/
structure WithinLimit (raw decimals sqrt : Nat) (baseIsToken0 : Bool) (ceiling : Nat) :
    Prop where
  decimals_le : decimals ≤ 36
  positive : 0 < raw
  unit : raw * 100000000 ≤ 10 ^ decimals
  sqrt_low : 4295128739 ≤ sqrt
  sqrt_high : sqrt < 1461446703485210103287273052203988822378723970342
  ceiling_eq : ceiling = divide true (quoteFraction raw sqrt baseIsToken0).1
    (quoteFraction raw sqrt baseIsToken0).2
  ceiling_le : ceiling ≤ quoteAtoms

theorem checkedMul_eq_ok {a b product : Nat} {error : String} :
    checkedMul a b error = .ok product ↔ a * b < 2 ^ 512 ∧ a * b = product := by
  rw [checkedMul, check_bind_eq_ok, ensure_eq_ok, Except.ok.injEq]

theorem divide_up_eq (n d : Nat) : divide true n d = n / d + if n % d = 0 then 0 else 1 := by
  unfold divide
  by_cases exact : n % d = 0
  · rw [if_neg fun both => both.2 exact, if_pos exact]
  · rw [if_pos ⟨rfl, exact⟩, if_neg exact]

theorem withinLimit_eq_some
    (limit : withinLimit raw decimals sqrt baseIsToken0 = .ok (some ceiling)) :
    WithinLimit raw decimals sqrt baseIsToken0 ceiling := by
  obtain ⟨least, greatest⟩ := sqrtAtTick_ends
  unfold withinLimit at limit
  rw [check_bind_eq_ok, ensure_eq_ok] at limit
  obtain ⟨decimals_le, limit⟩ := limit
  by_cases out : raw = 0 ∨ raw > 10 ^ decimals / 100000000
  · rw [if_pos out] at limit
    cases limit
  · rw [if_neg out] at limit
    obtain ⟨raw_ne, small⟩ := not_or.mp out
    have unit : raw * 100000000 ≤ 10 ^ decimals :=
      (Nat.le_div_iff_mul_le (by norm_num)).mp (not_lt.mp small)
    cases baseIsToken0 with
    | true =>
        simp only [least, greatest, if_true, bind_eq_ok, ensure_eq_ok, checkedMul_eq_ok,
          Except.ok.injEq, exists_eq_left'] at limit
        obtain ⟨-, ⟨low, high⟩, _, ⟨-, rfl⟩, _, ⟨-, rfl⟩, -, -, result⟩ := limit
        rw [← divide_up_eq] at result
        split_ifs at result with atoms
        obtain rfl := Option.some.inj result
        exact ⟨decimals_le, Nat.pos_of_ne_zero raw_ne, unit, low, high, rfl, atoms⟩
    | false =>
        simp only [least, greatest, Bool.false_eq_true, if_false, bind_eq_ok, ensure_eq_ok,
          checkedMul_eq_ok, Except.ok.injEq, exists_eq_left'] at limit
        obtain ⟨-, ⟨low, high⟩, _, ⟨-, rfl⟩, _, ⟨-, rfl⟩, -, -, result⟩ := limit
        rw [← divide_up_eq] at result
        split_ifs at result with atoms
        obtain rfl := Option.some.inj result
        exact ⟨decimals_le, Nat.pos_of_ne_zero raw_ne, unit, low, high, rfl, atoms⟩

/-- The rounded value hides nothing: the exact one is within the allowed atoms. -/
theorem WithinLimit.value_le (within : WithinLimit raw decimals sqrt baseIsToken0 ceiling) :
    quoteValue raw sqrt baseIsToken0 ≤ quoteAtoms := by
  have sqrt_pos : 0 < sqrt := lt_of_lt_of_le (by norm_num) within.sqrt_low
  have denominator : 0 < (quoteFraction raw sqrt baseIsToken0).2 := by
    unfold quoteFraction
    split_ifs
    · positivity
    · exact Nat.mul_pos sqrt_pos sqrt_pos
  have reached := within.ceiling_le
  rw [within.ceiling_eq, divide_up_le_iff denominator] at reached
  rw [quoteValue_eq sqrt_pos, div_le_iff₀ (by exact_mod_cast denominator)]
  exact_mod_cast reached

end Value

section Sound

variable {words} {sizes : Decimal.Text} {dust : StoredDust} {proof : StoredProof}
  {baseDecimals quoteDecimals balance : Nat} {snapshot : DustSnapshot}

/-- An assessed record passes its own validation. -/
theorem validate_of_assess (fits : balance < 2 ^ 256)
    (assessed : StoredDust.assess words baseDecimals quoteDecimals snapshot balance =
      .ok (some dust)) : dust.validate words balance = .ok () := by
  unfold StoredDust.assess at assessed
  simp only [bind_eq_ok, pure_eq_ok] at assessed
  obtain ⟨sqrt, parsed, limit, within, recorded⟩ := assessed
  obtain ⟨ceiling, rfl, rfl⟩ := Option.map_eq_some_iff.mp recorded
  unfold StoredDust.validate
  simp only [words.parse_format balance fits, parsed, within, bind_eq_ok, context_eq_ok,
    Option.some.injEq, exists_eq_left', ensure_eq_ok, Except.ok.injEq]
  exact ⟨(), trivial, trivial⟩

/-- The numbers of a record which validates. -/
theorem StoredDust.validate_eq_ok (valid : dust.validate words balance = .ok ()) :
    ∃ sqrt ceiling, words.parse dust.rawBase = some balance ∧
      words.parse dust.sqrtPriceX96 = some sqrt ∧ words.format ceiling = dust.rawQuoteCeiling ∧
      withinLimit balance dust.baseDecimals sqrt dust.baseIsToken0 = .ok (some ceiling) := by
  unfold validate parseSqrt at valid
  simp only [bind_eq_ok, context_eq_ok, ensure_eq_ok] at valid
  obtain ⟨_, raw, -, rfl, sqrt, parsed, _, within, ceiling, rfl, same⟩ := valid
  exact ⟨sqrt, ceiling, raw, parsed, same, within⟩

/-- A valid reset proof, read back as numbers. -/
structure Flat (words : WordText) (sizes : Decimal.Text) (proof : StoredProof) (size : Decimal)
    (base : Nat) : Prop where
  no_lp : proof.lpIds = []
  size_eq : sizes.parse proof.hedgeSize = some size
  no_hedge : size.mantissa = 0
  no_order : proof.openOrders = 0
  no_pending : proof.pending = false
  no_unresolved : proof.unresolvedOrders = 0
  base_eq : words.parse proof.baseRaw = some base
  empty : base = 0 → proof.baseDust = none
  dust : base ≠ 0 → ∃ dust, proof.baseDust = some dust ∧ dust.validate words base = .ok ()

theorem flat_of_valid (valid : proof.validate words sizes = .ok ()) :
    ∃ size base, Flat words sizes proof size base := by
  unfold StoredProof.validate at valid
  by_cases no_lp : proof.lpIds = []
  · simp only [if_pos no_lp, bind_eq_ok, context_eq_ok, pure_eq_ok, ensure_eq_ok] at valid
    obtain ⟨size, parsed, _, rfl, -, flat, base, raw, valid⟩ := valid
    obtain ⟨no_hedge, no_order, no_pending, no_unresolved⟩ := of_decide_eq_true flat
    refine ⟨size, base, no_lp, parsed, no_hedge, no_order, no_pending, no_unresolved, raw, ?_, ?_⟩
    · intro zero
      rw [if_neg (not_not.mpr zero)] at valid
      exact ensure_eq_ok.mp valid
    · intro held
      rw [if_pos held, bind_eq_ok] at valid
      obtain ⟨dust, stored, valid⟩ := valid
      exact ⟨dust, context_eq_ok.mp stored, valid⟩
  · simp only [if_neg no_lp, bind_eq_ok, pure_eq_ok, ensure_eq_ok] at valid
    obtain ⟨_, rfl, -, impossible, -⟩ := valid
    cases impossible

/-- The numbers of a record. -/
def StoredDust.numbers (dust : StoredDust) (raw ceiling sqrt : Nat) : BaseDust where
  rawBase := raw
  rawQuoteCeiling := ceiling
  baseDecimals := dust.baseDecimals
  quoteDecimals := dust.quoteDecimals
  sqrtPriceX96 := sqrt
  baseIsToken0 := dust.baseIsToken0
  block := dust.block
  blockHash := dust.blockHash
  timeMs := dust.timeMs

/-- The numbers of a valid record form valid evidence. -/
theorem StoredDust.numbers_validate {sqrt ceiling : Nat}
    (within : withinLimit balance dust.baseDecimals sqrt dust.baseIsToken0 =
      .ok (some ceiling)) :
    (dust.numbers balance ceiling sqrt).validate balance = .ok () := by
  unfold BaseDust.validate
  simp only [StoredDust.numbers, within, bind_eq_ok, ensure_eq_ok, context_eq_ok,
    Except.ok.injEq, exists_eq_left', Option.some.injEq]
  exact ⟨(), trivial, trivial⟩

/-- The numbers of a valid reset proof form a valid proof. -/
theorem Flat.numbers_validate {size : Decimal} {base : Nat}
    (flat : Flat words sizes proof size base) :
    ∃ numbers : Reset.Proof, numbers.lpIds = proof.lpIds ∧ numbers.baseRaw = base ∧
      numbers.hedgeSize = size.value ∧ numbers.openOrders = proof.openOrders ∧
      numbers.pending = proof.pending ∧ numbers.unresolvedOrders = proof.unresolvedOrders ∧
      numbers.validate = .ok () := by
  have no_hedge : (size.value : ℚ) = 0 := by simp [Decimal.value, flat.no_hedge]
  obtain ⟨evidence, valid⟩ : ∃ evidence : Option BaseDust,
      (if base ≠ 0 then do
          let dust ← context evidence "基础币余额非零且没有本次核对的尾差证据，保留原状态"
          dust.validate base
        else ensure (evidence = none) "zero balance has inconsistent dust evidence" :
          Except String Unit) = .ok () := by
    by_cases held : base ≠ 0
    · obtain ⟨dust, -, valid⟩ := flat.dust held
      obtain ⟨sqrt, ceiling, -, -, -, within⟩ := StoredDust.validate_eq_ok valid
      refine ⟨some (dust.numbers base ceiling sqrt), ?_⟩
      rw [if_pos held]
      exact StoredDust.numbers_validate within
    · refine ⟨none, ?_⟩
      rw [if_neg held]
      rfl
  refine ⟨⟨proof.lpIds, base, evidence, size.value, proof.openOrders, proof.pending,
    proof.unresolvedOrders⟩, rfl, rfl, rfl, rfl, rfl, rfl, ?_⟩
  unfold Reset.Proof.validate
  rw [check_bind_eq_ok, ensure_eq_ok]
  exact ⟨⟨flat.no_lp, no_hedge, flat.no_order, flat.no_pending, flat.no_unresolved⟩, valid⟩

end Sound

/-- A record which an assessment returns validates against the same balance, and a reset proof
which validates describes an account without positions, orders and pending transactions, whose
base balance is at most a hundred-millionth of a unit and is worth at most the allowed quote
atoms at the recorded price. -/
theorem dust_proofs_sound (words : WordText) (sizes : Decimal.Text) :
    (∀ baseDecimals quoteDecimals snapshot balance dust, balance < 2 ^ 256 →
      StoredDust.assess words baseDecimals quoteDecimals snapshot balance = .ok (some dust) →
      dust.validate words balance = .ok ()) ∧
    ∀ proof : StoredProof, proof.validate words sizes = .ok () →
      (proof.lpIds = [] ∧
        (∃ size, sizes.parse proof.hedgeSize = some size ∧ (size.value : ℚ) = 0) ∧
        proof.openOrders = 0 ∧ proof.pending = false ∧ proof.unresolvedOrders = 0) ∧
      ∃ base, words.parse proof.baseRaw = some base ∧
        (base = 0 ∨ ∃ dust sqrt, proof.baseDust = some dust ∧
          words.parse dust.sqrtPriceX96 = some sqrt ∧
          base * 100000000 ≤ 10 ^ dust.baseDecimals ∧
          quoteValue base sqrt dust.baseIsToken0 ≤ quoteAtoms) := by
  constructor
  · intro baseDecimals quoteDecimals snapshot balance dust fits assessed
    exact validate_of_assess fits assessed
  · intro proof valid
    obtain ⟨size, base, flat⟩ := flat_of_valid valid
    refine ⟨⟨flat.no_lp, ⟨size, flat.size_eq, ?_⟩, flat.no_order, flat.no_pending,
      flat.no_unresolved⟩, base, flat.base_eq, ?_⟩
    · simp [Decimal.value, flat.no_hedge]
    · by_cases held : base = 0
      · exact .inl held
      · obtain ⟨dust, stored, valid⟩ := flat.dust held
        obtain ⟨sqrt, ceiling, -, parsed, -, within⟩ := StoredDust.validate_eq_ok valid
        have limit := withinLimit_eq_some within
        exact .inr ⟨dust, sqrt, stored, parsed, limit.unit, limit.value_le⟩

namespace Shipped

/-- Decimal digits as the text of a word. -/
def plainWords : WordText where
  parse text := (Decimal.plain.parse text).map fun d => d.mantissa.natAbs
  format n := Decimal.plain.format ⟨n, 0⟩
  parse_format n _ := by
    rw [Decimal.plain.parse_format ⟨n, 0⟩]
    rfl

/-- The proof of an exit which leaves two raw units of base at price one. -/
def dustLeft : StoredProof where
  lpIds := []
  baseRaw := "2"
  baseDust := some {
    rawBase := "2"
    rawQuoteCeiling := "2"
    baseDecimals := 18
    quoteDecimals := 6
    sqrtPriceX96 := "79228162514264337593543950336"
    baseIsToken0 := true
    block := 1
    blockHash := "0x01"
    timeMs := 1000 }
  hedgeSize := "0.0"
  openOrders := 0
  pending := false
  unresolvedOrders := 0

/-- A pool at price one. -/
def priceOne : DustSnapshot where
  sqrtPriceX96 := "79228162514264337593543950336"
  baseIsToken0 := true
  block := 1
  blockHash := "0x01"
  timeMs := 1000

/-- Two raw units at price one are assessed as this dust, whose proof is valid. -/
theorem dust_left_sound :
    (StoredDust.assess plainWords 18 6 priceOne 2 = .ok dustLeft.baseDust ∧
      ∀ dust ∈ dustLeft.baseDust, dust.validate plainWords 2 = .ok ()) ∧
    ∃ base, plainWords.parse dustLeft.baseRaw = some base ∧
      (base = 0 ∨ ∃ dust sqrt, dustLeft.baseDust = some dust ∧
        plainWords.parse dust.sqrtPriceX96 = some sqrt ∧
        base * 100000000 ≤ 10 ^ dust.baseDecimals ∧
        quoteValue base sqrt dust.baseIsToken0 ≤ quoteAtoms) := by
  have assessed : StoredDust.assess plainWords 18 6 priceOne 2 = .ok dustLeft.baseDust := by
    decide +kernel
  refine ⟨⟨assessed, ?_⟩, ?_⟩
  · rintro dust ⟨⟩
    exact (dust_proofs_sound plainWords Decimal.plain).1 18 6 priceOne 2 _ (by norm_num) assessed
  · exact ((dust_proofs_sound plainWords Decimal.plain).2 dustLeft (by decide +kernel)).2

end Shipped

end LpMaker
