import LpMaker.Numeric.Checked
import LpMaker.Numeric.Rounding
import LpMaker.Semantics.Json
import LpMaker.Semantics.Result

/-!
# Transaction fees

The fee estimate and the fees of a replacement. Headroom changes the cap of a transaction and
not the price paid for every unit of gas. Amounts are words of 128 bits with checked
arithmetic, so a fee which does not fit is an error.
-/

namespace LpMaker.Evm

open Rounding

abbrev Wei := BitVec 128

/-- Why an estimate fails: the node answered with an error code, or anything else. -/
inductive FeeError where
  | rpc (code : Int)
  | other (message : String)
deriving DecidableEq

/-- The replies of a node by method, during one estimate. -/
abbrev Replies := String → Except FeeError Json

structure Fees where
  feeBufferBps : BitVec 32
  baseFeePerGas : Option Wei
  maxFeePerGas : Wei
  maxPriorityFeePerGas : Option Wei
deriving DecidableEq

section Quantity

/-- `char::to_digit(16)`. -/
def hexDigit (c : Char) : Option Nat :=
  if '0' ≤ c ∧ c ≤ '9' then some (c.toNat - '0'.toNat)
  else if 'a' ≤ c ∧ c ≤ 'f' then some (c.toNat - 'a'.toNat + 10)
  else if 'A' ≤ c ∧ c ≤ 'F' then some (c.toNat - 'A'.toNat + 10)
  else none

/-- `u128::from_str_radix` in base 16. -/
def fromHex (text : List Char) : Option Wei :=
  let digits := match text with
    | '+' :: digits => digits
    | digits => digits
  if digits = [] then none
  else digits.foldlM (fun value c => do
    let digit ← hexDigit c
    let shifted ← Checked.mul value 16
    Checked.add shifted (BitVec.ofNat 128 digit)) 0

/-- `trim_start_matches("0x")`, which removes the mark as often as it is there. -/
def trimHex : List Char → List Char
  | '0' :: 'x' :: text => trimHex text
  | text => text

def quantity (value : Json) : Except FeeError Wei := do
  let text ← context value.asStr (.other "fee must be hex")
  context (fromHex (trimHex text.toList)) (.other "invalid fee quantity")

end Quantity

/-- Always round up, so that small estimates still receive the configured reserve. -/
def buffered (value : Wei) (extraBps : BitVec 32) : Except FeeError Wei := do
  ensure (1 ≤ extraBps.toNat ∧ extraBps.toNat ≤ 40000) (.other "invalid gas buffer")
  let reserve ← context
    ((Checked.mul value (10000 + extraBps.setWidth 128)).bind fun v => Checked.add v 9999)
    (.other "gas buffer overflow")
  pure (reserve / 10000)

def bump (value : Wei) : Except FeeError Wei :=
  context ((Checked.add value (value / 4)).bind fun v => Checked.add v 1)
    (.other "replacement fee overflow")

namespace Fees

/-- The tip which the node suggests, or else what the gas price leaves above the base fee. -/
def suggestedTip (rpc : Replies) (gasPrice base : Wei) : Except FeeError Wei :=
  match rpc "eth_maxPriorityFeePerGas" with
  | .ok value => quantity value
  | .error (.rpc code) =>
      if code = -32601 ∨ code = -32004 then .ok (Checked.saturatingSub gasPrice base)
      else .error (.rpc code)
  | .error error => .error error

def estimate (rpc : Replies) (feeBufferBps : BitVec 32) : Except FeeError Fees := do
  ensure (1 ≤ feeBufferBps.toNat ∧ feeBufferBps.toNat ≤ 40000) (.other "invalid gas fee buffer")
  let price ← rpc "eth_gasPrice"
  let gasPrice ← quantity price
  let block ← rpc "eth_getBlockByNumber"
  ensure (block matches .obj _) (.other "latest block unavailable for fee estimation")
  match (block.get? "baseFeePerGas").filter fun value => !value.isNull with
  | some value =>
      let base ← quantity value
      let tip ← suggestedTip rpc gasPrice base
      let reserve ← buffered base feeBufferBps
      let cap ← context (Checked.add reserve tip) (.other "fee overflow")
      let least ← buffered gasPrice feeBufferBps
      pure ⟨feeBufferBps, some base, Checked.greater cap least, some tip⟩
  | none =>
      let cap ← buffered gasPrice feeBufferBps
      pure ⟨feeBufferBps, none, cap, none⟩

/-- The fees of a transaction that replaces one with this cap and this tip. The source updates
its own copy, which a caller drops after an error. -/
def replacement (fees : Fees) (oldCap oldTip : Wei) : Except FeeError Fees := do
  let bumped ← bump oldCap
  let cap := Checked.greater fees.maxFeePerGas bumped
  match fees.maxPriorityFeePerGas with
  | none => pure { fees with maxFeePerGas := cap }
  | some tip =>
      let bumpedTip ← bump oldTip
      let tip := Checked.greater tip bumpedTip
      let base ← context fees.baseFeePerGas (.other "missing base fee")
      let reserve ← buffered base fees.feeBufferBps
      let covered ← context (Checked.add reserve tip) (.other "fee overflow")
      pure { fees with
        maxFeePerGas := Checked.greater cap covered
        maxPriorityFeePerGas := some tip }

end Fees

/-- The fee fields of a signed transaction. -/
inductive Envelope where
  | legacy (gasPrice : Wei)
  | eip1559 (maxFeePerGas maxPriorityFeePerGas : Wei)
deriving DecidableEq

namespace Envelope

/-- A legacy transaction shows its gas price as the cap. -/
def maxFeePerGas : Envelope → Wei
  | legacy gasPrice => gasPrice
  | eip1559 maxFeePerGas _ => maxFeePerGas

def maxPriorityFeePerGas : Envelope → Option Wei
  | legacy _ => none
  | eip1559 _ tip => some tip

end Envelope

def signTransaction (fees : Fees) : Envelope :=
  match fees.maxPriorityFeePerGas with
  | some tip => .eip1559 fees.maxFeePerGas tip
  | none => .legacy fees.maxFeePerGas

/-- The signed transaction of which a replacement is made. -/
def latest (original : Envelope) : List Fees → Envelope
  | [] => original
  | fees :: _ => signTransaction fees

/-- The fees of one replacement of an approval. The gas budget is a test of the fees. -/
def retryFees (rpc : Replies) (feeBufferBps : BitVec 32)
    (checkGasBudget : Fees → Except FeeError Unit) (latest : Envelope) :
    Except FeeError Fees := do
  let estimated ← Fees.estimate rpc feeBufferBps
  let fees ← estimated.replacement latest.maxFeePerGas
    (latest.maxPriorityFeePerGas.getD latest.maxFeePerGas)
  checkGasBudget fees
  pure fees

/-- The replacements of a transaction, from the newest. -/
inductive Replacements (original : Envelope) : List Fees → Prop where
  | none : Replacements original []
  | next {older : List Fees} {fees : Fees} (before : Replacements original older)
      (rpc : Replies) (feeBufferBps : BitVec 32) (checkGasBudget : Fees → Except FeeError Unit)
      (replaced : retryFees rpc feeBufferBps checkGasBudget (latest original older) = .ok fees) :
      Replacements original (fees :: older)

section Exact

variable {rpc : Replies} {value result base tip oldCap oldTip : Wei} {bps : BitVec 32}
  {fees fees' : Fees}

/-- A value increased by its buffer, rounded up. -/
def withBuffer (value bps : Nat) : Nat := divide true (value * (10000 + bps)) 10000

theorem withBuffer_eq (value bps : Nat) :
    withBuffer value bps = (value * (10000 + bps) + 9999) / 10000 := by
  unfold withBuffer divide
  generalize value * (10000 + bps) = product
  by_cases exact : product % 10000 = 0
  · rw [if_neg fun both => both.2 exact]
    omega
  · rw [if_pos ⟨rfl, exact⟩]
    omega

theorem factor_toNat (small : bps.toNat ≤ 40000) :
    ((10000 : Wei) + bps.setWidth 128).toNat = 10000 + bps.toNat := by
  have wide : (bps.setWidth 128).toNat = bps.toNat := by
    rw [BitVec.toNat_setWidth, Nat.mod_eq_of_lt (by omega)]
  rw [BitVec.toNat_add, wide, Nat.mod_eq_of_lt (by simp; omega)]
  simp

/-- The buffer is exact, or an error. -/
theorem buffered_eq_ok : buffered value bps = .ok result ↔
    (1 ≤ bps.toNat ∧ bps.toNat ≤ 40000) ∧
      value.toNat * (10000 + bps.toNat) + 9999 < 2 ^ 128 ∧
      result.toNat = withBuffer value.toNat bps.toNat := by
  unfold buffered
  rw [check_bind_eq_ok, ensure_eq_ok]
  refine and_congr_right fun valid => ?_
  simp only [bind_eq_ok, context_eq_ok, pure_eq_ok, Option.bind_eq_some_iff,
    Checked.mul_eq_some, Checked.add_eq_some]
  rw [factor_toNat valid.2, withBuffer_eq]
  constructor
  · rintro ⟨reserve, ⟨product, exact, sum⟩, rfl⟩
    have constant : (9999 : Wei).toNat = 9999 := rfl
    have divisor : (10000 : Wei).toNat = 10000 := rfl
    rw [BitVec.toNat_udiv, ← sum, ← exact, constant, divisor]
    exact ⟨by have := reserve.isLt; omega, rfl⟩
  · rintro ⟨fits, quotient⟩
    refine ⟨BitVec.ofNat 128 (value.toNat * (10000 + bps.toNat) + 9999),
      ⟨BitVec.ofNat 128 (value.toNat * (10000 + bps.toNat)), ?_, ?_⟩, ?_⟩
    · rw [BitVec.toNat_ofNat, Nat.mod_eq_of_lt (by omega)]
    · rw [BitVec.toNat_ofNat, BitVec.toNat_ofNat, Nat.mod_eq_of_lt (by omega),
        Nat.mod_eq_of_lt fits]
      rfl
    · apply BitVec.eq_of_toNat_eq
      rw [quotient, BitVec.toNat_udiv, BitVec.toNat_ofNat, Nat.mod_eq_of_lt fits]
      rfl

/-- A bump is exact, or an error. -/
theorem bump_eq_ok : bump value = .ok result ↔
    value.toNat + value.toNat / 4 + 1 = result.toNat := by
  unfold bump
  simp only [context_eq_ok, Option.bind_eq_some_iff, Checked.add_eq_some, BitVec.toNat_udiv]
  have four : (4 : Wei).toNat = 4 := rfl
  have one : (1 : Wei).toNat = 1 := rfl
  rw [four, one]
  constructor
  · rintro ⟨sum, exact, bumped⟩
    omega
  · intro exact
    refine ⟨BitVec.ofNat 128 (value.toNat + value.toNat / 4), ?_, ?_⟩
    · rw [BitVec.toNat_ofNat, Nat.mod_eq_of_lt (by have := result.isLt; omega)]
    · rw [BitVec.toNat_ofNat, Nat.mod_eq_of_lt (by have := result.isLt; omega), exact]

/-- What an estimate computes, in exact numbers. -/
structure Estimated (rpc : Replies) (bps : BitVec 32) (gasPrice : Wei) (fees : Fees) : Prop where
  buffer : 1 ≤ bps.toNat ∧ bps.toNat ≤ 40000
  buffer_eq : fees.feeBufferBps = bps
  price : (rpc "eth_gasPrice").bind quantity = .ok gasPrice
  dynamic : ∀ tip ∈ fees.maxPriorityFeePerGas, ∃ base ∈ fees.baseFeePerGas,
    Fees.suggestedTip rpc gasPrice base = .ok tip ∧
      fees.maxFeePerGas.toNat = max (withBuffer base.toNat bps.toNat + tip.toNat)
        (withBuffer gasPrice.toNat bps.toNat)
  legacy : fees.maxPriorityFeePerGas = none →
    fees.maxFeePerGas.toNat = withBuffer gasPrice.toNat bps.toNat

theorem estimated_of_ok (estimated : Fees.estimate rpc bps = .ok fees) :
    ∃ gasPrice, Estimated rpc bps gasPrice fees := by
  unfold Fees.estimate at estimated
  rw [check_bind_eq_ok, ensure_eq_ok, bind_eq_ok] at estimated
  obtain ⟨valid, price, asked, estimated⟩ := estimated
  rw [bind_eq_ok] at estimated
  obtain ⟨gasPrice, read, estimated⟩ := estimated
  rw [bind_eq_ok] at estimated
  obtain ⟨block, found, estimated⟩ := estimated
  rw [check_bind_eq_ok] at estimated
  obtain ⟨-, estimated⟩ := estimated
  have bound : (rpc "eth_gasPrice").bind quantity = .ok gasPrice := by
    rw [asked]
    exact read
  refine ⟨gasPrice, ?_⟩
  cases dynamic : (block.get? "baseFeePerGas").filter fun value => !value.isNull with
  | none =>
      simp only [dynamic, bind_eq_ok, pure_eq_ok] at estimated
      obtain ⟨cap, reserved, rfl⟩ := estimated
      exact {
        buffer := valid
        buffer_eq := rfl
        price := bound
        dynamic := by rintro _ ⟨⟩
        legacy := fun _ => (buffered_eq_ok.mp reserved).2.2 }
  | some value =>
      simp only [dynamic, bind_eq_ok, pure_eq_ok, context_eq_ok, Checked.add_eq_some] at estimated
      obtain ⟨base, baseRead, tip, suggested, reserve, reserved, cap, sum, least, floor, rfl⟩ :=
        estimated
      refine {
        buffer := valid
        buffer_eq := rfl
        price := bound
        dynamic := ?_
        legacy := by rintro ⟨⟩ }
      rintro _ ⟨⟩
      refine ⟨base, rfl, suggested, ?_⟩
      rw [Checked.toNat_greater, ← sum, (buffered_eq_ok.mp reserved).2.2,
        (buffered_eq_ok.mp floor).2.2]

/-- What a replacement computes, in exact numbers. -/
structure Replaced (fees : Fees) (oldCap oldTip : Wei) (fees' : Fees) : Prop where
  buffer_eq : fees'.feeBufferBps = fees.feeBufferBps
  base_eq : fees'.baseFeePerGas = fees.baseFeePerGas
  dynamic : ∀ tip ∈ fees.maxPriorityFeePerGas, ∃ base ∈ fees.baseFeePerGas,
    ∃ tip' ∈ fees'.maxPriorityFeePerGas,
      tip'.toNat = max tip.toNat (oldTip.toNat + oldTip.toNat / 4 + 1) ∧
      fees'.maxFeePerGas.toNat =
        max (max fees.maxFeePerGas.toNat (oldCap.toNat + oldCap.toNat / 4 + 1))
          (withBuffer base.toNat fees.feeBufferBps.toNat + tip'.toNat)
  legacy : fees.maxPriorityFeePerGas = none → fees'.maxPriorityFeePerGas = none ∧
    fees'.maxFeePerGas.toNat = max fees.maxFeePerGas.toNat (oldCap.toNat + oldCap.toNat / 4 + 1)

/-- The sums and products of a replacement fit in a word. -/
structure Fits (fees : Fees) (oldCap oldTip : Wei) : Prop where
  cap : oldCap.toNat + oldCap.toNat / 4 + 1 < 2 ^ 128
  dynamic : ∀ tip ∈ fees.maxPriorityFeePerGas, oldTip.toNat + oldTip.toNat / 4 + 1 < 2 ^ 128 ∧
    ∃ base ∈ fees.baseFeePerGas,
      (1 ≤ fees.feeBufferBps.toNat ∧ fees.feeBufferBps.toNat ≤ 40000) ∧
      base.toNat * (10000 + fees.feeBufferBps.toNat) + 9999 < 2 ^ 128 ∧
      withBuffer base.toNat fees.feeBufferBps.toNat +
        max tip.toNat (oldTip.toNat + oldTip.toNat / 4 + 1) < 2 ^ 128

theorem replaced_of_ok (replaced : fees.replacement oldCap oldTip = .ok fees') :
    Fits fees oldCap oldTip ∧ Replaced fees oldCap oldTip fees' := by
  unfold Fees.replacement at replaced
  rw [bind_eq_ok] at replaced
  obtain ⟨bumped, raised, replaced⟩ := replaced
  have cap := bump_eq_ok.mp raised
  cases dynamic : fees.maxPriorityFeePerGas with
  | none =>
      simp only [dynamic, pure_eq_ok] at replaced
      subst replaced
      refine ⟨⟨cap ▸ bumped.isLt, by rw [dynamic]; rintro _ ⟨⟩⟩, rfl, rfl, ?_, ?_⟩
      · rw [dynamic]
        rintro _ ⟨⟩
      · intro _
        exact ⟨rfl, by rw [Checked.toNat_greater, cap]⟩
  | some tip =>
      simp only [dynamic, bind_eq_ok, pure_eq_ok, context_eq_ok, Checked.add_eq_some] at replaced
      obtain ⟨bumpedTip, raisedTip, base, known, reserve, reserved, covered, sum, rfl⟩ := replaced
      obtain ⟨valid, product, exact⟩ := buffered_eq_ok.mp reserved
      have tipBump := bump_eq_ok.mp raisedTip
      rw [Checked.toNat_greater, exact, ← tipBump] at sum
      refine ⟨⟨cap ▸ bumped.isLt, ?_⟩, rfl, rfl, ?_, ?_⟩
      · rw [dynamic]
        rintro _ ⟨⟩
        exact ⟨tipBump ▸ bumpedTip.isLt, base, known, valid, product, sum ▸ covered.isLt⟩
      · rw [dynamic]
        rintro _ ⟨⟩
        refine ⟨base, known, _, rfl, ?_, ?_⟩
        · rw [Checked.toNat_greater, tipBump]
        · rw [Checked.toNat_greater, Checked.toNat_greater, Checked.toNat_greater, cap, ← sum,
            tipBump]
      · intro none
        cases dynamic.symm.trans none

/-- A replacement fails only where a sum or a product does not fit. -/
theorem replacement_of_fits (fits : Fits fees oldCap oldTip) :
    ∃ fees', fees.replacement oldCap oldTip = .ok fees' := by
  have exists_word (n : Nat) (small : n < 2 ^ 128) : ∃ word : Wei, n = word.toNat :=
    ⟨BitVec.ofNat 128 n, by rw [BitVec.toNat_ofNat, Nat.mod_eq_of_lt small]⟩
  obtain ⟨bumped, cap⟩ := exists_word _ fits.cap
  unfold Fees.replacement
  cases dynamic : fees.maxPriorityFeePerGas with
  | none =>
      simp only [bind_eq_ok, pure_eq_ok]
      exact ⟨_, bumped, bump_eq_ok.mpr cap, rfl⟩
  | some tip =>
      obtain ⟨tipFits, base, known, valid, product, sum⟩ := fits.dynamic tip dynamic
      obtain ⟨bumpedTip, tipBump⟩ := exists_word _ tipFits
      obtain ⟨reserve, exact⟩ := exists_word
        (withBuffer base.toNat fees.feeBufferBps.toNat) (by omega)
      obtain ⟨covered, total⟩ := exists_word _ sum
      simp only [bind_eq_ok, pure_eq_ok, context_eq_ok, Checked.add_eq_some]
      refine ⟨_, bumped, bump_eq_ok.mpr cap, bumpedTip, bump_eq_ok.mpr tipBump, base, known,
        reserve, buffered_eq_ok.mpr ⟨valid, product, exact.symm⟩, covered, ?_, rfl⟩
      rw [Checked.toNat_greater, ← exact, ← tipBump, total]

end Exact

end LpMaker.Evm
