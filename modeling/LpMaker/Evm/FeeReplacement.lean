import Mathlib
import LpMaker.Evm.Fees

/-!
# Chains of fee replacements

Every transaction of a chain covers the base fee with its buffer and its tip, and every
replacement raises the cap and the tip by at least ten percent, which holds from a zero fee on.
-/

namespace LpMaker.Evm

variable {rpc : Replies} {bps : BitVec 32} {original : Envelope} {fees : Fees} {chain : List Fees}

/-- The tip is part of the cap, which also covers the base fee with its buffer. -/
structure Covers (fees : Fees) : Prop where
  tip_le : ∀ tip ∈ fees.maxPriorityFeePerGas, tip.toNat ≤ fees.maxFeePerGas.toNat
  covers : ∀ tip ∈ fees.maxPriorityFeePerGas, ∃ base ∈ fees.baseFeePerGas,
    withBuffer base.toNat fees.feeBufferBps.toNat + tip.toNat ≤ fees.maxFeePerGas.toNat

/-- The fees raise the cap of a transaction, and its tip, by ten percent and at least one unit.
The tip of a legacy transaction is its gas price. -/
structure Raises (old : Envelope) (fees : Fees) : Prop where
  cap : 11 * old.maxFeePerGas.toNat ≤ 10 * fees.maxFeePerGas.toNat
  cap_lt : old.maxFeePerGas.toNat < fees.maxFeePerGas.toNat
  tip : ∀ tip ∈ fees.maxPriorityFeePerGas,
    11 * (old.maxPriorityFeePerGas.getD old.maxFeePerGas).toNat ≤ 10 * tip.toNat ∧
      (old.maxPriorityFeePerGas.getD old.maxFeePerGas).toNat < tip.toNat

theorem covers_of_dynamic
    (dynamic : ∀ tip ∈ fees.maxPriorityFeePerGas, ∃ base ∈ fees.baseFeePerGas,
      withBuffer base.toNat fees.feeBufferBps.toNat + tip.toNat ≤ fees.maxFeePerGas.toNat) :
    Covers fees := by
  refine ⟨fun tip mem => ?_, dynamic⟩
  obtain ⟨base, -, covered⟩ := dynamic tip mem
  omega

/-- An estimate covers what it observed. -/
theorem covers_of_estimate (estimated : Fees.estimate rpc bps = .ok fees) : Covers fees := by
  obtain ⟨gasPrice, estimate⟩ := estimated_of_ok estimated
  apply covers_of_dynamic
  intro tip mem
  obtain ⟨base, known, -, cap⟩ := estimate.dynamic tip mem
  refine ⟨base, known, ?_⟩
  rw [estimate.buffer_eq, cap]
  exact le_max_left _ _

/-- A replacement keeps the cap above the base fee and the raised tip. -/
theorem covers_of_replacement {oldCap oldTip : Wei} {fees' : Fees}
    (replaced : fees.replacement oldCap oldTip = .ok fees') : Covers fees' := by
  obtain ⟨-, replaced⟩ := replaced_of_ok replaced
  apply covers_of_dynamic
  intro tip mem
  cases old : fees.maxPriorityFeePerGas with
  | none =>
      rw [(replaced.legacy old).1] at mem
      cases mem
  | some oldTip =>
      obtain ⟨base, known, tip', mem', -, cap⟩ := replaced.dynamic oldTip old
      cases Option.mem_unique mem mem'
      refine ⟨base, ?_, ?_⟩
      · rw [replaced.base_eq]
        exact known
      · rw [replaced.buffer_eq, cap]
        exact le_max_right _ _

/-- The cap of a replacement is at least the bumped old one. -/
theorem Replaced.cap_le {oldCap oldTip : Wei} {fees' : Fees}
    (replaced : Replaced fees oldCap oldTip fees') :
    oldCap.toNat + oldCap.toNat / 4 + 1 ≤ fees'.maxFeePerGas.toNat := by
  cases dynamic : fees.maxPriorityFeePerGas with
  | none => exact (replaced.legacy dynamic).2 ▸ le_max_right _ _
  | some tip =>
      obtain ⟨base, -, tip', -, -, cap⟩ := replaced.dynamic tip dynamic
      exact cap ▸ (le_max_right _ _).trans (le_max_left _ _)

/-- The tip of a replacement is at least the bumped old one. -/
theorem Replaced.tip_le {oldCap oldTip tip : Wei} {fees' : Fees}
    (replaced : Replaced fees oldCap oldTip fees') (mem : tip ∈ fees'.maxPriorityFeePerGas) :
    oldTip.toNat + oldTip.toNat / 4 + 1 ≤ tip.toNat := by
  cases dynamic : fees.maxPriorityFeePerGas with
  | none =>
      rw [(replaced.legacy dynamic).1] at mem
      cases mem
  | some old =>
      obtain ⟨base, -, tip', mem', exact, -⟩ := replaced.dynamic old dynamic
      cases Option.mem_unique mem mem'
      exact exact ▸ le_max_right _ _

/-- One replacement of a transaction. -/
theorem retryFees_sound {budget : Fees → Except FeeError Unit}
    (replaced : retryFees rpc bps budget original = .ok fees) :
    Covers fees ∧ Raises original fees := by
  unfold retryFees at replaced
  simp only [bind_eq_ok, pure_eq_ok] at replaced
  obtain ⟨estimated, -, bumped, replaced, -, -, rfl⟩ := replaced
  obtain ⟨-, exact⟩ := replaced_of_ok replaced
  have cap := exact.cap_le
  refine ⟨covers_of_replacement replaced, by omega, by omega, fun tip mem => ?_⟩
  have tip := exact.tip_le mem
  exact ⟨by omega, by omega⟩

theorem latest_cap (fees : Fees) (older : List Fees) :
    (latest original (fees :: older)).maxFeePerGas = fees.maxFeePerGas := by
  unfold latest signTransaction
  dsimp only
  split <;> rfl

/-- Every transaction of a chain covers its fees. -/
theorem Replacements.covers (replacements : Replacements original chain) :
    ∀ fees ∈ chain, Covers fees := by
  induction replacements with
  | none => exact fun _ mem => absurd mem List.not_mem_nil
  | next before rpc bps budget replaced inductionHypothesis =>
      exact List.forall_mem_cons.mpr ⟨(retryFees_sound replaced).1, inductionHypothesis⟩

/-- Every replacement of a chain raises the transaction before it. -/
theorem Replacements.raises (replacements : Replacements original chain) :
    ∀ newer fees older, chain = newer ++ fees :: older → Raises (latest original older) fees := by
  induction replacements with
  | none => exact fun newer fees older split => absurd split (by simp)
  | next before rpc bps budget replaced inductionHypothesis =>
      intro newer fees older split
      cases newer with
      | nil =>
          cases split
          exact (retryFees_sound replaced).2
      | cons first newer =>
          cases split
          exact inductionHypothesis newer fees older rfl

/-- The cap grows by ten percent with every replacement. -/
theorem Replacements.growth (replacements : Replacements original chain) :
    11 ^ chain.length * original.maxFeePerGas.toNat ≤
      10 ^ chain.length * (latest original chain).maxFeePerGas.toNat := by
  induction replacements with
  | none => exact le_refl _
  | @next older fees before rpc bps budget replaced inductionHypothesis =>
      have raised := (retryFees_sound replaced).2.cap
      rw [latest_cap, List.length_cons]
      calc 11 ^ (older.length + 1) * original.maxFeePerGas.toNat
          = 11 * (11 ^ older.length * original.maxFeePerGas.toNat) := by ring
        _ ≤ 11 * (10 ^ older.length * (latest original older).maxFeePerGas.toNat) :=
            Nat.mul_le_mul_left 11 inductionHypothesis
        _ = 10 ^ older.length * (11 * (latest original older).maxFeePerGas.toNat) := by ring
        _ ≤ 10 ^ older.length * (10 * fees.maxFeePerGas.toNat) :=
            Nat.mul_le_mul_left _ raised
        _ = 10 ^ (older.length + 1) * fees.maxFeePerGas.toNat := by ring

end LpMaker.Evm
