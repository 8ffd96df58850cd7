import Mathlib
import LpMaker.Liquidity.Dust
import LpMaker.Numeric.Rounding

/-!
# Square roots at ticks

The square root of the price rises strictly with the tick. Neighbouring products of the tick
factors differ by more than one part in fifty thousand, which neither their truncation nor the
reciprocal of positive ticks nor the final rounding to 96 bits can undo.
-/

namespace LpMaker.Slippage

open Rounding

variable {n m : Nat} {tick other : Int} {sqrt sqrt' : Nat}

/-- The Q128 ratio of a distance from tick zero, before the reciprocal. -/
def tickRatio (n : Nat) : Nat := truncated (2 ^ 128) tickFactors n (2 ^ 128)

/-- The Q128 square root of the price at a tick. -/
def tickValue (tick : Int) : Nat :=
  if tick > 0 then (2 ^ 256 - 1) / tickRatio tick.natAbs else tickRatio tick.natAbs

theorem sqrtAtTick_eq_ok :
    sqrtAtTick tick = .ok sqrt ↔
      (minTick ≤ tick ∧ tick ≤ maxTick) ∧ divide true (tickValue tick) (2 ^ 32) = sqrt := by
  have ratio : tickFactors.zipIdx.foldl
      (fun ratio factor =>
        if tick.natAbs.testBit factor.2 then ratio * factor.1 / 2 ^ 128 else ratio) (2 ^ 128) =
      tickRatio tick.natAbs := by
    rw [foldl_zipIdx_eq_truncated, Nat.pow_zero, Nat.div_one]
    rfl
  unfold sqrtAtTick tickValue
  simp only [check_bind_eq_ok, ensure_eq_ok, ratio, Except.ok.injEq, divide]
  refine and_congr_right fun _ => ?_
  generalize (if tick > 0 then _ else _) = value
  simp

section Factors

theorem tickFactors_proper : ∀ f ∈ tickFactors, 0 < f ∧ f ≤ 2 ^ 128 := by decide +kernel

theorem tickFactors_rate : rate (2 ^ 128) tickFactors ≤ 1 - 1 / 25000 := by decide +kernel

theorem tickFactors_length : tickFactors.length = 20 := rfl

theorem least_tickRatio : 2 ^ 63 ≤ tickRatio 887272 := by decide +kernel

end Factors

/-- The exact product at a distance. -/
def tickProduct (n : Nat) : ℚ := exact (2 ^ 128) tickFactors n

theorem tickRatio_bounds :
    (tickRatio n : ℚ) ≤ 2 ^ 128 * tickProduct n ∧ 2 ^ 128 * tickProduct n - 20 ≤ tickRatio n := by
  have bounds := truncated_bounds (by norm_num) tickFactors_proper (n := n) (r := 2 ^ 128)
  rw [tickFactors_length] at bounds
  exact_mod_cast bounds

theorem tickProduct_antitone (le : n ≤ m) (bound : m ≤ 887272) : tickProduct m ≤ tickProduct n := by
  refine exact_antitone (by norm_num) tickFactors_proper ?_ le ?_
  · exact tickFactors_rate.trans (by norm_num)
  · rw [tickFactors_length]
    omega

/-- The ratios fall by more than one part in fifty thousand. -/
theorem tickRatio_succ (bound : n + 1 ≤ 887272) :
    50000 * tickRatio (n + 1) ≤ 49999 * tickRatio n := by
  have step : tickProduct (n + 1) ≤ rate (2 ^ 128) tickFactors * tickProduct n := by
    refine exact_succ_le (by norm_num) tickFactors_proper ?_
    rw [tickFactors_length]
    omega
  have positive : 0 < tickProduct n := exact_pos (by norm_num) tickFactors_proper
  have scaled : tickProduct (n + 1) ≤ (1 - 1 / 25000) * tickProduct n :=
    step.trans (mul_le_mul_of_nonneg_right tickFactors_rate positive.le)
  have above : (tickRatio (n + 1) : ℚ) ≤ 2 ^ 128 * tickProduct (n + 1) := tickRatio_bounds.1
  have below : 2 ^ 128 * tickProduct n - 20 ≤ (tickRatio n : ℚ) := tickRatio_bounds.2
  have large : (2 ^ 63 : ℚ) ≤ 2 ^ 128 * tickProduct n := by
    calc (2 ^ 63 : ℚ) ≤ tickRatio 887272 := by exact_mod_cast least_tickRatio
      _ ≤ 2 ^ 128 * tickProduct 887272 := tickRatio_bounds.1
      _ ≤ 2 ^ 128 * tickProduct n := by
          have falls := tickProduct_antitone (n := n) (by omega) le_rfl
          gcongr
  have gap : (50000 : ℚ) * tickRatio (n + 1) ≤ 49999 * tickRatio n := by linarith
  exact_mod_cast gap

theorem tickRatio_le (bound : n ≤ 887272) : 2 ^ 63 ≤ tickRatio n ∧ tickRatio n ≤ 2 ^ 128 := by
  constructor
  · obtain ⟨distance, rest⟩ := Nat.exists_eq_add_of_le bound
    clear bound
    induction distance generalizing n with
    | zero => exact least_tickRatio.trans (by rw [rest, Nat.add_zero])
    | succ distance inductionHypothesis =>
        have next := inductionHypothesis (n := n + 1) (by omega)
        have step := tickRatio_succ (n := n) (by omega)
        omega
  · have above : (tickRatio n : ℚ) ≤ 2 ^ 128 * tickProduct n := tickRatio_bounds.1
    have small : tickProduct n ≤ 1 := exact_le_one (by norm_num) tickFactors_proper
    have bound : (tickRatio n : ℚ) ≤ 2 ^ 128 := by linarith
    exact_mod_cast bound

/-- The reciprocals rise by more than the rounding. -/
theorem reciprocal_succ (bound : n + 1 ≤ 887272) :
    (2 ^ 256 - 1) / tickRatio n + 2 ^ 33 ≤ (2 ^ 256 - 1) / tickRatio (n + 1) := by
  obtain ⟨here_low, here_high⟩ := tickRatio_le (n := n) (by omega)
  obtain ⟨next_low, -⟩ := tickRatio_le bound
  have step := tickRatio_succ bound
  rw [Nat.le_div_iff_mul_le (by omega)]
  have quotient : (2 ^ 256 - 1) / tickRatio n * tickRatio n ≤ 2 ^ 256 - 1 := Nat.div_mul_le_self _ _
  refine Nat.le_of_mul_le_mul_left ?_ (show 0 < 50000 by omega)
  calc 50000 * (((2 ^ 256 - 1) / tickRatio n + 2 ^ 33) * tickRatio (n + 1))
      = ((2 ^ 256 - 1) / tickRatio n + 2 ^ 33) * (50000 * tickRatio (n + 1)) := by ring
    _ ≤ ((2 ^ 256 - 1) / tickRatio n + 2 ^ 33) * (49999 * tickRatio n) :=
        Nat.mul_le_mul_left _ step
    _ = 49999 * ((2 ^ 256 - 1) / tickRatio n * tickRatio n) + 49999 * 2 ^ 33 * tickRatio n := by
        ring
    _ ≤ 49999 * (2 ^ 256 - 1) + 49999 * 2 ^ 33 * 2 ^ 128 := by gcongr
    _ ≤ 50000 * (2 ^ 256 - 1) := by norm_num

/-- Neighbouring ticks stay apart after rounding. -/
theorem tickValue_succ (low : minTick ≤ tick) (high : tick < maxTick) :
    tickValue tick + 2 ^ 32 ≤ tickValue (tick + 1) := by
  unfold minTick at low
  unfold maxTick at high
  unfold tickValue
  rcases lt_trichotomy tick 0 with negative | rfl | positive
  · have distance : tick.natAbs = (tick + 1).natAbs + 1 := by omega
    rw [if_neg (by omega), if_neg (by omega), distance]
    have step := tickRatio_succ (n := (tick + 1).natAbs) (by omega)
    obtain ⟨large, -⟩ := tickRatio_le (n := (tick + 1).natAbs) (by omega)
    omega
  · have step := reciprocal_succ (n := 0) (by omega)
    rw [Nat.zero_add] at step
    have start : tickRatio 0 = 2 ^ 128 := by decide +kernel
    rw [start] at step
    simp only [lt_irrefl, if_false, Int.natAbs_zero, Int.zero_add, Int.natAbs_one, gt_iff_lt,
      zero_lt_one, if_true, start]
    omega
  · have distance : (tick + 1).natAbs = tick.natAbs + 1 := by omega
    rw [if_pos positive, if_pos (by omega), distance]
    have step := reciprocal_succ (n := tick.natAbs) (by omega)
    omega

/-- The square root of the price rises with the tick. -/
theorem sqrtAtTick_lt (less : tick < other) (here : sqrtAtTick tick = .ok sqrt)
    (there : sqrtAtTick other = .ok sqrt') : sqrt < sqrt' := by
  obtain ⟨⟨low, -⟩, rfl⟩ := sqrtAtTick_eq_ok.mp here
  obtain ⟨⟨-, high⟩, rfl⟩ := sqrtAtTick_eq_ok.mp there
  clear here there
  induction other, Int.add_one_le_of_lt less using Int.leInduction with
  | base => exact divide_lt_divide (by norm_num) (tickValue_succ low (by omega))
  | succ middle le inductionHypothesis =>
      calc divide true (tickValue tick) (2 ^ 32)
          < divide true (tickValue middle) (2 ^ 32) := inductionHypothesis (by omega) (by omega)
        _ < divide true (tickValue (middle + 1)) (2 ^ 32) :=
            divide_lt_divide (by norm_num) (tickValue_succ (by omega) (by omega))

/-- The square roots of the ticks lie between those of the outermost ones. -/
theorem sqrtAtTick_mem {min max : Nat} (here : sqrtAtTick tick = .ok sqrt)
    (least : sqrtAtTick minTick = .ok min) (greatest : sqrtAtTick maxTick = .ok max) :
    min ≤ sqrt ∧ sqrt ≤ max := by
  obtain ⟨⟨low, high⟩, -⟩ := sqrtAtTick_eq_ok.mp here
  constructor
  · rcases low.lt_or_eq with less | rfl
    · exact (sqrtAtTick_lt less least here).le
    · cases least.symm.trans here
      exact le_rfl
  · rcases high.lt_or_eq with less | rfl
    · exact (sqrtAtTick_lt less here greatest).le
    · cases here.symm.trans greatest
      exact le_rfl

end LpMaker.Slippage
