import LpMaker.Numeric.Literals

/-!
# Rounded division and truncated products

Division of natural numbers with a chosen rounding, compared through cross products, and
products of fixed-point factors that are truncated after every multiplication.
-/

namespace Rounding

section Division

/-- Division rounded down, or up on request. -/
def divide (up : Bool) (n d : Nat) : Nat := n / d + if up ∧ n % d ≠ 0 then 1 else 0

variable {up : Bool} {n m d e k : Nat}

theorem divide_down : divide false n d = n / d := by simp [divide]

/-- A quotient rounded up is the least one whose product reaches the dividend. -/
theorem divide_up_le_iff (positive : 0 < d) : divide true n d ≤ k ↔ n ≤ k * d := by
  have parts := Nat.div_add_mod n d
  have small := Nat.mod_lt n positive
  have product : d * (n / d) = n / d * d := Nat.mul_comm _ _
  by_cases exact : n % d = 0
  · have quotient : divide true n d = n / d := by simp [divide, exact]
    rw [quotient, Nat.div_le_iff_le_mul_add_pred positive]
    constructor
    · intro le
      have bound : n / d ≤ k := (Nat.div_le_iff_le_mul_add_pred positive).mpr le
      calc n = n / d * d := by omega
        _ ≤ k * d := Nat.mul_le_mul_right d bound
    · intro le
      rw [Nat.mul_comm] at le
      omega
  · have quotient : divide true n d = n / d + 1 := by simp [divide, exact]
    rw [quotient, Nat.succ_le_iff, Nat.div_lt_iff_lt_mul positive]
    constructor
    · exact Nat.le_of_lt
    · intro le
      refine Nat.lt_of_le_of_ne le fun same => exact ?_
      rw [same, Nat.mul_mod_left]

/-- A quotient rounded down is the greatest one whose product stays below the dividend. -/
theorem le_divide_down_iff (positive : 0 < d) : k ≤ divide false n d ↔ k * d ≤ n := by
  rw [divide_down, Nat.le_div_iff_mul_le positive]

/-- Quotients compare as their cross products. -/
theorem divide_le_divide (d_positive : 0 < d) (e_positive : 0 < e) (cross : n * e ≤ m * d) :
    divide up n d ≤ divide up m e := by
  cases up with
  | false =>
      rw [le_divide_down_iff e_positive, divide_down]
      refine Nat.le_of_mul_le_mul_right ?_ d_positive
      calc n / d * e * d = n / d * d * e := Nat.mul_right_comm _ _ _
        _ ≤ n * e := Nat.mul_le_mul_right e (Nat.div_mul_le_self n d)
        _ ≤ m * d := cross
  | true =>
      rw [divide_up_le_iff d_positive]
      have reached : m ≤ divide true m e * e := (divide_up_le_iff e_positive).mp le_rfl
      refine Nat.le_of_mul_le_mul_right ?_ e_positive
      calc n * e ≤ m * d := cross
        _ ≤ divide true m e * e * d := Nat.mul_le_mul_right d reached
        _ = divide true m e * d * e := Nat.mul_right_comm _ _ _

theorem divide_le_divide_right (positive : 0 < d) (le : n ≤ m) : divide up n d ≤ divide up m d :=
  divide_le_divide positive positive (Nat.mul_le_mul_right d le)

@[simp] theorem zero_divide : divide up 0 d = 0 := by simp [divide]

/-- Rounding up keeps values apart which differ by a whole divisor. -/
theorem divide_lt_divide (positive : 0 < d) (apart : n + d ≤ m) :
    divide up n d < divide up m d := by
  have shifted : divide up (n + d) d = divide up n d + 1 := by
    simp [divide, Nat.add_div_right n positive, Nat.add_right_comm]
  calc divide up n d < divide up (n + d) d := by omega
    _ ≤ divide up m d := divide_le_divide_right positive apart

end Division

section Products

/-- Multiply by the factors of the set bits of `n`, truncating after each of them. -/
def truncated (one : Nat) : List Nat → Nat → Nat → Nat
  | [], _, r => r
  | f :: fs, n, r => truncated one fs (n / 2) (if n % 2 = 1 then r * f / one else r)

/-- The exact product of the factors of the set bits. -/
def exact (one : Nat) : List Nat → Nat → ℚ
  | [], _ => 1
  | f :: fs, n => (if n % 2 = 1 then (f / one : ℚ) else 1) * exact one fs (n / 2)

/-- The largest ratio between the products of a number and of its predecessor. -/
def rate (one : Nat) : List Nat → ℚ
  | [] => 0
  | f :: fs => max (f / one) (rate one fs / (f / one))

variable {one : Nat} {factors : List Nat} {n m r k : Nat}

/-- The bits can be read from the number itself. -/
theorem foldl_zipIdx_eq_truncated :
    (factors.zipIdx k).foldl
      (fun r factor => if n.testBit factor.2 then r * factor.1 / one else r) r =
      truncated one factors (n / 2 ^ k) r := by
  induction factors generalizing k r with
  | nil => rfl
  | cons f factors inductionHypothesis =>
      have next : n / 2 ^ k / 2 = n / 2 ^ (k + 1) := by rw [Nat.div_div_eq_div_mul, Nat.pow_succ]
      rw [List.zipIdx_cons, List.foldl_cons, inductionHypothesis, truncated, next]
      simp only [Nat.testBit_eq_decide_div_mod_eq, decide_eq_true_eq]

section Bounds

variable (positive : 0 < one) (proper : ∀ f ∈ factors, 0 < f ∧ f ≤ one)

include positive proper

theorem exact_pos : 0 < exact one factors n := by
  induction factors generalizing n with
  | nil => exact zero_lt_one
  | cons f factors inductionHypothesis =>
      obtain ⟨here, later⟩ := List.forall_mem_cons.mp proper
      have rest := inductionHypothesis (n := n / 2) later
      have f_positive : (0 : ℚ) < f := by exact_mod_cast here.1
      have one_positive : (0 : ℚ) < one := by exact_mod_cast positive
      unfold exact
      split_ifs <;> positivity

theorem exact_le_one : exact one factors n ≤ 1 := by
  induction factors generalizing n with
  | nil => exact le_rfl
  | cons f factors inductionHypothesis =>
      obtain ⟨here, later⟩ := List.forall_mem_cons.mp proper
      have rest := inductionHypothesis (n := n / 2) later
      have rest_positive := exact_pos positive later (n := n / 2)
      have one_positive : (0 : ℚ) < one := by exact_mod_cast positive
      have factor : (f / one : ℚ) ≤ 1 := by
        rw [div_le_one one_positive]
        exact_mod_cast here.2
      unfold exact
      split_ifs
      · exact mul_le_one₀ factor rest_positive.le rest
      · rwa [one_mul]

/-- Truncation only lowers a product, by at most one for every factor. -/
theorem truncated_bounds :
    (truncated one factors n r : ℚ) ≤ r * exact one factors n ∧
      (r : ℚ) * exact one factors n - factors.length ≤ truncated one factors n r := by
  induction factors generalizing n r with
  | nil => simp [truncated, exact]
  | cons f factors inductionHypothesis =>
      obtain ⟨here, later⟩ := List.forall_mem_cons.mp proper
      have one_positive : (0 : ℚ) < one := by exact_mod_cast positive
      have rest_positive := exact_pos positive later (n := n / 2)
      have rest_small := exact_le_one positive later (n := n / 2)
      unfold truncated exact
      rw [List.length_cons]
      split_ifs with set
      · obtain ⟨above, below⟩ := inductionHypothesis (n := n / 2) (r := r * f / one) later
        have floor_le : ((r * f / one : Nat) : ℚ) ≤ r * (f / one) := by
          rw [← mul_div_assoc, le_div_iff₀ one_positive]
          exact_mod_cast Nat.div_mul_le_self (r * f) one
        have lt_floor : (r : ℚ) * (f / one) ≤ (r * f / one : Nat) + 1 := by
          rw [← mul_div_assoc, div_le_iff₀ one_positive]
          exact_mod_cast (Nat.lt_div_mul_add positive).le.trans (by rw [Nat.add_mul, Nat.one_mul])
        constructor
        · calc (truncated one factors (n / 2) (r * f / one) : ℚ)
              ≤ (r * f / one : Nat) * exact one factors (n / 2) := above
            _ ≤ r * (f / one) * exact one factors (n / 2) := by gcongr
            _ = r * (f / one * exact one factors (n / 2)) := mul_assoc _ _ _
        · have scaled := mul_le_mul_of_nonneg_right lt_floor rest_positive.le
          push_cast at below ⊢
          nlinarith
      · obtain ⟨above, below⟩ := inductionHypothesis (n := n / 2) (r := r) later
        push_cast
        constructor
        · rwa [one_mul]
        · rw [one_mul]
          linarith

/-- Counting up by one lowers the exact product at least by the rate. -/
theorem exact_succ_le (bound : n + 1 < 2 ^ factors.length) :
    exact one factors (n + 1) ≤ rate one factors * exact one factors n := by
  induction factors generalizing n with
  | nil => simp at bound
  | cons f factors inductionHypothesis =>
      obtain ⟨here, later⟩ := List.forall_mem_cons.mp proper
      have f_positive : (0 : ℚ) < f := by exact_mod_cast here.1
      have one_positive : (0 : ℚ) < one := by exact_mod_cast positive
      have factor_positive : (0 : ℚ) < f / one := by positivity
      have rest_positive := exact_pos positive later (n := n / 2)
      rw [List.length_cons, Nat.pow_succ] at bound
      unfold exact rate
      rcases Nat.mod_two_eq_zero_or_one n with even | odd
      · have next : (n + 1) % 2 = 1 := by omega
        have half : (n + 1) / 2 = n / 2 := by omega
        rw [if_pos next, if_neg (by omega), half, one_mul]
        gcongr
        exact le_max_left _ _
      · have next : (n + 1) % 2 ≠ 1 := by omega
        have half : (n + 1) / 2 = n / 2 + 1 := by omega
        have carried := inductionHypothesis (n := n / 2) later (by omega)
        rw [if_neg next, if_pos odd, half, one_mul]
        calc exact one factors (n / 2 + 1) ≤ rate one factors * exact one factors (n / 2) := carried
          _ = rate one factors / (f / one) * (f / one * exact one factors (n / 2)) := by
              field_simp
          _ ≤ max (f / one : ℚ) (rate one factors / (f / one)) *
                (f / one * exact one factors (n / 2)) := by
              gcongr
              exact le_max_right _ _

/-- A rate of at most one makes the products fall. -/
theorem exact_antitone (falls : rate one factors ≤ 1) (le : n ≤ m)
    (bound : m < 2 ^ factors.length) : exact one factors m ≤ exact one factors n := by
  induction m, le using Nat.le_induction with
  | base => exact le_rfl
  | succ m le inductionHypothesis =>
      calc exact one factors (m + 1) ≤ rate one factors * exact one factors m :=
            exact_succ_le positive proper bound
        _ ≤ 1 * exact one factors m := by
            have nonneg := (exact_pos positive proper (n := m)).le
            gcongr
        _ = exact one factors m := one_mul _
        _ ≤ exact one factors n := inductionHypothesis (by omega)

end Bounds

end Products

end Rounding
