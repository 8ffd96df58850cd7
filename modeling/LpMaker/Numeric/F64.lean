import LpMaker.Numeric.Literals

/-!
# Double-precision values

The source computes prices, balances and ratios with `f64`. `F64` keeps the
operations the source uses and reads them as exact arithmetic over an ordered
field. `isFinite` stays an arbitrary test, so that every branch guarding against
a non-finite value remains reachable in the model.
-/

namespace LpMaker

/-- The `f64` operations of the source over an ordered field: the field operations
and comparisons, the finiteness test, the square root and the natural logarithm. -/
class F64 (F : Type) extends Field F, LinearOrder F, IsStrictOrderedRing F where
  isFinite : F → Bool
  sqrt : F → F
  ln : F → F

/-- Exact arithmetic: every value is finite and the square root is the real one. The
results about layer valuations need it; the evaluators never do. -/
class ExactArithmetic (F : Type) [F64 F] : Prop where
  finite : ∀ x : F, F64.isFinite x = true
  sqrt_nonneg : ∀ x : F, 0 ≤ F64.sqrt x
  sqrt_mul_self : ∀ {x : F}, 0 ≤ x → F64.sqrt x * F64.sqrt x = x

namespace F64

variable {F : Type} [F64 F]

/-- `f64::clamp`. -/
def clamp (x lower upper : F) : F :=
  if x < lower then lower else if upper < x then upper else x

/-- `f64::min` over a list, starting from positive infinity. -/
def minimum (values : List F) : WithTop F :=
  values.foldl (fun least value => min least ↑value) ⊤

theorem clamp_of_mem {x lower upper : F} (above : lower ≤ x) (below : x ≤ upper) :
    clamp x lower upper = x := by
  simp [clamp, not_lt.mpr above, not_lt.mpr below]

/-- A clamped value lies between its bounds. -/
theorem clamp_mem {x lower upper : F} (ordered : lower ≤ upper) :
    lower ≤ clamp x lower upper ∧ clamp x lower upper ≤ upper := by
  unfold clamp
  split_ifs with below above
  · exact ⟨le_refl _, ordered⟩
  · exact ⟨ordered, le_refl _⟩
  · exact ⟨not_lt.mp below, not_lt.mp above⟩

section Sqrt

variable [ExactArithmetic F]

theorem sqrt_pos {x : F} (positive : 0 < x) : 0 < sqrt x := by
  refine lt_of_le_of_ne (ExactArithmetic.sqrt_nonneg x) fun zero => ?_
  have square := ExactArithmetic.sqrt_mul_self positive.le
  rw [← zero, mul_zero] at square
  exact positive.ne square

theorem sqrt_lt_sqrt {x y : F} (nonneg : 0 ≤ x) (less : x < y) : sqrt x < sqrt y := by
  refine lt_of_mul_self_lt_mul_self₀ (ExactArithmetic.sqrt_nonneg y) ?_
  rw [ExactArithmetic.sqrt_mul_self nonneg, ExactArithmetic.sqrt_mul_self (nonneg.trans less.le)]
  exact less

theorem sqrt_le_sqrt {x y : F} (nonneg : 0 ≤ x) (le : x ≤ y) : sqrt x ≤ sqrt y := by
  rcases le.lt_or_eq with less | rfl
  · exact (sqrt_lt_sqrt nonneg less).le
  · exact le_refl _

end Sqrt

end F64

/-- Rational arithmetic for concrete runs. The square root is exact on squares of
rationals, and the logarithm agrees with the real one at `1`. -/
instance : F64 ℚ where
  isFinite _ := true
  sqrt q := (Nat.sqrt q.num.toNat : ℚ) / Nat.sqrt q.den
  ln q := if q = 1 then 0 else q - 1

/-- The real numbers, where every operation is the mathematical one. -/
noncomputable instance : F64 ℝ where
  isFinite _ := true
  sqrt := Real.sqrt
  ln := Real.log

instance : ExactArithmetic ℝ where
  finite _ := rfl
  sqrt_nonneg := Real.sqrt_nonneg
  sqrt_mul_self := Real.mul_self_sqrt

end LpMaker
