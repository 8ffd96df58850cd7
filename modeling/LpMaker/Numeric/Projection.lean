import LpMaker.Numeric.F64

/-!
# Clamping as a projection

A clamped value is the point of the interval closest to the value. Bounding it from above once
more keeps the whole map idempotent.
-/

namespace LpMaker.F64

variable {F : Type} [F64 F] {x y lower upper cap : F}

/-- No point of the interval is closer. -/
theorem clamp_closest (above : lower ≤ y) (below : y ≤ upper) :
    |clamp x lower upper - x| ≤ |y - x| := by
  unfold clamp
  split_ifs with under beyond
  · rw [abs_of_pos (sub_pos.mpr under), abs_of_pos (sub_pos.mpr (under.trans_le above))]
    exact sub_le_sub_right above x
  · rw [abs_of_neg (sub_neg.mpr beyond), abs_of_neg (sub_neg.mpr (below.trans_lt beyond))]
    exact neg_le_neg (sub_le_sub_right below x)
  · rw [sub_self, abs_zero]
    exact abs_nonneg _

/-- Clamping an interval point below a cap changes nothing but what exceeds the cap. -/
theorem min_clamp_idempotent (ordered : lower ≤ upper) :
    min (clamp (min (clamp x lower upper) cap) lower upper) cap = min (clamp x lower upper) cap := by
  obtain ⟨above, below⟩ := clamp_mem (x := x) ordered
  rcases le_total (clamp x lower upper) cap with kept | capped
  · rw [min_eq_left kept, clamp_of_mem above below]
    exact min_eq_left kept
  · rw [min_eq_right capped]
    apply min_eq_right
    -- The cap lies below the interval's end, so clamping can only raise it.
    unfold clamp
    split_ifs with under beyond
    · exact under.le
    · exact absurd (capped.trans below) (not_le.mpr beyond)
    · exact le_refl cap

end LpMaker.F64
