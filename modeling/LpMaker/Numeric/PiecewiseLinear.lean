import LpMaker.Numeric.Literals

/-!
# Piecewise-linear functions

The function through a list of nodes with increasing abscissas. Its increase and its integral
after a start are sums over the segments, of which the first may be cut.
-/

namespace PiecewiseLinear

/-- A point of the graph. -/
abbrev Node := ℝ × ℝ

/-- The line through two nodes. -/
noncomputable def line (a b : Node) (t : ℝ) : ℝ := a.2 + (b.2 - a.2) * ((t - a.1) / (b.1 - a.1))

/-- The function through all nodes. -/
noncomputable def interpolate : List Node → ℝ → ℝ
  | [], _ => 0
  | [a], _ => a.2
  | a :: b :: rest, t => if t ≤ b.1 then line a b t else interpolate (b :: rest) t

/-- The increase along a segment after `start`. -/
noncomputable def rise (start : ℝ) (a b : Node) : ℝ :=
  if b.1 ≤ start then 0 else b.2 - line a b (max a.1 start)

/-- The area below a segment after `start`. -/
noncomputable def area (start : ℝ) (a b : Node) : ℝ :=
  if b.1 ≤ start then 0
  else (line a b (max a.1 start) + b.2) / 2 * (b.1 - max a.1 start)

/-- The abscissas increase. -/
abbrev Increasing (nodes : List Node) : Prop := nodes.IsChain fun a b => a.1 < b.1

variable {a b : Node} {rest : List Node} {t start : ℝ}

theorem line_left : line a b a.1 = a.2 := by
  simp [line]

theorem line_right (apart : a.1 < b.1) : line a b b.1 = b.2 := by
  have width : b.1 - a.1 ≠ 0 := (sub_pos.mpr apart).ne'
  rw [line, div_self width]
  ring

theorem continuous_line : Continuous (line a b) := by
  unfold line
  fun_prop

/-- The area below a line is that of a trapezoid. -/
theorem integral_line {left right : ℝ} :
    ∫ t in left..right, line a b t = (line a b left + line a b right) / 2 * (right - left) := by
  have slope : line a b = fun t => (b.2 - a.2) / (b.1 - a.1) * t +
      (a.2 - (b.2 - a.2) / (b.1 - a.1) * a.1) := by
    funext t
    unfold line
    ring
  have linear : Continuous fun t : ℝ => (b.2 - a.2) / (b.1 - a.1) * t := by fun_prop
  rw [slope, intervalIntegral.integral_add (linear.intervalIntegrable _ _)
    (continuous_const.intervalIntegrable _ _), intervalIntegral.integral_const_mul, integral_id,
    intervalIntegral.integral_const, smul_eq_mul]
  ring

/-- At its first node the function has the value of the node. -/
theorem interpolate_first (increasing : Increasing (a :: rest)) :
    interpolate (a :: rest) a.1 = a.2 := by
  cases rest with
  | nil => rfl
  | cons b rest =>
      have apart := (List.isChain_cons_cons.mp increasing).1
      rw [interpolate, if_pos apart.le, line_left]

theorem interpolate_of_le (before : t ≤ b.1) : interpolate (a :: b :: rest) t = line a b t := by
  rw [interpolate, if_pos before]

/-- Behind its second node the function is the one through the later nodes. -/
theorem interpolate_of_ge (increasing : Increasing (a :: b :: rest)) (behind : b.1 ≤ t) :
    interpolate (a :: b :: rest) t = interpolate (b :: rest) t := by
  obtain ⟨apart, later⟩ := List.isChain_cons_cons.mp increasing
  rcases behind.lt_or_eq with less | rfl
  · rw [interpolate, if_neg (not_le.mpr less)]
  · rw [interpolate_of_le (le_refl _), line_right apart, interpolate_first later]

theorem continuous_interpolate (increasing : Increasing (a :: rest)) :
    Continuous (interpolate (a :: rest)) := by
  induction rest generalizing a with
  | nil => exact continuous_const
  | cons b rest inductionHypothesis =>
      obtain ⟨apart, later⟩ := List.isChain_cons_cons.mp increasing
      refine Continuous.if_le continuous_line (inductionHypothesis later) continuous_id
        continuous_const fun t meet => ?_
      obtain rfl : t = b.1 := meet
      rw [line_right apart, interpolate_first later]

/-- The abscissa of the last node. -/
noncomputable def stop (a : Node) (rest : List Node) : ℝ :=
  ((a :: rest).getLast (List.cons_ne_nil _ _)).1

theorem stop_cons : stop a (b :: rest) = stop b rest := by
  unfold stop
  rw [List.getLast_cons_cons]

theorem le_stop (increasing : Increasing (a :: rest)) : a.1 ≤ stop a rest := by
  induction rest generalizing a with
  | nil => exact le_refl _
  | cons b rest inductionHypothesis =>
      obtain ⟨apart, later⟩ := List.isChain_cons_cons.mp increasing
      rw [stop_cons]
      exact apart.le.trans (inductionHypothesis later)

/-- The increases along the segments add up to the increase of the function after `start`. -/
theorem sum_rise (increasing : Increasing (a :: rest)) :
    (((a :: rest).zip rest).map fun pair => rise start pair.1 pair.2).sum =
      interpolate (a :: rest) (max start (stop a rest)) -
        interpolate (a :: rest) (max start a.1) := by
  induction rest generalizing a with
  | nil => simp [interpolate]
  | cons b rest inductionHypothesis =>
      obtain ⟨apart, later⟩ := List.isChain_cons_cons.mp increasing
      have ends : b.1 ≤ stop b rest := le_stop later
      have here : rise start a b = interpolate (b :: rest) (max start b.1) -
          interpolate (a :: b :: rest) (max start a.1) := by
        unfold rise
        split_ifs with skipped
        · rw [max_eq_left skipped, max_eq_left (apart.le.trans skipped),
            interpolate_of_ge increasing skipped, sub_self]
        · have inside := not_le.mp skipped
          rw [max_eq_right inside.le, interpolate_first later,
            interpolate_of_le (max_le inside.le apart.le), max_comm]
      rw [List.zip_cons_cons, List.map_cons, List.sum_cons, inductionHypothesis later, here,
        stop_cons, interpolate_of_ge increasing (ends.trans (le_max_right _ _))]
      ring

/-- The areas below the segments add up to the integral of the function after `start`. -/
theorem sum_area (increasing : Increasing (a :: rest)) :
    (((a :: rest).zip rest).map fun pair => area start pair.1 pair.2).sum =
      ∫ t in max start a.1..max start (stop a rest), interpolate (a :: rest) t := by
  induction rest generalizing a with
  | nil => simp [stop]
  | cons b rest inductionHypothesis =>
      obtain ⟨apart, later⟩ := List.isChain_cons_cons.mp increasing
      have ends : b.1 ≤ stop b rest := le_stop later
      have integrable := fun left right =>
        (continuous_interpolate increasing).intervalIntegrable (μ := MeasureTheory.volume) left right
      have here : area start a b =
          ∫ t in max start a.1..max start b.1, interpolate (a :: b :: rest) t := by
        unfold area
        split_ifs with skipped
        · rw [max_eq_left skipped, max_eq_left (apart.le.trans skipped),
            intervalIntegral.integral_same]
        · have inside := not_le.mp skipped
          have left : max start a.1 ≤ b.1 := max_le inside.le apart.le
          have linear : ∫ t in max start a.1..b.1, interpolate (a :: b :: rest) t =
              ∫ t in max start a.1..b.1, line a b t := by
            refine intervalIntegral.integral_congr fun t mem => ?_
            rw [Set.uIcc_of_le left] at mem
            exact interpolate_of_le mem.2
          rw [max_eq_right inside.le, linear, integral_line, line_right apart, max_comm]
      have behind : ∫ t in max start b.1..max start (stop b rest), interpolate (b :: rest) t =
          ∫ t in max start b.1..max start (stop b rest), interpolate (a :: b :: rest) t := by
        refine intervalIntegral.integral_congr fun t mem => ?_
        rw [Set.uIcc_of_le (max_le_max_left _ ends)] at mem
        exact (interpolate_of_ge increasing ((le_max_right _ _).trans mem.1)).symm
      rw [List.zip_cons_cons, List.map_cons, List.sum_cons, inductionHypothesis later, here,
        behind, stop_cons]
      exact intervalIntegral.integral_add_adjacent_intervals (integrable _ _) (integrable _ _)

end PiecewiseLinear
