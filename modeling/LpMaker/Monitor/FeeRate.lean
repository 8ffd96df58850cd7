import LpMaker.Monitor.HistoryInvariant
import LpMaker.Numeric.PiecewiseLinear

/-!
# The fees and the capital of a window

Over the rationals the integration of samples is exact: the fees are the increase of the
piecewise-linear cumulative fees, and the capital is the integral of the piecewise-linear
principal.
-/

namespace LpMaker.Performance

open PiecewiseLinear

variable {samples : List (Sample ℚ)} {first a b : Sample ℚ} {start : Nat} {price : ℚ}

/-- The cumulative fees of a sample at a price. -/
def Sample.feeNode (price : ℚ) (s : Sample ℚ) : Node :=
  ((s.timeMs : ℝ), ((s.feeBase * price + s.feeQuote : ℚ) : ℝ))

/-- The principal of a sample. -/
def Sample.principalNode (s : Sample ℚ) : Node := ((s.timeMs : ℝ), (s.principalQuote : ℝ))

/-- The cumulative fees at every time, valued at the current price. -/
noncomputable def cumulativeFees (samples : List (Sample ℚ)) (price : ℚ) : ℝ → ℝ :=
  interpolate (samples.map (Sample.feeNode price))

/-- The principal at every time. -/
noncomputable def principal (samples : List (Sample ℚ)) : ℝ → ℝ :=
  interpolate (samples.map Sample.principalNode)

/-- The part of a window which the samples cover. -/
def covered (samples : List (Sample ℚ)) (start : Nat) : Nat × Nat :=
  (max start ((samples.head?.map Sample.timeMs).getD start),
    max start ((samples.getLast?.map Sample.timeMs).getD start))

section Segments

/-- The sums of a segment are those of its two lines. -/
theorem segment_eq (apart : a.timeMs < b.timeMs) :
    (((addSegment start price (0, 0) (a, b)).1 : ℚ) : ℝ) =
        rise start (a.feeNode price) (b.feeNode price) ∧
      (((addSegment start price (0, 0) (a, b)).2 : ℚ) : ℝ) =
        area start a.principalNode b.principalNode := by
  have width : (b.timeMs : ℝ) - a.timeMs ≠ 0 := by
    have less : (a.timeMs : ℝ) < b.timeMs := by exact_mod_cast apart
    exact (sub_pos.mpr less).ne'
  unfold addSegment rise area Sample.feeNode Sample.principalNode
  by_cases skipped : b.timeMs ≤ start
  · have skippedReal : (b.timeMs : ℝ) ≤ start := by exact_mod_cast skipped
    rw [if_pos skipped, if_pos skippedReal, if_pos skippedReal]
    exact ⟨Rat.cast_zero, Rat.cast_zero⟩
  · have skippedReal : ¬(b.timeMs : ℝ) ≤ start := by exact_mod_cast skipped
    rw [if_neg skipped, if_neg skippedReal, if_neg skippedReal]
    have left : max a.timeMs start ≤ b.timeMs := by omega
    unfold segment line
    dsimp only
    rw [Prod.mk_zero_zero, zero_add]
    push_cast [Nat.cast_sub left, Nat.cast_sub apart.le]
    constructor <;> field_simp <;> ring

theorem pairs_increase (increasing : (samples.map Sample.timeMs).Pairwise (· < ·)) :
    ∀ pair ∈ samples.zip samples.tail, pair.1.timeMs < pair.2.timeMs := by
  cases samples with
  | nil => exact fun _ mem => absurd mem List.not_mem_nil
  | cons first rest =>
      intro pair mem
      induction rest generalizing first with
      | nil => cases mem
      | cons second rest inductionHypothesis =>
          rw [List.map_cons, List.pairwise_cons] at increasing
          rcases List.mem_cons.mp mem with rfl | later
          · exact increasing.1 _ List.mem_cons_self
          · exact inductionHypothesis second increasing.2 later

/-- The sums of the pairs, one line for each. -/
theorem foldl_segments {pairs : List (Sample ℚ × Sample ℚ)} {sums : ℚ × ℚ}
    (increase : ∀ pair ∈ pairs, pair.1.timeMs < pair.2.timeMs) :
    ((pairs.foldl (addSegment start price) sums).1 : ℝ) = sums.1 + (pairs.map fun pair =>
        rise start (pair.1.feeNode price) (pair.2.feeNode price)).sum ∧
      ((pairs.foldl (addSegment start price) sums).2 : ℝ) = sums.2 + (pairs.map fun pair =>
        area start pair.1.principalNode pair.2.principalNode).sum := by
  induction pairs generalizing sums with
  | nil => simp
  | cons pair pairs inductionHypothesis =>
      obtain ⟨here, later⟩ := List.forall_mem_cons.mp increase
      have added : addSegment start price sums pair =
          sums + addSegment start price (0, 0) pair := by
        unfold addSegment
        split_ifs
        · exact (add_zero sums).symm
        · rw [Prod.mk_zero_zero, zero_add]
      obtain ⟨fees, capital⟩ := @inductionHypothesis (addSegment start price sums pair) later
      obtain ⟨fee, share⟩ := @segment_eq pair.1 pair.2 start price here
      rw [List.foldl_cons, List.map_cons, List.sum_cons, List.map_cons, List.sum_cons, fees,
        capital, added, Prod.fst_add, Prod.snd_add, Rat.cast_add, Rat.cast_add, fee, share]
      exact ⟨add_assoc _ _ _, add_assoc _ _ _⟩

end Segments

section Windows

/-- Nodes of samples with increasing times have increasing abscissas. -/
theorem nodes_increasing {node : Sample ℚ → Node} (time : ∀ s, (node s).1 = s.timeMs)
    (increasing : (samples.map Sample.timeMs).Pairwise (· < ·)) :
    Increasing (samples.map node) := by
  refine List.Pairwise.isChain ?_
  rw [List.pairwise_map] at increasing ⊢
  refine increasing.imp fun less => ?_
  rw [time, time]
  exact_mod_cast less

theorem stop_nodes {node : Sample ℚ → Node} (time : ∀ s, (node s).1 = s.timeMs)
    {rest : List (Sample ℚ)} :
    stop (node first) (rest.map node) =
      (((first :: rest).getLast (List.cons_ne_nil _ _)).timeMs : ℝ) := by
  induction rest generalizing first with
  | nil => exact time first
  | cons second rest inductionHypothesis =>
      rw [List.map_cons, stop_cons, inductionHypothesis, List.getLast_cons_cons]

theorem map_pairs {node : Sample ℚ → Node} {f : Node → Node → ℝ} {rest : List (Sample ℚ)} :
    ((node first :: rest.map node).zip (rest.map node)).map (fun pair => f pair.1 pair.2) =
      ((first :: rest).zip rest).map fun pair => f (node pair.1) (node pair.2) := by
  rw [← List.map_cons, List.zip_map, List.map_map]
  rfl

/-- For a valid history and every start the fees are the increase of the cumulative fees over
the covered part of the window, and the capital is the integral of the principal. -/
theorem integrate_eq {history : History ℚ} {id : String} {h : Holding ℚ}
    (valid : history.validate = .ok ()) (found : history.positions.lookup id = some h)
    (start : Nat) (price : ℚ) :
    ((integrate h.samples start price).1 : ℝ) =
        cumulativeFees h.samples price (covered h.samples start).2 -
          cumulativeFees h.samples price (covered h.samples start).1 ∧
      ((integrate h.samples start price).2 : ℝ) =
        ∫ t in ((covered h.samples start).1 : ℝ)..((covered h.samples start).2 : ℝ),
          principal h.samples t := by
  have increasing := (History.validate_eq_ok.mp valid id h found).contiguous.times
  generalize h.samples = samples at increasing
  obtain ⟨fees, capital⟩ := @foldl_segments start price _ (0, 0) (pairs_increase increasing)
  unfold integrate cumulativeFees principal
  rw [fees, capital]
  cases samples with
  | nil => simp [covered]
  | cons first rest =>
      have feeTime : ∀ s : Sample ℚ, (s.feeNode price).1 = s.timeMs := fun _ => rfl
      have principalTime : ∀ s : Sample ℚ, s.principalNode.1 = s.timeMs := fun _ => rfl
      have ends : covered (first :: rest) start = (max start first.timeMs,
          max start ((first :: rest).getLast (List.cons_ne_nil _ _)).timeMs) := by
        unfold covered
        rw [List.getLast?_eq_some_getLast (List.cons_ne_nil _ _)]
        rfl
      have rises := @sum_rise _ _ start (nodes_increasing feeTime increasing)
      have areas := @sum_area _ _ start (nodes_increasing principalTime increasing)
      rw [map_pairs, stop_nodes feeTime] at rises
      rw [map_pairs, stop_nodes principalTime] at areas
      rw [ends, Rat.cast_zero, zero_add, zero_add, Nat.cast_max, Nat.cast_max]
      exact ⟨rises, areas⟩

end Windows

namespace Shipped

/-- Three minutes with a changing principal. -/
def minutes : Holding ℚ where
  sinceMs := 60000
  sinceSource := "first_observation"
  samples := [⟨60000, 1, "a", "r", 0, 1, 100⟩, ⟨120000, 2, "b", "r", 1, 1, 160⟩,
    ⟨180000, 3, "c", "r", 1, 5, 120⟩]
  resetReason := none

def minutesHistory : History ℚ := ⟨.null, AList.singleton "7" minutes⟩

/-- A window which starts in the middle of the first segment. -/
theorem minutes_integrate :
    integrate minutes.samples 90000 2000 = (1004, 12750000) ∧
      ((integrate minutes.samples 90000 2000).1 : ℝ) =
        cumulativeFees minutes.samples 2000 (180000 : Nat) -
          cumulativeFees minutes.samples 2000 (90000 : Nat) ∧
      ((integrate minutes.samples 90000 2000).2 : ℝ) =
        ∫ t in ((90000 : Nat) : ℝ)..((180000 : Nat) : ℝ), principal minutes.samples t :=
  ⟨by decide +kernel, integrate_eq (show minutesHistory.validate = .ok () by decide +kernel)
    (show minutesHistory.positions.lookup "7" = some minutes by decide +kernel) 90000 2000⟩

end Shipped

end LpMaker.Performance
