import LpMaker.Strategy.Feature

/-!
# Features of a whole history

A replay computes the features of every hour at once. At each hour they are those which the live
evaluator computes from the candles which it has by then.
-/

namespace LpMaker

namespace Indicators

variable {α : Type} {items : List α} {w : α × α}

/-- A window is a pair of neighbours. -/
theorem mem_windows : w ∈ windows items ↔
    ∃ j : Nat, items[j]? = some w.1 ∧ items[j + 1]? = some w.2 := by
  unfold windows
  rw [List.mem_iff_getElem?]
  refine exists_congr fun j => ?_
  rw [List.getElem?_zip_eq_some, List.getElem?_tail]

end Indicators

open Indicators

section Prefixes

variable {α : Type} {items : List α} {j n : Nat} {x : α}

theorem getElem?_of_take (here : (items.take n)[j]? = some x) : j < n ∧ items[j]? = some x := by
  rw [List.getElem?_take] at here
  split_ifs at here with inside
  exact ⟨inside, here⟩

end Prefixes

namespace Feature

variable {F : Type} [F64 F] {a b : List (Candle F)} {i j n now : Nat} {bar other : Candle F}

/-- The features of every hour with 72 hours before it. -/
def features (a : List (Candle F)) : List (Feature F) :=
  (List.range' 72 (a.length - 72)).map (at_ a)

/-- The feature of hour `i` follows those of the hours 72 to `i - 1`. -/
theorem features_getElem? (warm : 72 ≤ i) (inside : i < a.length) :
    (features a)[i - 72]? = some (at_ a i) := by
  unfold features
  rw [List.getElem?_map, List.getElem?_range' (by omega), show 72 + 1 * (i - 72) = i by omega]
  rfl

/-- The live feature is the first of its last 73 hours. -/
theorem latest_eq_features {x : Feature F} (computed : latest a now = .ok x) :
    (features (lastN (completed a now) 73))[0]? = some x := by
  unfold latest at computed
  simp only [List.forM_eq_forM, check_bind_eq_ok, ensure_eq_ok, Except.ok.injEq] at computed
  obtain ⟨enough, -, -, -, rfl⟩ := computed
  have rows : 72 < (lastN (completed a now) 73).length := by
    unfold lastN
    rw [List.length_drop]
    omega
  have first := features_getElem? (le_refl 72) rows
  rwa [Nat.sub_self] at first

/-- Valid candles of one hour each, without a gap. -/
structure Hourly (a : List (Candle F)) : Prop where
  valid : ∀ x ∈ a,
    validBar x ∧ x.openMs ≤ x.closeMs ∧ x.closeMs - x.openMs = hourMs - 1
  next : ∀ w ∈ windows a, w.2.openMs = w.1.openMs + hourMs

theorem Hourly.take (hourly : Hourly a) (n : Nat) : Hourly (a.take n) where
  valid x mem := hourly.valid x (List.mem_of_mem_take mem)
  next w mem := by
    obtain ⟨j, here, later⟩ := mem_windows.mp mem
    exact hourly.next w (mem_windows.mpr
      ⟨j, (getElem?_of_take here).2, (getElem?_of_take later).2⟩)

theorem Hourly.drop (hourly : Hourly a) (n : Nat) : Hourly (a.drop n) where
  valid x mem := hourly.valid x (List.mem_of_mem_drop mem)
  next w mem := by
    obtain ⟨j, here, later⟩ := mem_windows.mp mem
    rw [List.getElem?_drop] at here later
    exact hourly.next w (mem_windows.mpr ⟨n + j, here, later⟩)

/-- Hours close one hour after each other. -/
theorem Hourly.closeMs_add (hourly : Hourly a) (here : a[i]? = some bar)
    (later : a[i + n]? = some other) : other.closeMs = bar.closeMs + n * hourMs := by
  induction n generalizing other with
  | zero =>
      obtain rfl : bar = other := Option.some_inj.mp (here.symm.trans later)
      omega
  | succ n inductionHypothesis =>
      have inside : i + n < a.length := by
        have bound := (List.getElem?_eq_some_iff.mp later).1
        omega
      have previous : a[i + n]? = some a[i + n] := List.getElem?_eq_getElem inside
      have opened := hourly.next (a[i + n], other) (mem_windows.mpr ⟨i + n, previous, later⟩)
      have before := hourly.valid a[i + n] (List.getElem_mem inside)
      have after := hourly.valid other (List.mem_of_getElem? later)
      have closed := inductionHypothesis previous
      unfold hourMs at *
      dsimp only at opened
      omega

/-- A feature depends on the hour and the 72 hours before it. -/
theorem at_congr (warm : 72 ≤ i) (warm' : 72 ≤ j)
    (same : ∀ n ≤ 72, b.getD (j - n) emptyCandle = a.getD (i - n) emptyCandle) :
    at_ b j = at_ a i := by
  have here : b.getD j emptyCandle = a.getD i emptyCandle := same 0 (by omega)
  have returns : ((List.range 6).map fun k => F64.ln ((b.getD (j - 5 + k) emptyCandle).close /
        (b.getD (j - 5 + k - 1) emptyCandle).close)) =
      (List.range 6).map fun k => F64.ln ((a.getD (i - 5 + k) emptyCandle).close /
        (a.getD (i - 5 + k - 1) emptyCandle).close) := by
    refine List.map_congr_left fun k mem => ?_
    have small : k < 6 := List.mem_range.mp mem
    have now := same (5 - k) (by omega)
    have previous := same (6 - k) (by omega)
    rw [show j - 5 + k = j - (5 - k) by omega, show i - 5 + k = i - (5 - k) by omega, now,
      show j - (5 - k) - 1 = j - (6 - k) by omega, show i - (5 - k) - 1 = i - (6 - k) by omega,
      previous]
  unfold at_
  simp only [here, returns, same 1 (by omega), same 6 (by omega), same 24 (by omega),
    same 72 (by omega)]

/-- With the hours up to `i` closed, the live feature is the one of hour `i`. -/
theorem latest_of_completed (hourly : Hourly a) (warm : 72 ≤ i) (here : a[i]? = some bar)
    (completed_eq : completed b now = a.take (i + 1))
    (fresh : now ≤ bar.closeMs + hourMs + 60000) : latest b now = .ok (at_ a i) := by
  have inside : i < a.length := (List.getElem?_eq_some_iff.mp here).1
  have recent : lastN (a.take (i + 1)) 73 = (a.take (i + 1)).drop (i - 72) := by
    unfold lastN
    rw [List.length_take, Nat.min_eq_left (by omega), show i + 1 - 73 = i - 72 by omega]
  have rows : Hourly ((a.take (i + 1)).drop (i - 72)) := (hourly.take _).drop _
  have row (n : Nat) (near : n ≤ 72) :
      ((a.take (i + 1)).drop (i - 72)).getD (72 - n) emptyCandle =
        a.getD (i - n) emptyCandle := by
    rw [List.getD_eq_getElem?_getD, List.getD_eq_getElem?_getD, List.getElem?_drop,
      List.getElem?_take_of_lt (by omega), show i - 72 + (72 - n) = i - n by omega]
  have last : ((a.take (i + 1)).drop (i - 72)).getD 72 emptyCandle = bar := by
    rw [show (72 : Nat) = 72 - 0 from rfl, row 0 (by omega), List.getD_eq_getElem?_getD,
      Nat.sub_zero, here]
    rfl
  unfold latest
  rw [completed_eq]
  dsimp only
  rw [recent]
  simp only [List.forM_eq_forM, check_bind_eq_ok, ensure_eq_ok, forM_eq_ok]
  refine ⟨?_, rows.valid, rows.next, ?_, ?_⟩
  · rw [List.length_take]
    omega
  · rw [last]
    omega
  · rw [at_congr warm (le_refl 72) row]

/-- Of hours which close at or after `now` none is complete. -/
theorem completed_take (hourly : Hourly a) (here : a[i]? = some bar) (closed : bar.closeMs < now)
    (later : ∀ j next, i < j → j < n → a[j]? = some next → now ≤ next.closeMs) (more : i < n) :
    completed (a.take n) now = a.take (i + 1) := by
  have split : a.take n = a.take (i + 1) ++ (a.take n).drop (i + 1) := by
    conv_lhs => rw [← List.take_append_drop (i + 1) (a.take n)]
    rw [List.take_take, Nat.min_eq_left (by omega)]
  have before : (a.take (i + 1)).filter (fun x => x.closeMs < now) = a.take (i + 1) := by
    refine List.filter_eq_self.mpr fun x mem => ?_
    obtain ⟨j, at_j⟩ := List.mem_iff_getElem?.mp mem
    obtain ⟨upto, earlier⟩ := getElem?_of_take at_j
    have apart := hourly.closeMs_add earlier
      (show a[j + (i - j)]? = some bar by rwa [Nat.add_sub_cancel' (by omega)])
    exact decide_eq_true (by omega)
  have after : ((a.take n).drop (i + 1)).filter (fun x => x.closeMs < now) = [] := by
    refine List.filter_eq_nil_iff.mpr fun x mem => ?_
    obtain ⟨j, at_j⟩ := List.mem_iff_getElem?.mp mem
    rw [List.getElem?_drop] at at_j
    obtain ⟨upto, present⟩ := getElem?_of_take at_j
    have open_ := later _ x (by omega) upto present
    rw [decide_eq_true_eq]
    omega
  unfold completed
  rw [split, List.filter_append, before, after, List.append_nil]

/-- At every hour the feature of the whole history is the live one, both for the candles up to
the hour and for a longer history whose later candles have not closed. -/
theorem features_eq_latest (hourly : Hourly a) (warm : 72 ≤ i) (here : a[i]? = some bar)
    (closed : bar.closeMs < now) (fresh : now ≤ bar.closeMs + hourMs + 60000) :
    ∃ x, (features a)[i - 72]? = some x ∧ latest (a.take (i + 1)) now = .ok x ∧
      ((∀ j next, i < j → a[j]? = some next → now ≤ next.closeMs) →
        latest a now = .ok x) := by
  have inside : i < a.length := (List.getElem?_eq_some_iff.mp here).1
  refine ⟨at_ a i, ?_, ?_, fun later => ?_⟩
  · exact features_getElem? warm inside
  · exact latest_of_completed hourly warm here
      (completed_take hourly here closed (fun j _ above below => by omega) (by omega)) fresh
  · refine latest_of_completed hourly warm here ?_ fresh
    have all := completed_take hourly here closed (fun j next above _ => later j next above) inside
    rwa [List.take_length] at all

end Feature

namespace Shipped

/-- Hours at one price. -/
def calmHours (count : Nat) : List (Candle ℚ) :=
  (List.range count).map fun k => ⟨k * hourMs, k * hourMs + (hourMs - 1), 100, 100, 100, 100⟩

/-- The second feature of 75 hours is the live one at the end of its hour. -/
theorem calm_features :
    ∃ x, (Feature.features (calmHours 75))[1]? = some x ∧
      Feature.latest ((calmHours 75).take 74) (74 * hourMs) = .ok x ∧
      ((∀ j next, 73 < j → (calmHours 75)[j]? = some next → 74 * hourMs ≤ next.closeMs) →
        Feature.latest (calmHours 75) (74 * hourMs) = .ok x) :=
  Feature.features_eq_latest ⟨by decide +kernel, by decide +kernel⟩ (i := 73) (by decide) rfl
    (by decide) (by decide)

end Shipped

end LpMaker
