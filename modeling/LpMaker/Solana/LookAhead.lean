import LpMaker.Semantics.Chronicle
import LpMaker.Solana.Backtest
import LpMaker.Solana.HaltFinality

/-!
# No look-ahead

A replay decides at a time on the rows before it and on its opening prices. Two chronological
datasets which agree on these play alike before the time and decide alike at it.
-/

namespace LpMaker

open Semantics

variable {F : Type} [F64 F]

namespace Research

variable {c : Config F} {A B : Data F} {setup : Setup F} {sim : Sim F} {x y : Row F}
  {T t : Nat}

/-- The rows of a dataset are in the order of their times. -/
structure Data.Chronological (data : Data F) : Prop where
  pool : data.pool.Pairwise fun x y => x.timestamp * 1000 < y.timestamp * 1000
  opens : data.hedge.Pairwise fun x y => x.openMs < y.openMs
  closes : data.hedge.Pairwise fun x y => x.closeMs ≤ y.closeMs
  candles : ∀ h ∈ data.hedge, h.openMs ≤ h.closeMs

/-- Two datasets agree on the rows before a time, on the opening prices at it and on the
funding up to it. -/
structure Data.AgreeUntil (T : Nat) (A B : Data F) : Prop where
  stepMs : A.stepMs = B.stepMs
  intrabarStress : A.intrabarStress = B.intrabarStress
  pool : (A.pool.filter fun b => b.timestamp * 1000 < T) =
    B.pool.filter fun b => b.timestamp * 1000 < T
  poolOpening : (A.pool.filter fun b => b.timestamp * 1000 = T).map Bar.open_ =
    (B.pool.filter fun b => b.timestamp * 1000 = T).map Bar.open_
  hedge : (A.hedge.filter fun h => h.openMs < T) = B.hedge.filter fun h => h.openMs < T
  hedgeOpening : (A.hedge.filter fun h => h.openMs = T).map Candle.open_ =
    (B.hedge.filter fun h => h.openMs = T).map Candle.open_
  funding : ∀ t ≤ T, A.funding t = B.funding t

/-- The cached signal at a time depends on the candles closed before it. -/
theorem signalAt_congr (A_ordered : A.Chronological) (B_ordered : B.Chronological)
    (closed : (A.hedge.filter fun h => h.closeMs < t) = B.hedge.filter fun h => h.closeMs < t) :
    signalAt c A t = signalAt c B t := by
  unfold signalAt
  rw [takeWhile_eq_filter A_ordered.closes, takeWhile_eq_filter B_ordered.closes, closed]

omit [F64 F] in
/-- Candles closed before a time were opened before it. -/
theorem closed_of_opened (ordered : A.Chronological) (until_ : t ≤ T) :
    (A.hedge.filter fun h => h.closeMs < t) =
      (A.hedge.filter fun h => h.openMs < T).filter fun h => h.closeMs < t := by
  apply filter_of_imp
  intro h mem closed
  have opened := ordered.candles h mem
  simp only [decide_eq_true_eq] at closed ⊢
  omega

theorem signalAt_of_agree (A_ordered : A.Chronological) (B_ordered : B.Chronological)
    (agree : A.AgreeUntil T B) (until_ : t ≤ T) : signalAt c A t = signalAt c B t := by
  apply signalAt_congr A_ordered B_ordered
  rw [closed_of_opened A_ordered until_, closed_of_opened B_ordered until_, agree.hedge]

section Openings

/-- What the opening of a bar reads is the same. -/
structure SameOpening (x y : Row F) : Prop where
  time : x.time = y.time
  price : x.bar.open_ = y.bar.open_
  hedge : x.hedge.map Candle.open_ = y.hedge.map Candle.open_
  funding : x.funding = y.funding
  previous : x.previous = y.previous
  signal : x.signal = y.signal

section Stages

variable {h k : Candle F} {rate : F}

theorem markOpen_congr (same : SameOpening x y) (opening : h.open_ = k.open_) :
    sim.markOpen setup x h rate = sim.markOpen setup y k rate := by
  unfold Sim.markOpen
  rw [same.time, same.price, opening]

theorem guardOpen_congr (opening : h.open_ = k.open_) :
    sim.guardOpen setup h = sim.guardOpen setup k := by
  unfold Sim.guardOpen
  rw [opening]

omit [F64 F] in
theorem afterGap_congr {stepMs : Nat} (same : SameOpening x y) :
    x.afterGap stepMs = y.afterGap stepMs := by
  unfold Row.afterGap
  rw [same.time, same.previous]

theorem leaveForGap_congr [FloorRing F] (same : SameOpening x y) (opening : h.open_ = k.open_) :
    sim.leaveForGap setup x h = sim.leaveForGap setup y k := by
  unfold Sim.leaveForGap Sim.pauseForGap
  rw [afterGap_congr same, same.time, same.price, opening]

theorem evaluateOpen_congr (same : SameOpening x y) (opening : h.open_ = k.open_) :
    sim.evaluateOpen setup x h = sim.evaluateOpen setup y k := by
  unfold Sim.evaluateOpen
  rw [same.time, same.price, same.signal, opening]

end Stages

section Context

variable {α β : Type} {error : String} {rest : α → Except String β}

omit [F64 F]

theorem context_none_bind : (context none error >>= rest) = .error error := rfl

theorem context_some_bind {value : α} : (context (some value) error >>= rest) = rest value := rfl

end Context

/-- The decision reads the opening only. -/
theorem decide_congr [FloorRing F] (same : SameOpening x y) :
    sim.decide_ setup x = sim.decide_ setup y := by
  have hedge := same.hedge
  unfold Sim.decide_
  rw [same.funding]
  cases paired : x.hedge with
  | none =>
      rw [paired, Option.map_none, eq_comm, Option.map_eq_none_iff] at hedge
      rw [hedge, context_none_bind, context_none_bind]
  | some h =>
      rw [paired, Option.map_some, eq_comm, Option.map_eq_some_iff] at hedge
      obtain ⟨other, found, opening⟩ := hedge
      rw [found, context_some_bind, context_some_bind]
      cases y.funding with
      | none => rw [context_none_bind, context_none_bind]
      | some rate =>
          rw [context_some_bind, context_some_bind, markOpen_congr same opening.symm,
            guardOpen_congr opening.symm]
          dsimp only
          rw [leaveForGap_congr same opening.symm]
          refine congrArg _ (funext fun sim => ?_)
          rw [evaluateOpen_congr same opening.symm]

end Openings

section Rows

variable {common : List (Bar F)} {left right : Option (Bar F)} {leftAfter rightAfter : List (Bar F)}
  {start end_ : Nat}

/-- The opening time of a bar in milliseconds. -/
abbrev barTime (b : Bar F) : Nat := b.timestamp * 1000

omit [F64 F] in
/-- The signal of the bar at one index. -/
theorem signal_at [F64 F] {data : Data F} {b : Bar F} {i : Nat} (found : data.pool[i]? = some b) :
    ((cachedSignals c data)[i]?).join = signalAt c data (barTime b) := by
  simp [cachedSignals, found, barTime]

/-- The hedge, the funding and the signal of a time are the same on both sides. -/
theorem row_congr (A_ordered : A.Chronological) (B_ordered : B.Chronological)
    (agree : A.AgreeUntil T B) (A_pool : SplitAt barTime T A.pool common left leftAfter)
    (B_pool : SplitAt barTime T B.pool common right rightAfter) {a b : Bar F} {i : Nat}
    (a_found : A.pool[i]? = some a) (b_found : B.pool[i]? = some b) (time : barTime a = barTime b)
    (until_ : barTime b ≤ T) (index : i ≤ common.length) :
    (A.row (cachedSignals c A) (a, i)).funding = (B.row (cachedSignals c B) (b, i)).funding ∧
      (A.row (cachedSignals c A) (a, i)).previous = (B.row (cachedSignals c B) (b, i)).previous ∧
      (A.row (cachedSignals c A) (a, i)).signal = (B.row (cachedSignals c B) (b, i)).signal := by
  refine ⟨?_, ?_, ?_⟩
  · have hour : barTime b / hourMs * hourMs ≤ T := (Nat.div_mul_le_self _ _).trans until_
    simpa [Data.row, time] using agree.funding _ hour
  · rcases Nat.eq_zero_or_pos i with rfl | positive
    · rfl
    · have before : i - 1 < common.length := by omega
      simp only [Data.row, if_pos positive, A_pool.split, B_pool.split,
        List.getElem?_append_left before]
  · change ((cachedSignals c A)[i]?).join = ((cachedSignals c B)[i]?).join
    rw [signal_at a_found, signal_at b_found, time]
    exact signalAt_of_agree A_ordered B_ordered agree until_

/-- A bar before the time reads the same on both sides. -/
theorem common_row (A_ordered : A.Chronological) (B_ordered : B.Chronological)
    (agree : A.AgreeUntil T B) (A_pool : SplitAt barTime T A.pool common left leftAfter)
    (B_pool : SplitAt barTime T B.pool common right rightAfter) {indexed : Bar F × Nat}
    (mem : indexed ∈ common.zipIdx) :
    A.row (cachedSignals c A) indexed = B.row (cachedSignals c B) indexed := by
  obtain ⟨b, i⟩ := indexed
  have found : common[i]? = some b := List.mem_zipIdx_iff_getElem?.mp mem
  obtain ⟨index, -⟩ := List.getElem?_eq_some_iff.mp found
  have earlier : barTime b < T := A_pool.earlier b (List.mem_of_getElem? found)
  obtain ⟨_, _, _, _, _, A_hedge, B_hedge, -⟩ :=
    splitAt_of_agree A_ordered.opens B_ordered.opens agree.hedge agree.hedgeOpening
  have a_found : A.pool[i]? = some b := by
    rw [A_pool.split, List.getElem?_append_left index, found]
  have b_found : B.pool[i]? = some b := by
    rw [B_pool.split, List.getElem?_append_left index, found]
  obtain ⟨funding, previous, signal⟩ := row_congr (c := c) A_ordered B_ordered agree A_pool B_pool
    a_found b_found rfl earlier.le index.le
  have hedge : (A.row (cachedSignals c A) (b, i)).hedge =
      (B.row (cachedSignals c B) (b, i)).hedge :=
    (A_hedge.find_lt earlier).trans (B_hedge.find_lt earlier).symm
  calc A.row (cachedSignals c A) (b, i)
      = ⟨b, (A.row (cachedSignals c A) (b, i)).hedge, (A.row (cachedSignals c A) (b, i)).funding,
          (A.row (cachedSignals c A) (b, i)).previous,
          (A.row (cachedSignals c A) (b, i)).signal⟩ := rfl
    _ = B.row (cachedSignals c B) (b, i) := by rw [hedge, funding, previous, signal]; rfl

/-- The bars at the time open alike. -/
theorem here_row (A_ordered : A.Chronological) (B_ordered : B.Chronological)
    (agree : A.AgreeUntil T B) {a b : Bar F}
    (A_pool : SplitAt barTime T A.pool common (some a) leftAfter)
    (B_pool : SplitAt barTime T B.pool common (some b) rightAfter) (price : a.open_ = b.open_) :
    SameOpening (A.row (cachedSignals c A) (a, common.length))
      (B.row (cachedSignals c B) (b, common.length)) := by
  have a_now : barTime a = T := A_pool.now a rfl
  have b_now : barTime b = T := B_pool.now b rfl
  have time : barTime a = barTime b := a_now.trans b_now.symm
  obtain ⟨_, _, _, _, _, A_hedge, B_hedge, opening⟩ :=
    splitAt_of_agree A_ordered.opens B_ordered.opens agree.hedge agree.hedgeOpening
  have a_found : A.pool[common.length]? = some a := by simp [A_pool.split]
  have b_found : B.pool[common.length]? = some b := by simp [B_pool.split]
  obtain ⟨funding, previous, signal⟩ := row_congr (c := c) A_ordered B_ordered agree A_pool B_pool
    a_found b_found time b_now.le le_rfl
  refine ⟨time, price, ?_, funding, previous, signal⟩
  change (A.hedge.find? fun h => h.openMs = barTime a).map Candle.open_ =
    (B.hedge.find? fun h => h.openMs = barTime b).map Candle.open_
  rw [a_now, b_now, A_hedge.find_eq, B_hedge.find_eq, opening]

omit [F64 F] in
/-- The rows of a replay around a time in its window. -/
theorem rows_split {signals : List (Option (Regime.Signals F))} (started : start ≤ T)
    (ends : T < end_) (split : SplitAt barTime T A.pool common left leftAfter) :
    ∃ after, A.rows signals start end_ =
      (common.zipIdx.filter fun indexed =>
        start ≤ barTime indexed.1 ∧ barTime indexed.1 < end_).map (A.row signals) ++
        ((left.map fun b => A.row signals (b, common.length)).toList ++ after) ∧
      ∀ row ∈ after, T < row.time := by
  refine ⟨((leftAfter.zipIdx (common.length + left.toList.length)).filter fun indexed =>
    start ≤ barTime indexed.1 ∧ barTime indexed.1 < end_).map (A.row signals), ?_, ?_⟩
  · have here : ((left.toList.zipIdx common.length).filter fun indexed =>
        start ≤ barTime indexed.1 ∧ barTime indexed.1 < end_).map (A.row signals) =
        (left.map fun b => A.row signals (b, common.length)).toList := by
      cases left with
      | none => rfl
      | some b =>
          have now : barTime b = T := split.now b rfl
          simp [now, started, ends]
    unfold Data.rows
    rw [← here]
    simp only [split.split, List.zipIdx_append, List.filter_append, List.map_append, Nat.zero_add]
  · intro row mem
    obtain ⟨indexed, kept, rfl⟩ := List.mem_map.mp mem
    have found := List.mem_zipIdx (List.mem_of_mem_filter kept)
    exact split.later indexed.1 (found.2.2 ▸ List.getElem_mem _)

end Rows

section Replay

variable {common : List (Bar F)} {left right : Option (Bar F)} {leftAfter rightAfter : List (Bar F)}
  {start end_ : Nat} {apr costMultiplier : F} {curve : Bool} {account : Option F}

omit [F64 F] in
/-- The first bar of the window opens alike, once there is one up to the time. -/
theorem first_congr (started : start ≤ T) (ends : T < end_)
    (A_pool : SplitAt barTime T A.pool common left leftAfter)
    (B_pool : SplitAt barTime T B.pool common right rightAfter)
    (price : left.map Bar.open_ = right.map Bar.open_)
    (begun : (∃ b ∈ common, start ≤ barTime b ∧ barTime b < end_) ∨ left ≠ none) :
    (A.pool.find? fun b => start ≤ barTime b ∧ barTime b < end_).map Bar.open_ =
      (B.pool.find? fun b => start ≤ barTime b ∧ barTime b < end_).map Bar.open_ := by
  rw [A_pool.split, B_pool.split]
  simp only [List.find?_append]
  cases found : common.find? fun b => start ≤ barTime b ∧ barTime b < end_ with
  | some b => rfl
  | none =>
      have missing : ¬∃ b ∈ common, start ≤ barTime b ∧ barTime b < end_ := by
        simpa [List.find?_eq_none] using found
      cases left with
      | none => exact absurd rfl (begun.resolve_left missing)
      | some a =>
          cases right with
          | none => cases price
          | some b =>
              have a_now : barTime a = T := A_pool.now a rfl
              have b_now : barTime b = T := B_pool.now b rfl
              simpa [a_now, b_now, started, ends] using price

theorem begin_congr {A_signals B_signals : List (Option (Regime.Signals F))}
    (agree : A.AgreeUntil T B) (A_length : A_signals.length = A.pool.length)
    (B_length : B_signals.length = B.pool.length)
    (first : (A.pool.find? fun b => start ≤ barTime b ∧ barTime b < end_).map Bar.open_ =
      (B.pool.find? fun b => start ≤ barTime b ∧ barTime b < end_).map Bar.open_) :
    begin_ c A A_signals start end_ apr costMultiplier curve account =
      begin_ c B B_signals start end_ apr costMultiplier curve account := by
  unfold begin_
  simp only [A_length, B_length, agree.stepMs, agree.intrabarStress]
  refine congrArg _ (funext fun _ => congrArg _ (funext fun _ => ?_))
  change (context (A.pool.find? fun b => start ≤ barTime b ∧ barTime b < end_) _ >>= _) =
    (context (B.pool.find? fun b => start ≤ barTime b ∧ barTime b < end_) _ >>= _)
  cases A_first : A.pool.find? fun b => start ≤ barTime b ∧ barTime b < end_ with
  | none =>
      rw [A_first, Option.map_none, eq_comm, Option.map_eq_none_iff] at first
      rw [first]
  | some a =>
      rw [A_first, Option.map_some, eq_comm, Option.map_eq_some_iff] at first
      obtain ⟨b, B_first, opening⟩ := first
      rw [B_first, context_some_bind, context_some_bind, opening]

variable [FloorRing F]

/-- A replay does not look ahead. -/
theorem replay_sameUntil (A_ordered : A.Chronological) (B_ordered : B.Chronological)
    (agree : A.AgreeUntil T B) (started : start ≤ T) (ends : T < end_) :
    SameUntil Row.time T
      (replay c A (cachedSignals c A) start end_ apr costMultiplier curve account)
      (replay c B (cachedSignals c B) start end_ apr costMultiplier curve account) := by
  obtain ⟨common, left, right, leftAfter, rightAfter, A_pool, B_pool, price⟩ :=
    splitAt_of_agree A_ordered.pool B_ordered.pool agree.pool agree.poolOpening
  obtain ⟨A_after, A_rows, A_later⟩ := @rows_split F A T common left leftAfter
    start end_ (cachedSignals c A) started ends A_pool
  obtain ⟨B_after, B_rows, B_later⟩ := @rows_split F B T common right rightAfter
    start end_ (cachedSignals c B) started ends B_pool
  unfold replay
  by_cases begun : (∃ b ∈ common, start ≤ barTime b ∧ barTime b < end_) ∨ left ≠ none
  · have first := first_congr started ends A_pool B_pool price begun
    have rows : (common.zipIdx.filter fun indexed =>
        start ≤ barTime indexed.1 ∧ barTime indexed.1 < end_).map (A.row (cachedSignals c A)) =
        (common.zipIdx.filter fun indexed =>
          start ≤ barTime indexed.1 ∧ barTime indexed.1 < end_).map
            (B.row (cachedSignals c B)) := by
      apply List.map_congr_left
      intro indexed kept
      exact common_row A_ordered B_ordered agree A_pool B_pool (List.mem_of_mem_filter kept)
    have A_length : (cachedSignals c A).length = A.pool.length := List.length_map ..
    have B_length : (cachedSignals c B).length = B.pool.length := List.length_map ..
    rw [begin_congr agree A_length B_length first, A_rows, B_rows, rows]
    cases begin_ c B (cachedSignals c B) start end_ apr costMultiplier curve account with
    | error _ => exact .refl []
    | ok opening =>
        refine Player.playAll_sameUntil ?_ ?_ ?_ A_later B_later ?_
        · intro row mem
          obtain ⟨indexed, kept, rfl⟩ := List.mem_map.mp mem
          have found := List.mem_zipIdx (List.mem_of_mem_filter kept)
          exact B_pool.earlier indexed.1 (found.2.2 ▸ List.getElem_mem _)
        · intro row mem
          obtain ⟨b, now, rfl⟩ := Option.map_eq_some_iff.mp mem
          exact A_pool.now b now
        · intro row mem
          obtain ⟨b, now, rfl⟩ := Option.map_eq_some_iff.mp mem
          exact B_pool.now b now
        · intro next
          cases left with
          | none =>
              cases right with
              | none => rfl
              | some b => cases price
          | some a =>
              cases right with
              | none => cases price
              | some b =>
                  have same := here_row (c := c) A_ordered B_ordered agree A_pool B_pool
                    (Option.some.inj price)
                  exact congrArg some (decide_congr same)
  · obtain ⟨none_common, none_left⟩ := not_or.mp begun
    have window : ∀ signals : List (Option (Regime.Signals F)), ∀ data : Data F,
        (common.zipIdx.filter fun indexed =>
          start ≤ barTime indexed.1 ∧ barTime indexed.1 < end_).map (data.row signals) = [] := by
      intro signals data
      rw [List.map_eq_nil_iff, List.filter_eq_nil_iff]
      intro indexed mem
      have found := List.mem_zipIdx mem
      have member : indexed.1 ∈ common := found.2.2 ▸ List.getElem_mem _
      simp only [decide_eq_true_eq]
      intro inside
      exact none_common ⟨indexed.1, member, inside⟩
    have left_none : left = none := not_not.mp none_left
    have right_none : right = none := by
      rw [left_none, Option.map_none, eq_comm, Option.map_eq_none_iff] at price
      exact price
    rw [A_rows, B_rows, window, window, left_none, right_none]
    simp only [Option.map_none, Option.toList_none, List.nil_append]
    apply SameUntil.of_later
    · intro played mem
      cases opening : begin_ c A (cachedSignals c A) start end_ apr costMultiplier curve account with
      | error _ => simp [opening] at mem
      | ok opened =>
          simp only [opening] at mem
          exact A_later _ (Player.row_mem_of_mem_playAll mem)
    · intro played mem
      cases opening : begin_ c B (cachedSignals c B) start end_ apr costMultiplier curve account with
      | error _ => simp [opening] at mem
      | ok opened =>
          simp only [opening] at mem
          exact B_later _ (Player.row_mem_of_mem_playAll mem)

end Replay

end Research

namespace Backtest

variable {A B : Data F} {setup : Setup F} {sim : Sim F} {x y : Entry F} {T t : Nat}

/-- The rows of a dataset are in the order of their times. -/
structure Data.Chronological (data : Data F) : Prop where
  rows : data.rows.Pairwise fun x y => x.time < y.time
  candles : ∀ h ∈ data.hourly, h.openMs ≤ h.closeMs

/-- Two datasets agree on the rows before a time, on the opening prices at it and on the
funding up to it. -/
structure Data.AgreeUntil (T : Nat) (A B : Data F) : Prop where
  step : A.step = B.step
  rows : (A.rows.filter fun r => r.time < T) = B.rows.filter fun r => r.time < T
  opening : (A.rows.filter fun r => r.time = T).map (fun r => (r.pool, r.hedge)) =
    (B.rows.filter fun r => r.time = T).map fun r => (r.pool, r.hedge)
  hourly : (A.hourly.filter fun h => h.openMs < T) = B.hourly.filter fun h => h.openMs < T
  funding : (A.funding.filter fun f => f.1 ≤ T) = B.funding.filter fun f => f.1 ≤ T

/-- What the opening of a row reads is the same. -/
structure SameOpening (x y : Entry F) : Prop where
  time : x.row.time = y.row.time
  pool : x.row.pool = y.row.pool
  hedge : x.row.hedge = y.row.hedge
  closed : x.closed = y.closed
  funding : x.funding = y.funding

/-- The decision reads the opening only. -/
theorem decide_congr (same : SameOpening x y) : sim.decide_ setup x = sim.decide_ setup y := by
  unfold Sim.decide_
  simp only [same.time, same.pool, same.hedge, same.closed, same.funding]

omit [F64 F] in
/-- The candles and the funding which a row reads. -/
theorem entry_congr (A_ordered : A.Chronological) (B_ordered : B.Chronological)
    (agree : A.AgreeUntil T B) {a b : Row F} (time : a.time = b.time) (until_ : b.time ≤ T) :
    (A.entry a).closed = (B.entry b).closed ∧ (A.entry a).funding = (B.entry b).funding := by
  have opened : ∀ data : Data F, data.Chronological →
      (data.hourly.filter fun h => h.closeMs < b.time) =
        (data.hourly.filter fun h => h.openMs < T).filter fun h => h.closeMs < b.time := by
    intro data ordered
    apply filter_of_imp
    intro h mem closed
    have early := ordered.candles h mem
    simp only [decide_eq_true_eq] at closed ⊢
    omega
  have settled : ∀ data : Data F, (data.funding.filter fun f => f.1 ≤ b.time) =
      (data.funding.filter fun f => f.1 ≤ T).filter fun f => f.1 ≤ b.time := by
    intro data
    apply filter_of_imp
    intro f _ due
    simp only [decide_eq_true_eq] at due ⊢
    omega
  unfold Data.entry
  rw [time]
  constructor
  · exact (opened A A_ordered).trans (agree.hourly ▸ (opened B B_ordered).symm)
  · exact (settled A).trans (agree.funding ▸ (settled B).symm)

variable {common : List (Row F)} {left right : Option (Row F)} {leftAfter rightAfter : List (Row F)}
  {start end_ : Nat} {s : StrategyConfig F} {leverage : Nat} {feeRate : F}

omit [F64 F] in
/-- The entries of a replay around a time in its window. -/
theorem entries_split (started : start ≤ T) (ends : T < end_)
    (split : SplitAt Row.time T A.rows common left leftAfter) :
    ∃ after, A.entries start end_ =
      (common.filter fun r => start ≤ r.time ∧ r.time < end_).map A.entry ++
        ((left.map A.entry).toList ++ after) ∧
      ∀ entry ∈ after, T < entry.row.time := by
  refine ⟨(leftAfter.filter fun r => start ≤ r.time ∧ r.time < end_).map A.entry, ?_, ?_⟩
  · have here : (left.toList.filter fun r => start ≤ r.time ∧ r.time < end_).map A.entry =
        (left.map A.entry).toList := by
      cases left with
      | none => rfl
      | some r =>
          have now : r.time = T := split.now r rfl
          simp [now, started, ends]
    unfold Data.entries
    rw [← here, split.split]
    simp only [List.filter_append, List.map_append]
  · intro entry mem
    obtain ⟨r, kept, rfl⟩ := List.mem_map.mp mem
    exact split.later r (List.mem_of_mem_filter kept)

omit [F64 F] in
/-- The first row of the window opens alike, once there is one up to the time. -/
theorem first_congr (started : start ≤ T) (ends : T < end_)
    (A_rows : SplitAt Row.time T A.rows common left leftAfter)
    (B_rows : SplitAt Row.time T B.rows common right rightAfter)
    (price : left.map (fun r => (r.pool, r.hedge)) = right.map fun r => (r.pool, r.hedge))
    (begun : (∃ r ∈ common, start ≤ r.time ∧ r.time < end_) ∨ left ≠ none) :
    (A.rows.find? fun r => start ≤ r.time ∧ r.time < end_).map (fun r => (r.pool, r.hedge)) =
      (B.rows.find? fun r => start ≤ r.time ∧ r.time < end_).map fun r => (r.pool, r.hedge) := by
  rw [A_rows.split, B_rows.split]
  simp only [List.find?_append]
  cases found : common.find? fun r => start ≤ r.time ∧ r.time < end_ with
  | some r => rfl
  | none =>
      have missing : ¬∃ r ∈ common, start ≤ r.time ∧ r.time < end_ := by
        simpa [List.find?_eq_none] using found
      cases left with
      | none => exact absurd rfl (begun.resolve_left missing)
      | some a =>
          cases right with
          | none => cases price
          | some b =>
              have a_now : a.time = T := A_rows.now a rfl
              have b_now : b.time = T := B_rows.now b rfl
              simpa [a_now, b_now, started, ends] using price

theorem begin_congr (step : A.step = B.step)
    (first : (A.rows.find? fun r => start ≤ r.time ∧ r.time < end_).map
        (fun r => (r.pool, r.hedge)) =
      (B.rows.find? fun r => start ≤ r.time ∧ r.time < end_).map fun r => (r.pool, r.hedge)) :
    begin_ s leverage A start end_ feeRate = begin_ s leverage B start end_ feeRate := by
  unfold begin_
  simp only [step]
  cases A_first : A.rows.find? fun r => start ≤ r.time ∧ r.time < end_ with
  | none =>
      rw [A_first, Option.map_none, eq_comm, Option.map_eq_none_iff] at first
      rw [first]
  | some a =>
      rw [A_first, Option.map_some, eq_comm, Option.map_eq_some_iff] at first
      obtain ⟨b, B_first, opening⟩ := first
      obtain ⟨pool, hedge⟩ := Prod.mk.inj opening
      rw [B_first, Research.context_some_bind, Research.context_some_bind, pool, hedge]

variable [FloorRing F]

/-- A month replay does not look ahead. -/
theorem replay_sameUntil (A_ordered : A.Chronological) (B_ordered : B.Chronological)
    (agree : A.AgreeUntil T B) (started : start ≤ T) (ends : T < end_) :
    SameUntil (fun entry : Entry F => entry.row.time) T
      (replay s leverage A start end_ feeRate) (replay s leverage B start end_ feeRate) := by
  obtain ⟨common, left, right, leftAfter, rightAfter, A_rows, B_rows, price⟩ :=
    splitAt_of_agree A_ordered.rows B_ordered.rows agree.rows agree.opening
  obtain ⟨A_after, A_entries, A_later⟩ := entries_split started ends A_rows
  obtain ⟨B_after, B_entries, B_later⟩ := entries_split started ends B_rows
  unfold replay
  by_cases begun : (∃ r ∈ common, start ≤ r.time ∧ r.time < end_) ∨ left ≠ none
  · have first := first_congr started ends A_rows B_rows price begun
    have entries : (common.filter fun r => start ≤ r.time ∧ r.time < end_).map A.entry =
        (common.filter fun r => start ≤ r.time ∧ r.time < end_).map B.entry := by
      apply List.map_congr_left
      intro r kept
      have earlier := A_rows.earlier r (List.mem_of_mem_filter kept)
      obtain ⟨closed, funding⟩ := entry_congr A_ordered B_ordered agree (a := r) rfl earlier.le
      calc A.entry r = ⟨r, (A.entry r).closed, (A.entry r).funding⟩ := rfl
        _ = B.entry r := by rw [closed, funding]; rfl
    rw [begin_congr agree.step first, A_entries, B_entries, entries]
    cases begin_ s leverage B start end_ feeRate with
    | error _ => exact .refl []
    | ok opening =>
        refine Player.playAll_sameUntil ?_ ?_ ?_ A_later B_later ?_
        · intro entry mem
          obtain ⟨r, kept, rfl⟩ := List.mem_map.mp mem
          exact B_rows.earlier r (List.mem_of_mem_filter kept)
        · intro entry mem
          obtain ⟨r, now, rfl⟩ := Option.map_eq_some_iff.mp mem
          exact A_rows.now r now
        · intro entry mem
          obtain ⟨r, now, rfl⟩ := Option.map_eq_some_iff.mp mem
          exact B_rows.now r now
        · intro next
          cases left with
          | none =>
              cases right with
              | none => rfl
              | some b => cases price
          | some a =>
              cases right with
              | none => cases price
              | some b =>
                  have a_now : a.time = T := A_rows.now a rfl
                  have b_now : b.time = T := B_rows.now b rfl
                  have time : a.time = b.time := a_now.trans b_now.symm
                  obtain ⟨pool, hedge⟩ := Prod.mk.inj (Option.some.inj price)
                  obtain ⟨closed, funding⟩ :=
                    entry_congr A_ordered B_ordered agree time b_now.le
                  have same : SameOpening (A.entry a) (B.entry b) :=
                    ⟨time, pool, hedge, closed, funding⟩
                  exact congrArg some (congrArg Except.ok (decide_congr same))
  · obtain ⟨none_common, none_left⟩ := not_or.mp begun
    have window : ∀ data : Data F,
        (common.filter fun r => start ≤ r.time ∧ r.time < end_).map data.entry = [] := by
      intro data
      rw [List.map_eq_nil_iff, List.filter_eq_nil_iff]
      intro r mem
      simp only [decide_eq_true_eq]
      intro inside
      exact none_common ⟨r, mem, inside⟩
    have left_none : left = none := not_not.mp none_left
    have right_none : right = none := by
      rw [left_none, Option.map_none, eq_comm, Option.map_eq_none_iff] at price
      exact price
    rw [A_entries, B_entries, window, window, left_none, right_none]
    simp only [Option.map_none, Option.toList_none, List.nil_append]
    apply SameUntil.of_later
    · intro played mem
      cases opening : begin_ s leverage A start end_ feeRate with
      | error _ => simp [opening] at mem
      | ok opened =>
          simp only [opening] at mem
          exact A_later _ (Player.row_mem_of_mem_playAll mem)
    · intro played mem
      cases opening : begin_ s leverage B start end_ feeRate with
      | error _ => simp [opening] at mem
      | ok opened =>
          simp only [opening] at mem
          exact B_later _ (Player.row_mem_of_mem_playAll mem)

end Backtest

/-- Neither simulator looks ahead, and the cached signal at a time reads the hedge candles
closed before it. -/
theorem no_look_ahead [FloorRing F] {c : Research.Config F} {A B : Research.Data F}
    {P Q : Backtest.Data F} {T start end_ : Nat} {apr costMultiplier : F} {curve : Bool}
    {account : Option F} {leverage : Nat} {feeRate : F} (started : start ≤ T) (ends : T < end_)
    (A_ordered : A.Chronological) (B_ordered : B.Chronological) (agree : A.AgreeUntil T B)
    (P_ordered : P.Chronological) (Q_ordered : Q.Chronological) (month : P.AgreeUntil T Q) :
    SameUntil Research.Row.time T
        (Research.replay c A (Research.cachedSignals c A) start end_ apr costMultiplier curve
          account)
        (Research.replay c B (Research.cachedSignals c B) start end_ apr costMultiplier curve
          account) ∧
      SameUntil (fun entry : Backtest.Entry F => entry.row.time) T
        (Backtest.replay c.strategy leverage P start end_ feeRate)
        (Backtest.replay c.strategy leverage Q start end_ feeRate) ∧
      ∀ C D : Research.Data F, C.Chronological → D.Chronological →
        (C.hedge.filter fun h => h.closeMs < T) = (D.hedge.filter fun h => h.closeMs < T) →
        Research.signalAt c C T = Research.signalAt c D T := by
  refine ⟨?_, ?_, ?_⟩
  · exact Research.replay_sameUntil A_ordered B_ordered agree started ends
  · exact Backtest.replay_sameUntil P_ordered Q_ordered month started ends
  · intro C D C_ordered D_ordered closed
    exact Research.signalAt_congr C_ordered D_ordered closed

namespace Shipped

/-- Two hourly bars at one price, the second of which closes at `close`. -/
def closingAt (close : ℚ) : Research.Data ℚ where
  stepMs := 3600000
  intrabarStress := true
  pool := [fiveMinutes 3600 100, ⟨7200, 100, max 100 close, min 100 close, close⟩]
  hedge := [⟨3600000, 7199999, 100, 100, 100, 100⟩,
    ⟨7200000, 10799999, 100, max 100 close, min 100 close, close⟩]
  funding := fun _ => some 0

/-- The same bars as rows of a month. -/
def monthClosingAt (close : ℚ) : Backtest.Data ℚ where
  rows := [⟨3600000, 100, 100, 0, true, 100, 100⟩, ⟨7200000, 100, 100, 0, true, close, close⟩]
  hourly := (closingAt close).hedge
  funding := []
  step := 3600000

variable {x y : ℚ}

theorem closingAt_chronological : (closingAt x).Chronological where
  pool := by
    simp only [closingAt, fiveMinutes, List.pairwise_pair]
    norm_num
  opens := by
    simp only [closingAt, List.pairwise_pair]
    norm_num
  closes := by
    simp only [closingAt, List.pairwise_pair]
    norm_num
  candles := by
    simp only [closingAt, List.forall_mem_cons, List.not_mem_nil, false_imp_iff, implies_true,
      and_true]
    norm_num

theorem monthClosingAt_chronological : (monthClosingAt x).Chronological where
  rows := by
    simp only [monthClosingAt, List.pairwise_pair]
    norm_num
  candles := closingAt_chronological.candles

theorem closingAt_agree : (closingAt x).AgreeUntil 7200000 (closingAt y) where
  stepMs := rfl
  intrabarStress := rfl
  pool := by norm_num [closingAt, fiveMinutes]
  poolOpening := by norm_num [closingAt, fiveMinutes]
  hedge := by norm_num [closingAt]
  hedgeOpening := by norm_num [closingAt]
  funding _ _ := rfl

theorem monthClosingAt_agree : (monthClosingAt x).AgreeUntil 7200000 (monthClosingAt y) where
  step := rfl
  rows := by norm_num [monthClosingAt]
  opening := by norm_num [monthClosingAt]
  hourly := closingAt_agree.hedge
  funding := rfl

/-- A close which the second bar does not know. -/
theorem no_look_ahead_of_close :
    (closingAt 100).pool ≠ (closingAt 50).pool ∧
      SameUntil Research.Row.time 7200000
        (Research.replay researchConfig (closingAt 100)
          (Research.cachedSignals researchConfig (closingAt 100)) 3600000 10800000 0.4 1 false none)
        (Research.replay researchConfig (closingAt 50)
          (Research.cachedSignals researchConfig (closingAt 50)) 3600000 10800000 0.4 1 false none) := by
  constructor
  · simp [closingAt]
  · exact (@no_look_ahead ℚ _ _ _ _ _ _ _ _ _ _ _ _ _ _ 3 0 (by norm_num) (by norm_num)
      closingAt_chronological closingAt_chronological closingAt_agree
      monthClosingAt_chronological monthClosingAt_chronological
      (@monthClosingAt_agree 100 50)).1

end Shipped

end LpMaker
