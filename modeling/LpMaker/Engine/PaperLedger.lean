import Mathlib
import LpMaker.Engine.Paper

/-!
# What the paper ledger can execute

The executor deploys 99.5% of a budget. While the pool fee and the slippage are at most
25 bps, the reserved half percent covers every swap of one decision, so opening layers
and scaling positions in range never run out of quote.
-/

namespace LpMaker.Paper

variable {F : Type} [F64 F] {c : Config F} {paper : Paper F} {p : F}

/-- The wallet holds no negative amounts. -/
structure Solvent (paper : Paper F) : Prop where
  base : 0 ≤ paper.portfolio.walletBase
  quote : 0 ≤ paper.portfolio.walletQuote

/-- A ledger position: liquidity in a range of a configured layer. -/
structure Ranged (c : StrategyConfig F) (pos : LpPosition F) : Prop where
  known : ∃ layer ∈ c.layers, layer.name = pos.layer
  lower : 0 < pos.lower
  upper : pos.lower < pos.upper
  liquidity : 0 < pos.liquidity
  base : 0 ≤ pos.base
  quote : 0 ≤ pos.quote

/-- The invariant of the simulated account. -/
structure Sound (c : StrategyConfig F) (paper : Paper F) : Prop where
  solvent : paper.Solvent
  ranged : ∀ pos ∈ paper.portfolio.positions, Ranged c pos

section Wallet

theorem swapRate_nonneg (c : LiquidityConfig F) : 0 ≤ c.swapRate := by
  unfold LiquidityConfig.swapRate
  positivity

/-- The cost of a swap between two nonnegative balances of bounded value. -/
theorem swap_cost_le {rate target held bound : F} (pricePos : 0 < p) (rateNonneg : 0 ≤ rate)
    (targetNonneg : 0 ≤ target) (heldNonneg : 0 ≤ held) (targetBound : target * p ≤ bound)
    (heldBound : held * p ≤ bound) : |target - held| * p * rate ≤ rate * bound := by
  have distance : |target - held| * p ≤ bound := by
    rcases abs_cases (target - held) with ⟨eq, -⟩ | ⟨eq, -⟩
    · have := mul_nonneg heldNonneg pricePos.le
      rw [eq, sub_mul]
      linarith
    · have := mul_nonneg targetNonneg pricePos.le
      rw [eq, neg_sub, sub_mul]
      linarith
  rw [mul_comm rate]
  exact mul_le_mul_of_nonneg_right distance rateNonneg

/-- At 25 bps a swap costs at most a four-hundredth of its value. -/
theorem swap_le_reserve {x : F} (cheap : c.liquidity.swapRate ≤ 0.0025) (nonneg : 0 ≤ x) :
    400 * (c.liquidity.swapRate * x) ≤ x := by
  have rate : 400 * c.liquidity.swapRate ≤ 1 := by
    norm_num at cheap
    linarith
  have scaled := mul_le_mul_of_nonneg_right rate nonneg
  rwa [mul_assoc, one_mul] at scaled

/-- A quote balance which covers two values and their swaps covers the first and leaves enough
for the second. -/
theorem drained_covers {rate value rest quote : F} (rateNonneg : 0 ≤ rate)
    (restNonneg : 0 ≤ rest) (enough : (1 + rate) * (value + rest) ≤ quote) :
    value + rate * value ≤ quote ∧ (1 + rate) * rest ≤ quote - value - rate * value ∧
      0 ≤ quote - value - rate * value := by
  have product := mul_nonneg rateNonneg restNonneg
  refine ⟨?_, ?_, ?_⟩ <;> linarith

/-- A budget of 99.5% of the wallet leaves the swaps of its first and its later values. -/
theorem reserve_covers {value rest budget worth : F} (cheap : c.liquidity.swapRate ≤ 0.0025)
    (worthNonneg : 0 ≤ worth) (valueNonneg : 0 ≤ value) (restNonneg : 0 ≤ rest)
    (split : value + rest ≤ budget) (reserve : 200 * budget ≤ 199 * worth) :
    value ≤ worth ∧ value + c.liquidity.swapRate * worth ≤ worth ∧
      (1 + c.liquidity.swapRate) * rest ≤ worth - value - c.liquidity.swapRate * worth ∧
      0 ≤ worth - value - c.liquidity.swapRate * worth := by
  have swaps := swap_le_reserve cheap worthNonneg
  have restSwaps := swap_le_reserve cheap restNonneg
  refine ⟨?_, ?_, ?_, ?_⟩ <;> linarith

@[simp] theorem swapToBase_walletBase (target : F) :
    (paper.swapToBase target p c).portfolio.walletBase = target := rfl

theorem swapToBase_walletQuote (target : F) :
    (paper.swapToBase target p c).portfolio.walletQuote =
      paper.walletValue p - target * p -
        |target - paper.portfolio.walletBase| * p * c.liquidity.swapRate := by
  simp only [swapToBase, walletValue]
  ring

/-- Buying holdings worth `value` leaves at least the wallet value less `value` and the swap
cost, all of it in quote. -/
theorem buy_le {held : F × F} {value bound : F} (pricePos : 0 < p)
    (walletBase : 0 ≤ paper.portfolio.walletBase) (heldNonneg : 0 ≤ held.1 ∧ 0 ≤ held.2)
    (worth : Math.worth held p = value) (valueBound : value ≤ bound)
    (walletBound : paper.portfolio.walletBase * p ≤ bound)
    (enough : value + c.liquidity.swapRate * bound ≤ paper.walletValue p) :
    held.2 ≤ (paper.swapToBase held.1 p c).portfolio.walletQuote ∧
      ((paper.swapToBase held.1 p c).spend held).portfolio.walletBase = 0 ∧
      paper.walletValue p - value - c.liquidity.swapRate * bound ≤
        ((paper.swapToBase held.1 p c).spend held).portfolio.walletQuote := by
  have heldBound : held.1 * p ≤ bound := by
    rw [Math.worth] at worth
    linarith [heldNonneg.2]
  have cost := swap_cost_le pricePos (swapRate_nonneg c.liquidity) heldNonneg.1 walletBase
    heldBound walletBound
  rw [Math.worth] at worth
  have quote : (paper.swapToBase held.1 p c).portfolio.walletQuote = _ :=
    swapToBase_walletQuote held.1
  refine ⟨?_, sub_self _, ?_⟩
  · rw [quote]
    linarith
  · show _ ≤ (paper.swapToBase held.1 p c).portfolio.walletQuote - held.2
    rw [quote]
    linarith

theorem walletBase_le_walletValue (solvent : paper.Solvent) :
    paper.portfolio.walletBase * p ≤ paper.walletValue p :=
  le_add_of_nonneg_right solvent.quote

theorem walletValue_nonneg (solvent : paper.Solvent) (pricePos : 0 < p) :
    0 ≤ paper.walletValue p :=
  add_nonneg (mul_nonneg solvent.base pricePos.le) solvent.quote

end Wallet

section Open

variable [ExactArithmetic F] {widths : Option (F × F)} {value : F} {layer : LayerConfig F}

/-- A position which was opened for `layer` at price `p` with the given value. -/
structure Opened (widths : Option (F × F)) (p value : F) (layer : LayerConfig F)
    (pos : LpPosition F) : Prop where
  name : pos.layer = layer.name
  lower : pos.lower = (rangeOf widths p layer).1
  upper : pos.upper = (rangeOf widths p layer).2
  ordered : 0 < pos.lower ∧ pos.lower < pos.upper
  liquidity : 0 < pos.liquidity
  marked : (pos.base, pos.quote) = Math.amounts pos.liquidity pos.lower pos.upper p
  worth : pos.base * p + pos.quote = value

/-- What an opened layer adds to the ledger. -/
theorem openLayer_inv {after : Paper F} (opened : openLayer c widths p value layer paper = .ok after) :
    ∃ pos, after.portfolio.positions = paper.portfolio.positions ++ [pos] ∧
      Opened widths p value layer pos := by
  obtain ⟨liquidity, computed, opened⟩ := bind_eq_ok.mp opened
  obtain ⟨-, opened⟩ := check_bind_eq_ok.mp opened
  cases opened
  obtain ⟨worth, liquidityPos⟩ := Math.worth_of_liquidityForValue computed
  obtain ⟨checked, -⟩ := check_bind_eq_ok.mp computed
  obtain ⟨positive, ordered⟩ := ensure_eq_ok.mp checked
  refine ⟨_, rfl, ⟨rfl, rfl, rfl, ⟨(positive _ (by simp)).2, ordered⟩, liquidityPos, rfl, worth⟩⟩

/-- The opened positions match the layers one by one. -/
theorem openLayers_inv {budget total : F} {layers : List (LayerConfig F)} {after : Paper F}
    (opened : openLayers c widths p budget total layers paper = .ok after) :
    ∃ fresh, after.portfolio.positions = paper.portfolio.positions ++ fresh ∧
      List.Forall₂ (fun layer pos => Opened widths p (budget * layer.weight / total) layer pos)
        layers fresh := by
  induction layers generalizing paper with
  | nil =>
      cases opened
      exact ⟨[], (List.append_nil _).symm, .nil⟩
  | cons layer rest inductionHypothesis =>
      obtain ⟨middle, first, opened⟩ := bind_eq_ok.mp opened
      obtain ⟨pos, added, here⟩ := openLayer_inv first
      obtain ⟨fresh, later, others⟩ := inductionHypothesis opened
      refine ⟨pos :: fresh, ?_, .cons here others⟩
      rw [later, added, List.append_assoc]
      rfl

/-- A layer can be opened when the wallet covers its value and the swap. -/
theorem openLayer_ok {bound : F} (pricePos : 0 < p) (valuePos : 0 < value)
    (ordered : 0 < (rangeOf widths p layer).1 ∧
      (rangeOf widths p layer).1 < (rangeOf widths p layer).2)
    (walletBase : 0 ≤ paper.portfolio.walletBase) (valueBound : value ≤ bound)
    (walletBound : paper.portfolio.walletBase * p ≤ bound)
    (enough : value + c.liquidity.swapRate * bound ≤ paper.walletValue p) :
    ∃ after, openLayer c widths p value layer paper = .ok after ∧
      after.portfolio.walletBase = 0 ∧
      paper.walletValue p - value - c.liquidity.swapRate * bound ≤
        after.portfolio.walletQuote := by
  obtain ⟨liquidity, computed⟩ :=
    Math.liquidityForValue_of_pos valuePos ordered.1 ordered.2 pricePos
  obtain ⟨worth, liquidityPos⟩ := Math.worth_of_liquidityForValue computed
  have heldNonneg := Math.amounts_nonneg p liquidityPos.le ordered.1 ordered.2
  obtain ⟨quote, base, left⟩ := buy_le (c := c) pricePos walletBase heldNonneg worth valueBound
    walletBound enough
  refine ⟨_, bind_eq_ok.mpr ⟨liquidity, computed, check_bind_eq_ok.mpr
    ⟨ensure_eq_ok.mpr ?_, rfl⟩⟩, base, left⟩
  have cushion : (0 : F) ≤ 1e-6 := by norm_num
  exact quote.trans (le_add_of_nonneg_right cushion)

/-- From a wallet of quote only, layers can be opened within their total and its swaps. -/
theorem openLayers_ok_of_drained {budget total : F} {layers : List (LayerConfig F)}
    (pricePos : 0 < p) (budgetPos : 0 < budget) (totalPos : 0 < total)
    (allowed : ∀ layer ∈ layers, 0 < layer.weight ∧ 0 < (rangeOf widths p layer).1 ∧
      (rangeOf widths p layer).1 < (rangeOf widths p layer).2)
    (walletBase : paper.portfolio.walletBase = 0)
    (enough : (1 + c.liquidity.swapRate) * (budget * weightSum layers / total) ≤
      paper.portfolio.walletQuote) (quoteNonneg : 0 ≤ paper.portfolio.walletQuote) :
    ∃ after, openLayers c widths p budget total layers paper = .ok after ∧ after.Solvent := by
  induction layers generalizing paper with
  | nil => exact ⟨paper, rfl, walletBase.ge, quoteNonneg⟩
  | cons layer rest inductionHypothesis =>
      obtain ⟨⟨weightPos, ordered⟩, others⟩ := List.forall_mem_cons.mp allowed
      set value := budget * layer.weight / total with valueEq
      have valuePos : 0 < value := div_pos (mul_pos budgetPos weightPos) totalPos
      have split : budget * weightSum (layer :: rest) / total =
          value + budget * weightSum rest / total := by
        rw [valueEq, weightSum, List.map_cons, List.sum_cons, ← weightSum, mul_add, add_div]
      have restNonneg : 0 ≤ budget * weightSum rest / total := by
        have : 0 ≤ weightSum rest :=
          List.sum_nonneg (by simpa using fun layer mem => (others layer mem).1.le)
        positivity
      have worth : paper.walletValue p = paper.portfolio.walletQuote := by
        rw [walletValue, walletBase, zero_mul, zero_add]
      rw [split] at enough
      obtain ⟨first, later, leftNonneg⟩ :=
        drained_covers (swapRate_nonneg c.liquidity) restNonneg enough
      rw [← worth] at first later leftNonneg
      obtain ⟨after, opened, base, left⟩ := openLayer_ok pricePos valuePos ordered
        walletBase.ge le_rfl (by rw [walletBase, zero_mul]; exact valuePos.le) first
      obtain ⟨final, rest, solvent⟩ :=
        inductionHypothesis others base (later.trans left) (leftNonneg.trans left)
      exact ⟨final, bind_eq_ok.mpr ⟨after, opened, rest⟩, solvent⟩

/-- The executor's reserve covers the swaps of opening layers worth at most the budget. -/
theorem openLayers_ok (widths : Option (F × F)) {budget total : F} {layers : List (LayerConfig F)}
    (pricePos : 0 < p) (cheap : c.liquidity.swapRate ≤ 0.0025) (solvent : paper.Solvent)
    (budgetPos : 0 < budget) (reserve : 200 * budget ≤ 199 * paper.walletValue p)
    (totalPos : 0 < total) (within : weightSum layers ≤ total)
    (allowed : ∀ layer ∈ layers, 0 < layer.weight ∧ 0 < (rangeOf widths p layer).1 ∧
      (rangeOf widths p layer).1 < (rangeOf widths p layer).2) :
    ∃ after, openLayers c widths p budget total layers paper = .ok after ∧ after.Solvent := by
  cases layers with
  | nil => exact ⟨paper, rfl, solvent⟩
  | cons layer rest =>
      obtain ⟨⟨weightPos, ordered⟩, others⟩ := List.forall_mem_cons.mp allowed
      set value := budget * layer.weight / total with valueEq
      have valuePos : 0 < value := div_pos (mul_pos budgetPos weightPos) totalPos
      have restNonneg : 0 ≤ budget * weightSum rest / total := by
        have : 0 ≤ weightSum rest :=
          List.sum_nonneg (by simpa using fun layer mem => (others layer mem).1.le)
        positivity
      -- The values of all layers together are at most the budget.
      have split : value + budget * weightSum rest / total ≤ budget := by
        have sum : value + budget * weightSum rest / total =
            budget * weightSum (layer :: rest) / total := by
          rw [valueEq, weightSum, weightSum, List.map_cons, List.sum_cons, mul_add, add_div]
        rw [sum, div_le_iff₀ totalPos]
        exact mul_le_mul_of_nonneg_left within budgetPos.le
      obtain ⟨bounded, first, later, leftNonneg⟩ := reserve_covers cheap
        (walletValue_nonneg solvent pricePos) valuePos.le restNonneg split reserve
      obtain ⟨after, opened, base, left⟩ := openLayer_ok pricePos valuePos ordered
        solvent.base bounded (walletBase_le_walletValue solvent) first
      obtain ⟨final, rest, finalSolvent⟩ := openLayers_ok_of_drained pricePos budgetPos totalPos
        others base (later.trans left) (leftNonneg.trans left)
      exact ⟨final, bind_eq_ok.mpr ⟨after, opened, rest⟩, finalSolvent⟩

end Open

section Remove

theorem remove_solvent (sound : Sound c.strategy paper) (names : List String) :
    (paper.remove names).Solvent where
  base := add_nonneg sound.solvent.base (List.sum_nonneg (by
    simp only [List.mem_map, List.mem_filter, forall_exists_index, and_imp]
    rintro _ pos mem - rfl
    exact (sound.ranged pos mem).base))
  quote := add_nonneg sound.solvent.quote (List.sum_nonneg (by
    simp only [List.mem_map, List.mem_filter, forall_exists_index, and_imp]
    rintro _ pos mem - rfl
    exact (sound.ranged pos mem).quote))

/-- Closing positions keeps the invariant. -/
theorem remove_sound (sound : Sound c.strategy paper) (names : List String) :
    Sound c.strategy (paper.remove names) :=
  ⟨remove_solvent sound names, fun pos mem => sound.ranged pos (List.mem_of_mem_filter mem)⟩

/-- Closing positions never lowers the wallet value. -/
theorem walletValue_le_remove (pricePos : 0 < p) (sound : Sound c.strategy paper)
    (names : List String) : paper.walletValue p ≤ (paper.remove names).walletValue p := by
  have baseNonneg : 0 ≤ ((paper.portfolio.positions.filter fun pos =>
      pos.layer ∈ names).map LpPosition.base).sum := List.sum_nonneg (by
    simp only [List.mem_map, List.mem_filter, forall_exists_index, and_imp]
    rintro _ pos mem - rfl
    exact (sound.ranged pos mem).base)
  have quoteNonneg : 0 ≤ ((paper.portfolio.positions.filter fun pos =>
      pos.layer ∈ names).map LpPosition.quote).sum := List.sum_nonneg (by
    simp only [List.mem_map, List.mem_filter, forall_exists_index, and_imp]
    rintro _ pos mem - rfl
    exact (sound.ranged pos mem).quote)
  have product := mul_nonneg baseNonneg pricePos.le
  simp only [walletValue, remove]
  linarith

end Remove

section Scale

variable [ExactArithmetic F] {pos : LpPosition F} {value : F}

/-- What an increase adds to a position and takes from the wallet. -/
theorem increase_inv {scaled : LpPosition F × Paper F}
    (increased : increase c p value pos paper = .ok scaled) :
    ∃ added, scaled.1 = markPosition p { pos with liquidity := pos.liquidity + added } ∧
      Math.worth (Math.amounts added pos.lower pos.upper p) p = value ∧ 0 < added ∧
      scaled.2.portfolio.positions = paper.portfolio.positions := by
  obtain ⟨-, increased⟩ := check_bind_eq_ok.mp increased
  obtain ⟨added, computed, increased⟩ := bind_eq_ok.mp increased
  obtain ⟨-, increased⟩ := check_bind_eq_ok.mp increased
  cases increased
  obtain ⟨worth, addedPos⟩ := Math.worth_of_liquidityForValue computed
  exact ⟨added, rfl, worth, addedPos, rfl⟩

/-- A marked position with more liquidity stays in its range. -/
theorem markPosition_ranged {liquidity : F} (ranged : Ranged c.strategy pos)
    (positive : 0 < liquidity) :
    Ranged c.strategy (markPosition p { pos with liquidity := liquidity }) := by
  obtain ⟨base, quote⟩ := Math.amounts_nonneg p positive.le ranged.lower ranged.upper
  exact ⟨ranged.known, ranged.lower, ranged.upper, positive, base, quote⟩

/-- A position in range can be increased within 99.5% of the wallet. -/
theorem increase_ok (pricePos : 0 < p) (cheap : c.liquidity.swapRate ≤ 0.0025)
    (solvent : paper.Solvent) (ranged : Ranged c.strategy pos)
    (inside : pos.lower < p ∧ p < pos.upper) (valuePos : 0 < value)
    (reserve : 200 * value ≤ 199 * paper.walletValue p) :
    ∃ scaled, increase c p value pos paper = .ok scaled ∧ Ranged c.strategy scaled.1 ∧
      scaled.2.Solvent := by
  obtain ⟨added, computed⟩ :=
    Math.liquidityForValue_of_pos valuePos ranged.lower ranged.upper pricePos
  obtain ⟨worth, addedPos⟩ := Math.worth_of_liquidityForValue computed
  have spentNonneg := Math.amounts_nonneg p addedPos.le ranged.lower ranged.upper
  obtain ⟨bounded, enough, -, leftNonneg⟩ := reserve_covers cheap
    (walletValue_nonneg solvent pricePos) valuePos.le (le_refl (0 : F)) (add_zero value).le reserve
  obtain ⟨quote, base, left⟩ := buy_le (c := c) pricePos solvent.base spentNonneg worth bounded
    (walletBase_le_walletValue solvent) enough
  refine ⟨_, check_bind_eq_ok.mpr ⟨ensure_eq_ok.mpr inside, bind_eq_ok.mpr ⟨added, computed,
    check_bind_eq_ok.mpr ⟨ensure_eq_ok.mpr quote, rfl⟩⟩⟩, ?_, ⟨base.ge, leftNonneg.trans left⟩⟩
  exact markPosition_ranged ranged (add_pos ranged.liquidity addedPos)

/-- The refusal to scale a position outside its range. -/
def outOfRange : String := "cannot scale an out-of-range paper position"

/-- Scaling a position succeeds or refuses a position outside its range. -/
theorem scalePosition_cases (fraction : F) (pricePos : 0 < p) (cheap : c.liquidity.swapRate ≤ 0.0025)
    (solvent : paper.Solvent) (ranged : Ranged c.strategy pos) :
    (∃ scaled, scalePosition c fraction p pos paper = .ok scaled ∧ Ranged c.strategy scaled.1 ∧
        scaled.2.Solvent) ∨
      scalePosition c fraction p pos paper = .error outOfRange ∧
        ¬(pos.lower < p ∧ p < pos.upper) := by
  obtain ⟨layer, found⟩ : ∃ layer, c.strategy.layers.find? (fun l => l.name = pos.layer) =
      some layer := by
    obtain ⟨layer, mem, name⟩ := ranged.known
    exact Option.isSome_iff_exists.mp (List.find?_isSome.mpr ⟨layer, mem, by simpa using name⟩)
  unfold scalePosition
  rw [found]
  dsimp only
  set value := scaleValue c.strategy fraction p layer pos paper with valueEq
  by_cases small : value < 10
  · rw [if_pos small]
    exact .inl ⟨_, rfl, ranged, solvent⟩
  · rw [if_neg small]
    by_cases inside : pos.lower < p ∧ p < pos.upper
    · left
      apply increase_ok pricePos cheap solvent ranged inside
      · exact lt_of_lt_of_le (by norm_num) (not_lt.mp small)
      · rw [valueEq, scaleValue]
        have least := min_le_right (c.strategy.lpBudget * fraction * layer.weight -
          (pos.base * p + pos.quote)) (paper.walletValue p)
        norm_num
        linarith
    · right
      refine ⟨?_, inside⟩
      simp only [increase, ensure, gt_iff_lt, if_neg inside]
      rfl

/-- Scaling positions succeeds or refuses one of them which is outside its range. -/
theorem scalePositions_cases (fraction : F) (pricePos : 0 < p) (cheap : c.liquidity.swapRate ≤ 0.0025)
    {positions : List (LpPosition F)}
    (solvent : paper.Solvent) (ranged : ∀ pos ∈ positions, Ranged c.strategy pos) :
    (∃ scaled, scalePositions c fraction p positions paper = .ok scaled ∧
        (∀ pos ∈ scaled.1, Ranged c.strategy pos) ∧ scaled.2.Solvent) ∨
      scalePositions c fraction p positions paper = .error outOfRange ∧
        ∃ pos ∈ positions, ¬(pos.lower < p ∧ p < pos.upper) := by
  induction positions generalizing paper with
  | nil => exact .inl ⟨_, rfl, nofun, solvent⟩
  | cons pos rest inductionHypothesis =>
      obtain ⟨first, others⟩ := List.forall_mem_cons.mp ranged
      rcases scalePosition_cases fraction pricePos cheap solvent first with
        ⟨scaled, done, kept, left⟩ | ⟨refused, outside⟩
      · rcases inductionHypothesis left others with
          ⟨scaledRest, doneRest, keptRest, leftRest⟩ | ⟨refused, later, mem, outside⟩
        · left
          refine ⟨_, bind_eq_ok.mpr ⟨scaled, done, bind_eq_ok.mpr ⟨scaledRest, doneRest, rfl⟩⟩,
            List.forall_mem_cons.mpr ⟨kept, keptRest⟩, leftRest⟩
        · right
          exact ⟨bind_eq_error.mpr (.inr ⟨scaled, done, bind_eq_error.mpr (.inl refused)⟩),
            later, List.mem_cons_of_mem _ mem, outside⟩
      · right
        exact ⟨bind_eq_error.mpr (.inl refused), pos, List.mem_cons_self, outside⟩

end Scale

section Runs

variable [ExactArithmetic F] {hedge : F} {now : Nat} {d : Decision F}

/-- The ranges that layers open in, and their weights. -/
structure Layered (c : StrategyConfig F) : Prop where
  weight : ∀ layer ∈ c.layers, 0 < layer.weight
  width : ∀ layer ∈ c.layers, 0 < layer.halfWidth

omit [ExactArithmetic F] in
theorem Layered.range (layered : Layered c.strategy) (pricePos : 0 < p)
    {layer : LayerConfig F} (mem : layer ∈ c.strategy.layers) :
    0 < (rangeOf none p layer).1 ∧ (rangeOf none p layer).1 < (rangeOf none p layer).2 := by
  obtain ⟨positive, below, above⟩ := Math.range_mem pricePos (layered.width layer mem)
  exact ⟨positive, below.trans above⟩

/-- An opened position is a ranged one. -/
theorem Opened.ranged {widths : Option (F × F)} {value : F} {layer : LayerConfig F}
    {pos : LpPosition F} (opened : Opened widths p value layer pos)
    (mem : layer ∈ c.strategy.layers) : Ranged c.strategy pos := by
  obtain ⟨base, quote⟩ := Math.amounts_nonneg p opened.liquidity.le opened.ordered.1
    opened.ordered.2
  rw [← opened.marked] at base quote
  exact ⟨⟨layer, mem, opened.name.symm⟩, opened.ordered.1, opened.ordered.2,
    opened.liquidity, base, quote⟩

omit [F64 F] [ExactArithmetic F] in
/-- Every position of a matched list belongs to some layer. -/
theorem exists_layer_of_mem {Matches : LayerConfig F → LpPosition F → Prop}
    {layers : List (LayerConfig F)} {positions : List (LpPosition F)}
    (matched : List.Forall₂ Matches layers positions) :
    ∀ pos ∈ positions, ∃ layer ∈ layers, Matches layer pos := by
  induction matched with
  | nil => nofun
  | @cons layer pos layers _ here _ inductionHypothesis =>
      refine List.forall_mem_cons.mpr ⟨⟨layer, List.mem_cons_self, here⟩, fun pos mem => ?_⟩
      obtain ⟨layer, layerMem, matched⟩ := inductionHypothesis pos mem
      exact ⟨layer, List.mem_cons_of_mem _ layerMem, matched⟩

/-- Opened positions are ranged ones. -/
theorem openLayers_ranged {widths : Option (F × F)} {budget total : F}
    {layers : List (LayerConfig F)} {after : Paper F}
    (opened : openLayers c widths p budget total layers paper = .ok after)
    (known : ∀ layer ∈ layers, layer ∈ c.strategy.layers)
    (ranged : ∀ pos ∈ paper.portfolio.positions, Ranged c.strategy pos) :
    ∀ pos ∈ after.portfolio.positions, Ranged c.strategy pos := by
  obtain ⟨fresh, positions, matched⟩ := openLayers_inv opened
  intro pos mem
  rw [positions] at mem
  rcases List.mem_append.mp mem with old | new
  · exact ranged pos old
  · obtain ⟨layer, layerMem, opened⟩ := exists_layer_of_mem matched pos new
    exact opened.ranged (known layer layerMem)

omit [F64 F] [ExactArithmetic F] in
theorem namedLayers_subset {names : List String} :
    ∀ layer ∈ namedLayers c.strategy names, layer ∈ c.strategy.layers :=
  fun _ mem => List.mem_of_mem_filter mem

omit [ExactArithmetic F] in
theorem weightSum_pos {layers : List (LayerConfig F)} (layered : Layered c.strategy)
    (known : ∀ layer ∈ layers, layer ∈ c.strategy.layers) (some : layers ≠ []) :
    0 < weightSum layers := by
  obtain ⟨layer, rest, rfl⟩ := List.exists_cons_of_ne_nil some
  have restNonneg : 0 ≤ (rest.map LayerConfig.weight).sum := by
    refine List.sum_nonneg ?_
    simp only [List.mem_map, forall_exists_index, and_imp]
    rintro _ layer mem rfl
    exact (layered.weight layer (known layer (List.mem_cons_of_mem _ mem))).le
  have weight := layered.weight layer (known layer List.mem_cons_self)
  rw [weightSum, List.map_cons, List.sum_cons]
  linarith

omit [ExactArithmetic F] in
theorem reserve_le {limit available : F} :
    200 * (min limit available * 0.995) ≤ 199 * available := by
  have least := min_le_right limit available
  norm_num
  linarith

/-- Reopening named layers succeeds whenever the limit and the wallet are positive. -/
theorem reopen_ok {names : List String} {limit : F → F} (pricePos : 0 < p)
    (cheap : c.liquidity.swapRate ≤ 0.0025) (layered : Layered c.strategy)
    (sound : Sound c.strategy paper) (some : namedLayers c.strategy names ≠ [])
    (worth : 0 < (paper.remove names).walletValue p)
    (limitPos : 0 < limit ((paper.remove names).walletValue p)) :
    ∃ after, reopen c none p names limit paper = .ok after := by
  obtain ⟨after, opened, -⟩ := openLayers_ok none pricePos cheap
    (remove_solvent sound names)
    (mul_pos (lt_min limitPos worth) (by norm_num)) reserve_le
    (weightSum_pos layered namedLayers_subset some) le_rfl
    fun layer mem => ⟨layered.weight layer (namedLayers_subset layer mem),
      layered.range pricePos (namedLayers_subset layer mem)⟩
  exact ⟨after, opened⟩

omit [ExactArithmetic F] in
/-- Opening some layers successfully needs a positive budget. -/
theorem budget_pos {widths : Option (F × F)} {budget : F} {layers : List (LayerConfig F)}
    {after : Paper F} (layered : Layered c.strategy)
    (known : ∀ layer ∈ layers, layer ∈ c.strategy.layers) (some : layers ≠ [])
    (opened : openLayers c widths p budget (weightSum layers) layers paper = .ok after) :
    0 < budget := by
  have totalPos := weightSum_pos layered known some
  obtain ⟨layer, rest, rfl⟩ := List.exists_cons_of_ne_nil some
  obtain ⟨middle, first, -⟩ := bind_eq_ok.mp opened
  obtain ⟨liquidity, computed, -⟩ := bind_eq_ok.mp first
  obtain ⟨checked, -⟩ := check_bind_eq_ok.mp computed
  have valuePos := ((ensure_eq_ok.mp checked).1 _ List.mem_cons_self).2
  have weight := layered.weight layer (known layer List.mem_cons_self)
  rw [gt_iff_lt, div_pos_iff_of_pos_right totalPos] at valuePos
  exact (mul_pos_iff_of_pos_right weight).mp valuePos

/-- Reopening keeps the invariant. -/
theorem reopen_sound {names : List String} {limit : F → F} {after : Paper F} (pricePos : 0 < p)
    (cheap : c.liquidity.swapRate ≤ 0.0025) (layered : Layered c.strategy)
    (sound : Sound c.strategy paper) (reopened : reopen c none p names limit paper = .ok after) :
    Sound c.strategy after := by
  have removed := remove_sound sound names
  refine ⟨?_, openLayers_ranged reopened namedLayers_subset removed.ranged⟩
  by_cases none : namedLayers c.strategy names = []
  · rw [reopen, none] at reopened
    cases reopened
    exact removed.solvent
  · obtain ⟨_, opened, solvent⟩ := openLayers_ok Option.none pricePos cheap
      removed.solvent (budget_pos layered namedLayers_subset none reopened) reserve_le
      (weightSum_pos layered namedLayers_subset none) le_rfl
      fun layer mem => ⟨layered.weight layer (namedLayers_subset layer mem),
        layered.range pricePos (namedLayers_subset layer mem)⟩
    obtain rfl := Except.ok.inj (opened.symm.trans reopened)
    exact solvent

section Sound

omit [ExactArithmetic F]

/-- The wallet and the positions are all the invariant reads. -/
theorem Sound.congr {after : Paper F} (sound : Sound c.strategy paper)
    (base : after.portfolio.walletBase = paper.portfolio.walletBase)
    (quote : after.portfolio.walletQuote = paper.portfolio.walletQuote)
    (positions : after.portfolio.positions = paper.portfolio.positions) :
    Sound c.strategy after :=
  ⟨⟨base ▸ sound.solvent.base, quote ▸ sound.solvent.quote⟩, positions ▸ sound.ranged⟩

/-- The pending hedge order only touches the hedge account. -/
theorem settlePending_portfolio :
    ∃ equity short, (settlePending hedge now c paper).portfolio =
      { paper.portfolio with hedgeEquity := equity, shortBase := short } := by
  unfold settlePending
  split
  · exact ⟨_, _, rfl⟩
  · dsimp only
    split_ifs <;> exact ⟨_, _, rfl⟩

/-- Marking only touches the position values and the hedge account. -/
theorem mark_portfolio (paper : Paper F) (p hedge : F) (now : Nat) (c : Config F) :
    ∃ equity short, (paper.mark p hedge now c).portfolio =
      { paper.portfolio with
        positions := paper.portfolio.positions.map (markPosition p)
        hedgeEquity := equity
        shortBase := short } :=
  settlePending_portfolio

theorem orderHedge_portfolio {widths : Option (F × F)} :
    (paper.orderHedge d c p hedge now widths).portfolio = paper.portfolio := by
  unfold orderHedge
  dsimp only
  split_ifs <;> rfl

/-- Funding only touches the hedge account. -/
theorem applyFunding_sound (rows : List (Nat × F)) (sound : Sound c.strategy paper) :
    Sound c.strategy (paper.applyFunding rows) := by
  induction rows generalizing paper with
  | nil => exact sound
  | cons row rows inductionHypothesis =>
      rw [applyFunding, List.foldl_cons]
      apply inductionHypothesis
      dsimp only
      split_ifs
      · exact sound.congr rfl rfl rfl
      · exact sound

/-- An exit pays its swap out of the quote it receives. -/
theorem exitToQuote_sound (pricePos : 0 < p) (cheap : c.liquidity.swapRate ≤ 0.0025)
    (sound : Sound c.strategy paper) : Sound c.strategy (paper.exitToQuote c p hedge) := by
  set names := paper.portfolio.positions.map LpPosition.layer
  have cleared : Sound c.strategy ({ paper with pending := none } : Paper F) :=
    sound.congr rfl rfl rfl
  have removedSound := remove_sound cleared names
  set removed := ({ paper with pending := none } : Paper F).remove names
  have worthNonneg := walletValue_nonneg removedSound.solvent pricePos
  have swapped : Sound c.strategy (removed.swapToBase 0 p c) := by
    refine ⟨⟨le_rfl, ?_⟩, removedSound.ranged⟩
    have cost := swap_cost_le pricePos (swapRate_nonneg c.liquidity) le_rfl
      removedSound.solvent.base (by rwa [zero_mul])
      (walletBase_le_walletValue (p := p) removedSound.solvent)
    have reserve := swap_le_reserve cheap worthNonneg
    rw [swapToBase_walletQuote, zero_mul]
    linarith
  unfold exitToQuote
  dsimp only
  split_ifs
  · exact swapped.congr rfl rfl rfl
  · exact swapped

end Sound

/-- Marking keeps the invariant. -/
theorem mark_sound (sound : Sound c.strategy paper) :
    Sound c.strategy (paper.mark p hedge now c) := by
  obtain ⟨equity, short, marked⟩ := mark_portfolio paper p hedge now c
  refine ⟨⟨?_, ?_⟩, ?_⟩
  · rw [marked]
    exact sound.solvent.base
  · rw [marked]
    exact sound.solvent.quote
  · rw [marked]
    simp only [List.mem_map, forall_exists_index, and_imp]
    rintro _ pos mem rfl
    exact markPosition_ranged (sound.ranged pos mem) (sound.ranged pos mem).liquidity

/-- Every executed intent keeps the invariant. -/
theorem trade_sound {lp : LpIntent F} {after : Paper F} (pricePos : 0 < p)
    (cheap : c.liquidity.swapRate ≤ 0.0025) (layered : Layered c.strategy)
    (sound : Sound c.strategy paper) (traded : paper.trade lp c p hedge none = .ok after) :
    Sound c.strategy after := by
  cases lp with
  | hold =>
      cases traded
      exact sound
  | exitToQuote =>
      cases traded
      exact exitToQuote_sound pricePos cheap sound
  | deploy fraction =>
      simp only [trade] at traded
      split_ifs at traded with held
      · obtain ⟨scaled, done, traded⟩ := bind_eq_ok.mp traded
        cases traded
        rcases scalePositions_cases fraction pricePos cheap sound.solvent
          sound.ranged with ⟨_, succeeds, ranged, solvent⟩ | ⟨refused, -⟩
        · obtain rfl := Except.ok.inj (succeeds.symm.trans done)
          exact ⟨⟨solvent.base, solvent.quote⟩, ranged⟩
        · cases refused.symm.trans done
      · exact reopen_sound pricePos cheap layered sound traded
  | recenter layers => exact reopen_sound pricePos cheap layered sound traded

omit [ExactArithmetic F] in
/-- Executing a decision executes its intent. -/
theorem apply_eq_ok {after : Paper F}
    (applied : paper.apply d c p hedge now = .ok after) :
    ∃ traded, paper.trade d.lp c p hedge none = .ok traded ∧
      after.portfolio = traded.portfolio := by
  obtain ⟨-, applied⟩ := check_bind_eq_ok.mp applied
  obtain ⟨traded, trading, applied⟩ := bind_eq_ok.mp applied
  refine ⟨traded, trading, ?_⟩
  cases applied
  split_ifs
  · rfl
  · exact orderHedge_portfolio

/-- The accounts a paper run can reach: a new one, marked at positive prices, with funding
settled and with decisions executed. -/
inductive Reached (c : Config F) : Paper F → Prop
  | new (now : Nat) : Reached c (Paper.new c now)
  | mark {paper : Paper F} (reached : Reached c paper) {p hedge : F} (now : Nat)
      (pricePos : 0 < p) : Reached c (paper.mark p hedge now c)
  | funding {paper : Paper F} (reached : Reached c paper) (rows : List (Nat × F)) :
      Reached c (paper.applyFunding rows)
  | apply {paper after : Paper F} (reached : Reached c paper) {d : Decision F} {p hedge : F}
      {now : Nat} (pricePos : 0 < p) (applied : paper.apply d c p hedge now = .ok after) :
      Reached c after

/-- Every reached account is sound. -/
theorem Reached.sound {paper : Paper F} (cheap : c.liquidity.swapRate ≤ 0.0025)
    (layered : Layered c.strategy) (budgetNonneg : 0 ≤ c.strategy.lpBudget)
    (reached : Reached c paper) : Sound c.strategy paper := by
  induction reached with
  | new now => exact ⟨⟨le_rfl, budgetNonneg⟩, nofun⟩
  | mark _ _ _ inductionHypothesis => exact mark_sound inductionHypothesis
  | funding _ rows inductionHypothesis => exact applyFunding_sound rows inductionHypothesis
  | apply _ pricePos applied inductionHypothesis =>
      obtain ⟨traded, trading, portfolio⟩ := apply_eq_ok applied
      have sound := trade_sound pricePos cheap layered inductionHypothesis trading
      exact sound.congr (by rw [portfolio]) (by rw [portfolio]) (by rw [portfolio])

end Runs

end LpMaker.Paper
