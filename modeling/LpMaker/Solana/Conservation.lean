import LpMaker.Solana.Config
import LpMaker.Solana.Simulation

/-!
# The DLMM ledger conserves value

A bin keeps its value at its own price when the price crosses it, and away from the bin prices
only the last price of a path matters. An account therefore loses nothing over an excursion of
the price, and executing a decision costs exactly the swaps, operations and hedge fees it records.
-/

namespace LpMaker.Dlmm

variable {F : Type} [F64 F]

/-- The logarithm of a number from one on is not negative. -/
class LogNonneg (F : Type) [F64 F] : Prop where
  ln_nonneg : ∀ x : F, 1 ≤ x → 0 ≤ F64.ln x

instance : LogNonneg ℚ where
  ln_nonneg x above := by
    change 0 ≤ if x = 1 then 0 else x - 1
    split_ifs
    · exact le_refl _
    · exact sub_nonneg.mpr above

instance : LogNonneg ℝ where
  ln_nonneg _ above := Real.log_nonneg above

theorem binPrice_pos (bin : ℤ) : (0 : F) < binPrice bin := by
  unfold binPrice
  positivity

namespace Bin

variable {b : Bin F} {price : F}

/-- The value of a bin at a price. -/
def value (price : F) (b : Bin F) : F := b.base * price + b.quote

/-- A bin holds only what it converts to at a price. -/
def Settled (price : F) (b : Bin F) : Prop :=
  (binPrice b.id < price → b.base = 0) ∧ (price < binPrice b.id → b.quote = 0)

@[simp] theorem mark_id : (b.mark price).id = b.id := by
  unfold mark
  dsimp only
  split_ifs <;> rfl

/-- Above its price a bin is its value in quote. -/
theorem mark_of_above (above : binPrice b.id < price) :
    b.mark price = ⟨b.id, 0, b.value (binPrice b.id)⟩ := by
  unfold mark
  dsimp only
  rw [if_pos above]
  unfold value
  ring_nf

/-- Below its price a bin is its value in base. -/
theorem mark_of_below (below : price < binPrice b.id) :
    b.mark price = ⟨b.id, b.value (binPrice b.id) / binPrice b.id, 0⟩ := by
  have positive : (binPrice b.id : F) ≠ 0 := (binPrice_pos b.id).ne'
  unfold mark
  dsimp only
  rw [if_neg below.le.not_gt, if_pos below]
  unfold value
  rw [add_div, mul_div_cancel_right₀ _ positive]

theorem mark_at (at_ : price = binPrice b.id) : b.mark price = b := by
  unfold mark
  dsimp only
  rw [if_neg at_.le.not_gt, if_neg at_.ge.not_gt]

/-- Marking keeps the value at the bin's own price. -/
theorem mark_value : (b.mark price).value (binPrice b.id) = b.value (binPrice b.id) := by
  rcases lt_trichotomy (binPrice b.id) price with above | at_ | below
  · rw [mark_of_above above]
    simp [value]
  · rw [mark_at at_.symm]
  · rw [mark_of_below below]
    simp [value, (binPrice_pos b.id).ne']

theorem mark_settled : (b.mark price).Settled price := by
  unfold Settled
  rw [mark_id]
  constructor
  · intro above
    rw [mark_of_above above]
  · intro below
    rw [mark_of_below below]

theorem Settled.mark_eq (settled : b.Settled price) : b.mark price = b := by
  obtain ⟨id, base, quote⟩ := b
  rcases lt_trichotomy (binPrice id) price with above | at_ | below
  · have none : base = 0 := settled.1 above
    rw [mark_of_above above, none]
    simp [value]
  · exact mark_at at_.symm
  · have none : quote = 0 := settled.2 below
    rw [mark_of_below below, none]
    simp [value, (binPrice_pos (F := F) id).ne']

/-- An earlier price leaves no trace, except at the bin's own price. -/
theorem mark_mark (away : price ≠ binPrice b.id) (earlier : F) :
    (b.mark earlier).mark price = b.mark price := by
  rcases lt_or_gt_of_ne away with below | above
  · rw [mark_of_below below, mark_of_below (by rwa [mark_id]), mark_id, mark_value]
  · rw [mark_of_above above, mark_of_above (by rwa [mark_id]), mark_id, mark_value]

/-- A settled bin is worth the same after an excursion of the price. -/
theorem Settled.excursion (settled : b.Settled price) (low : F) :
    ((b.mark low).mark price).value price = b.value price := by
  by_cases away : price = binPrice b.id
  · rw [mark_at (by rwa [mark_id]), away, mark_value]
  · rw [mark_mark away, settled.mark_eq]

end Bin

namespace PaperPosition

variable {position : PaperPosition F} {price : F}

/-- The value of a position at a price. -/
def value (price : F) (position : PaperPosition F) : F :=
  (position.bins.map (Bin.value price)).sum

def Settled (price : F) (position : PaperPosition F) : Prop :=
  ∀ b ∈ position.bins, b.Settled price

theorem position_value :
    position.position.base * price + position.position.quote = position.value price := by
  unfold PaperPosition.position value
  induction position.bins with
  | nil => simp
  | cons b bins inductionHypothesis =>
      simp only [List.map_cons, List.sum_cons, Bin.value] at inductionHypothesis ⊢
      rw [← inductionHypothesis]
      ring

theorem mark_settled : (position.mark price).Settled price :=
  List.forall_mem_map.mpr fun _ _ => Bin.mark_settled

theorem Settled.excursion (settled : position.Settled price) (low : F) :
    ((position.mark low).mark price).value price = position.value price := by
  unfold value mark
  rw [List.map_map, List.map_map]
  congr 1
  apply List.map_congr_left
  intro b mem
  exact (settled b mem).excursion low

/-- The last price of a path decides. -/
theorem mark_path (away : ∀ b ∈ position.bins, price ≠ binPrice b.id) (path : List F) :
    (path.foldl (fun position earlier => position.mark earlier) position).mark price =
      position.mark price := by
  induction path generalizing position with
  | nil => rfl
  | cons earlier path inductionHypothesis =>
      have away' : ∀ b ∈ (position.mark earlier).bins, price ≠ binPrice b.id := by
        unfold mark
        rw [List.forall_mem_map]
        intro b mem
        rw [Bin.mark_id]
        exact away b mem
      rw [List.foldl_cons, inductionHypothesis away']
      unfold mark
      rw [List.map_map]
      congr 1
      apply List.map_congr_left
      intro b mem
      exact Bin.mark_mark (away b mem) earlier

end PaperPosition

namespace Paper

variable {paper : Paper F} {s : StrategyConfig F} {price hedge : F}

/-- What the positions are worth. -/
def holdings (price : F) (paper : Paper F) : F :=
  (paper.positions.map (PaperPosition.value price)).sum

theorem equity_eq :
    (paper.portfolio s).equity price =
      paper.holdings price + paper.cash + paper.hedgeEquity + s.reserve := by
  unfold holdings Portfolio.equity Portfolio.base portfolio
  dsimp only
  induction paper.positions with
  | nil => simp
  | cons position positions inductionHypothesis =>
      simp only [List.map_cons, List.sum_cons, ← PaperPosition.position_value]
        at inductionHypothesis ⊢
      linear_combination inductionHypothesis

/-- The account is marked at a price of the pool and of the hedge. -/
structure Settled (price hedge : F) (paper : Paper F) : Prop where
  positions : ∀ position ∈ paper.positions, position.Settled price
  lastHedge : paper.lastHedge = hedge

theorem mark_settled : (paper.mark price hedge).Settled price hedge where
  positions := List.forall_mem_map.mpr fun _ _ => PaperPosition.mark_settled
  lastHedge := rfl

theorem Settled.funding (settled : paper.Settled price hedge) (rate at_ : F) (time : Nat) :
    (paper.funding rate at_ time).Settled price hedge := by
  unfold Paper.funding
  dsimp only
  split_ifs
  · exact ⟨settled.positions, settled.lastHedge⟩
  · exact settled

/-- An excursion of the price leaves a marked account its value. -/
theorem Settled.excursion (settled : paper.Settled price hedge) (positive : 0 < hedge)
    {low lowHedge : F} (lowPositive : 0 < lowHedge) :
    (((paper.mark low lowHedge).mark price hedge).portfolio s).equity price =
      (paper.portfolio s).equity price := by
  have holdings : ((paper.mark low lowHedge).mark price hedge).holdings price =
      paper.holdings price := by
    unfold Paper.holdings mark
    rw [List.map_map, List.map_map]
    congr 1
    apply List.map_congr_left
    intro position mem
    exact (settled.positions position mem).excursion low
  have hedged : ((paper.mark low lowHedge).mark price hedge).hedgeEquity = paper.hedgeEquity := by
    unfold mark
    dsimp only
    rw [settled.lastHedge, if_pos lowPositive, if_pos positive]
    ring
  rw [equity_eq, equity_eq, holdings, hedged]
  rfl

/-- The value of the account with every cost it has recorded. -/
def total (price : F) (paper : Paper F) : F :=
  paper.holdings price + paper.cash + paper.hedgeEquity + paper.swapCosts + paper.operationCosts +
    paper.hedgeFees

/-- The holdings of the closed positions become cash and swap costs. -/
theorem withdraw_all (closed : List (PaperPosition F)) :
    (closed.foldl (withdraw price) paper).cash + (closed.foldl (withdraw price) paper).swapCosts =
        paper.cash + paper.swapCosts + (closed.map (PaperPosition.value price)).sum ∧
      ∃ cash swapCosts, closed.foldl (withdraw price) paper =
        { paper with cash := cash, swapCosts := swapCosts } := by
  induction closed generalizing paper with
  | nil => exact ⟨by simp, paper.cash, paper.swapCosts, rfl⟩
  | cons position closed inductionHypothesis =>
      obtain ⟨balance, cash, swapCosts, rest⟩ := @inductionHypothesis (paper.withdraw price position)
      refine ⟨?_, cash, swapCosts, rest⟩
      rw [List.foldl_cons, balance, List.map_cons, List.sum_cons, ← PaperPosition.position_value]
      unfold withdraw
      ring

theorem holdings_filter (names : List String) :
    paper.holdings price =
      ((paper.positions.filter fun p => p.layer ∈ names).map (PaperPosition.value price)).sum +
        ((paper.positions.filter fun p => p.layer ∉ names).map (PaperPosition.value price)).sum := by
  unfold holdings
  induction paper.positions with
  | nil => simp
  | cons position positions inductionHypothesis =>
      by_cases named : position.layer ∈ names
      · simp only [List.map_cons, List.sum_cons, inductionHypothesis, List.filter_cons, named,
          decide_true, if_true, not_true, decide_false, if_false, Bool.false_eq_true]
        ring
      · simp only [List.map_cons, List.sum_cons, inductionHypothesis, List.filter_cons, named,
          decide_false, if_false, not_false_eq_true, decide_true, if_true, Bool.false_eq_true]
        ring

theorem close_total {names : List String} {cost : F} :
    (paper.close names price cost).total price = paper.total price := by
  obtain ⟨balance, cash, swapCosts, closed⟩ :=
    @withdraw_all _ _ paper price (paper.positions.filter fun p => p.layer ∈ names)
  rw [closed] at balance
  dsimp only at balance
  unfold total close
  dsimp only
  rw [closed]
  have split := @holdings_filter _ _ paper price names
  unfold holdings at split ⊢
  dsimp only
  linear_combination balance - split

theorem Settled.close (settled : paper.Settled price hedge) (names : List String) (cost : F) :
    (paper.close names price cost).Settled price hedge := by
  obtain ⟨-, cash, swapCosts, closed⟩ :=
    @withdraw_all _ _ paper price (paper.positions.filter fun p => p.layer ∈ names)
  unfold Paper.close
  dsimp only
  rw [closed]
  exact {
    positions := fun position mem => settled.positions position (List.mem_of_mem_filter mem)
    lastHedge := settled.lastHedge }

end Paper

section Open

variable [FloorRing F] [LogNonneg F]

/-- A range has its active bin at least. -/
theorem bounds_count {price width : F} (nonneg : 0 ≤ width) :
    0 < (bounds price width).2 - (bounds price width).1 + 1 := by
  have logs : 0 ≤ F64.ln (1 + width) / F64.ln (1.0004 : F) :=
    div_nonneg (LogNonneg.ln_nonneg _ (by linarith)) (LogNonneg.ln_nonneg _ (by norm_num))
  have bins : 0 ≤ toI32 ⌈F64.ln (1 + width) / F64.ln (1.0004 : F)⌉ := by
    have ceil := Int.ceil_nonneg logs
    unfold toI32
    omega
  unfold bounds
  dsimp only
  omega

omit [LogNonneg F] in
theorem PaperPosition.new_settled (layer : String) (value width price : F) (now : Nat) :
    (PaperPosition.new layer value width price now).Settled price := by
  refine List.forall_mem_map.mpr fun i _ => ?_
  dsimp only
  unfold Bin.Settled
  split_ifs with above
  · exact ⟨fun below => absurd below above.not_gt, fun _ => rfl⟩
  · exact ⟨fun _ => rfl, fun below => absurd below above⟩

/-- A new position is worth what is put into it. -/
theorem PaperPosition.new_value (layer : String) {value width price : F} (now : Nat)
    (positive : 0 < price) (nonneg : 0 ≤ width) :
    (PaperPosition.new layer value width price now).value price = value := by
  have count : 0 < (bounds price width).2 - (bounds price width).1 + 1 := bounds_count nonneg
  unfold PaperPosition.value PaperPosition.new
  dsimp only
  rw [List.map_map]
  generalize (bounds price width).2 - (bounds price width).1 + 1 = bins at count ⊢
  have each : ∀ id : ℤ, Bin.value price (if binPrice id > price then ⟨id, value / (bins : F) / price, 0⟩
      else ⟨id, 0, value / (bins : F)⟩) = value / (bins : F) := by
    intro id
    split_ifs
    · simp [Bin.value, positive.ne']
    · simp [Bin.value]
  simp only [Function.comp_def, each, List.map_const', List.sum_replicate, nsmul_eq_mul]
  have whole : (bins.toNat : F) = (bins : F) := by
    rw [← Int.cast_natCast, Int.toNat_of_nonneg count.le]
  have nonzero : (bins : F) ≠ 0 := by
    exact_mod_cast count.ne'
  have length : (do let a ← List.range bins.toNat; pure (a : ℤ)).length = bins.toNat := by
    simp
  rw [length, whole]
  exact mul_div_cancel₀ _ nonzero

namespace Paper

variable {paper : Paper F} {s : StrategyConfig F} {price hedge feeRate : F}

omit [LogNonneg F] in
theorem hedge_total {target trade : F} {emergency : Bool} :
    (paper.hedge target trade emergency s feeRate).total price = paper.total price := by
  unfold Paper.hedge
  dsimp only
  split_ifs <;> first | rfl | (unfold total holdings; ring)

omit [LogNonneg F] in
theorem Settled.hedged (settled : paper.Settled price hedge) (target trade : F) (emergency : Bool) :
    (paper.hedge target trade emergency s feeRate).Settled price hedge := by
  unfold Paper.hedge
  dsimp only
  split_ifs <;> exact ⟨settled.positions, settled.lastHedge⟩

theorem open_total {layer : LayerConfig F} {deploy : F} {now : Nat} (positive : 0 < price)
    (nonneg : 0 ≤ layer.halfWidth) :
    (paper.open_ s deploy price now layer).total price = paper.total price := by
  unfold open_
  dsimp only
  split_ifs
  · rfl
  · unfold total holdings
    rw [List.map_append, List.sum_append, List.map_singleton, List.sum_singleton,
      PaperPosition.new_value _ _ positive nonneg]
    ring

omit [LogNonneg F] in
theorem Settled.open_ (settled : paper.Settled price hedge) (deploy : F) (now : Nat)
    (layer : LayerConfig F) : (paper.open_ s deploy price now layer).Settled price hedge := by
  unfold Paper.open_
  dsimp only
  split_ifs
  · exact settled
  · refine ⟨List.forall_mem_append.mpr ⟨settled.positions, ?_⟩, settled.lastHedge⟩
    rw [List.forall_mem_singleton]
    exact PaperPosition.new_settled _ _ _ _ _

theorem openAll_total {layers : List (LayerConfig F)} {deploy : F} {now : Nat}
    (positive : 0 < price) (nonneg : ∀ layer ∈ layers, 0 ≤ layer.halfWidth) :
    (layers.foldl (Paper.open_ s deploy price now) paper).total price = paper.total price := by
  induction layers generalizing paper with
  | nil => rfl
  | cons layer layers inductionHypothesis =>
      obtain ⟨here, later⟩ := List.forall_mem_cons.mp nonneg
      rw [List.foldl_cons, inductionHypothesis later, open_total positive here]

omit [LogNonneg F] in
theorem Settled.openAll (settled : paper.Settled price hedge) (layers : List (LayerConfig F))
    (deploy : F) (now : Nat) :
    (layers.foldl (Paper.open_ s deploy price now) paper).Settled price hedge := by
  induction layers generalizing paper with
  | nil => exact settled
  | cons layer layers inductionHypothesis =>
      exact inductionHypothesis (settled.open_ deploy now layer)

theorem rebuild_total {lp : LpIntent F} {trade fraction cost : F} {now : Nat}
    (positive : 0 < price) (nonneg : ∀ layer ∈ s.layers, 0 ≤ layer.halfWidth) :
    (paper.rebuild lp s price trade now fraction cost feeRate).total price = paper.total price := by
  unfold rebuild
  dsimp only
  split_ifs
  · rw [hedge_total, close_total]
  · rw [hedge_total, openAll_total positive, close_total]
    intro layer mem
    exact nonneg layer (List.mem_of_mem_filter mem)

omit [LogNonneg F] in
theorem Settled.rebuild (settled : paper.Settled price hedge) (lp : LpIntent F)
    (trade fraction cost : F) (now : Nat) :
    (paper.rebuild lp s price trade now fraction cost feeRate).Settled price hedge := by
  unfold Paper.rebuild
  dsimp only
  split_ifs
  · exact (settled.close _ _).hedged _ _ _
  · exact ((settled.close _ _).openAll _ _ _).hedged _ _ _

section Apply

variable {d : Decision F} {trade fraction cost : F} {now : Nat} {after : Paper F}

/-- Executing a decision records what it costs. -/
theorem apply_total
    (applied : paper.apply d s price trade now fraction cost feeRate = .ok after)
    (nonneg : ∀ layer ∈ s.layers, 0 ≤ layer.halfWidth) : after.total price = paper.total price := by
  simp only [apply, check_bind_eq_ok, ensure_eq_ok] at applied
  obtain ⟨⟨-, positive, -⟩, applied⟩ := applied
  split_ifs at applied
  · cases applied
    exact hedge_total
  · cases applied
    rw [hedge_total, hedge_total]
  · cases applied
    rw [rebuild_total positive nonneg, hedge_total]

omit [LogNonneg F] in
theorem Settled.apply (settled : paper.Settled price hedge)
    (applied : paper.apply d s price trade now fraction cost feeRate = .ok after) :
    after.Settled price hedge := by
  simp only [Paper.apply, check_bind_eq_ok] at applied
  obtain ⟨-, applied⟩ := applied
  split_ifs at applied
  · cases applied
    exact settled.hedged _ _ _
  · cases applied
    exact (settled.hedged _ _ _).hedged _ _ _
  · cases applied
    exact (settled.hedged _ _ _).rebuild _ _ _ _ _

end Apply

end Paper

end Open

end LpMaker.Dlmm

namespace LpMaker.Research

open Dlmm

variable {F : Type} [F64 F]

section Simulator

variable {setup : Setup F} {row : Row F} {h : Candle F} {sim next back : Sim F} {d : Decision F}

theorem guardOpen_paper : (sim.guardOpen setup h).paper = sim.paper := by
  unfold Sim.guardOpen Sim.rejectWhen
  dsimp only
  split_ifs <;> rfl

theorem guardEntry_paper : (sim.guardEntry setup h).paper = sim.paper := by
  unfold Sim.guardEntry Sim.rejectWhen
  dsimp only
  split_ifs <;> rfl

theorem markOpen_settled {rate : F} :
    (sim.markOpen setup row h rate).paper.Settled row.bar.open_ h.open_ :=
  Dlmm.Paper.mark_settled.funding _ _ _

theorem evaluateOpen_paper : (sim.evaluateOpen setup row h).1.paper = sim.paper := by
  unfold Sim.evaluateOpen Sim.countExits
  dsimp only
  split_ifs <;> rfl

variable [FloorRing F]

theorem leaveForGap_settled (settled : sim.paper.Settled row.bar.open_ h.open_)
    (left : sim.leaveForGap setup row h = .ok next) :
    next.paper.Settled row.bar.open_ h.open_ := by
  unfold Sim.leaveForGap at left
  split_ifs at left
  · simp only [bind_eq_ok, pure_eq_ok] at left
    obtain ⟨paper, applied, rfl⟩ := left
    exact settled.apply applied
  · cases left
    exact settled

/-- The decision at an opening leaves the account marked at it. -/
theorem decide_settled {opened : Sim F × Decision F} (paired : row.hedge = some h)
    (decided : sim.decide_ setup row = .ok opened) :
    opened.1.paper.Settled row.bar.open_ h.open_ := by
  simp only [Sim.decide_, bind_eq_ok, context_eq_ok, pure_eq_ok] at decided
  obtain ⟨candle, found, rate, -, next, left, rfl⟩ := decided
  cases paired.symm.trans found
  rw [evaluateOpen_paper]
  refine leaveForGap_settled ?_ left
  rw [guardOpen_paper]
  exact markOpen_settled

theorem hedgeEntry_settled (settled : sim.paper.Settled row.bar.open_ h.open_) :
    (sim.hedgeEntry setup row h d).paper.Settled row.bar.open_ h.open_ := by
  unfold Sim.hedgeEntry
  dsimp only
  split_ifs
  · exact (settled.hedged _ _ _).hedged _ _ _
  · exact settled

/-- And so does its execution, at positive prices. -/
theorem executeOpen_settled (settled : sim.paper.Settled row.bar.open_ h.open_)
    (executed : sim.executeOpen setup row h d = .ok next) :
    next.paper.Settled row.bar.open_ h.open_ ∧ 0 < row.bar.open_ ∧ 0 < h.open_ := by
  simp only [Sim.executeOpen, bind_eq_ok, pure_eq_ok] at executed
  obtain ⟨paper, applied, rfl⟩ := executed
  have kept : (Sim.hedgeEntry setup row h d { sim with paper := paper }).paper.Settled
      row.bar.open_ h.open_ := hedgeEntry_settled (settled.apply applied)
  simp only [Dlmm.Paper.apply, check_bind_eq_ok, ensure_eq_ok] at applied
  exact ⟨⟨kept.positions, kept.lastHedge⟩, applied.1.2.1, applied.1.2.2.2⟩

/-- A stress path which does not leave the pool comes back to the same value. -/
theorem stress_equity (settled : sim.paper.Settled row.bar.open_ h.open_)
    (open_ : 0 < row.bar.open_) (hedge : 0 < h.open_) (low : 0 < row.bar.low)
    (stays : (sim.evaluateLow setup row h).2.lp ≠ .exitToQuote) (s : StrategyConfig F) :
    ∃ back, sim.stress setup row h = .ok back ∧
      (back.paper.portfolio s).equity row.bar.open_ =
        (sim.paper.portfolio s).equity row.bar.open_ := by
  unfold Sim.stress Sim.exitLow
  dsimp only
  split_ifs with stressed
  · refine ⟨_, rfl, settled.excursion hedge ?_⟩
    unfold Sim.lowHedge
    positivity
  · exact ⟨sim, rfl, rfl⟩

end Simulator

section Ledger

variable [FloorRing F]

/-- What the ledger of a configuration conserves. -/
structure Conserves (c : Solana.Config F) : Prop where
  bins : ∀ (position : PaperPosition F) (price : F),
    ((position.mark price).bins.map fun b => b.base * binPrice b.id + b.quote) =
      position.bins.map fun b => b.base * binPrice b.id + b.quote
  path : ∀ (position : PaperPosition F) (path : List F) (price : F),
    (∀ b ∈ position.bins, price ≠ binPrice b.id) →
      (path.foldl (fun position earlier => position.mark earlier) position).mark price =
        position.mark price
  excursion : ∀ (paper : Dlmm.Paper F) (s : StrategyConfig F) (price hedge low lowHedge : F),
    0 < hedge → 0 < lowHedge →
      ((((paper.mark price hedge).mark low lowHedge).mark price hedge).portfolio s).equity price =
        ((paper.mark price hedge).portfolio s).equity price
  intrabar : ∀ (setup : Setup F) (row : Row F) (h : Candle F) (sim next : Sim F)
    (opened : Sim F × Decision F), row.hedge = some h → sim.decide_ setup row = .ok opened →
      opened.1.executeOpen setup row h opened.2 = .ok next → 0 < row.bar.low →
        ((next.guardEntry setup h).evaluateLow setup row h).2.lp ≠ .exitToQuote →
          ∀ s : StrategyConfig F, ∃ back, (next.guardEntry setup h).stress setup row h = .ok back ∧
            (back.paper.portfolio s).equity row.bar.open_ =
              (next.paper.portfolio s).equity row.bar.open_
  ledger : ∀ (s : StrategyConfig F), s.layers = c.strategy.layers →
    ∀ (paper after : Dlmm.Paper F) (d : Decision F) (price hedge fraction cost feeRate : F)
      (now : Nat), paper.apply d s price hedge now fraction cost feeRate = .ok after →
        (after.portfolio s).equity price = (paper.portfolio s).equity price -
          ((after.swapCosts - paper.swapCosts) + (after.operationCosts - paper.operationCosts) +
            (after.hedgeFees - paper.hedgeFees))

/-- The ledger of every validated configuration conserves value. -/
theorem ledger_conserves [LogNonneg F] {parsers : Parsers} {c : Solana.Config F}
    (valid : c.validate parsers = .ok ()) : Conserves c where
  bins position price := by
    unfold PaperPosition.mark
    rw [List.map_map]
    apply List.map_congr_left
    intro b _
    rw [Function.comp_apply, Bin.mark_id]
    exact Bin.mark_value
  path _ path _ away := PaperPosition.mark_path away path
  excursion _ _ _ _ _ _ positive lowPositive :=
    Dlmm.Paper.mark_settled.excursion positive lowPositive
  intrabar setup row h sim next opened paired decided executed low stays s := by
    obtain ⟨settled, open_, hedge⟩ := executeOpen_settled (decide_settled paired decided) executed
    rw [← @guardEntry_paper _ _ setup h next] at settled
    obtain ⟨back, stressed, equity⟩ := stress_equity settled open_ hedge low stays s
    rw [guardEntry_paper] at equity
    exact ⟨back, stressed, equity⟩
  ledger s layers paper after d price hedge fraction cost feeRate now applied := by
    have nonneg : ∀ layer ∈ s.layers, 0 ≤ layer.halfWidth := by
      obtain ⟨-, -, strategy, -⟩ := Solana.Config.validate_eq_ok.mp valid
      simp only [Solana.Config.validateStrategy, check_bind_eq_ok, ensure_eq_ok] at strategy
      intro layer mem
      rw [layers] at mem
      have wide := (strategy.2.2.2.2.2.2.2.2 layer mem).2.2.2.1
      linarith
    have total := Dlmm.Paper.apply_total applied nonneg
    unfold Dlmm.Paper.total at total
    rw [Dlmm.Paper.equity_eq, Dlmm.Paper.equity_eq]
    linear_combination total

theorem ledger_conserves_shipped : Conserves Shipped.solana :=
  ledger_conserves Shipped.solana_valid

end Ledger

end LpMaker.Research
