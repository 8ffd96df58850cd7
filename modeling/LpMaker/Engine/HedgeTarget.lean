import LpMaker.Engine.Paper
import LpMaker.Strategy.BreakoutRun

/-!
# Two hedge targets

The legacy evaluator hedges a layer by a protection flag which stays inside the release buffer,
the executor by the price alone. Away from the buffer the two agree, and inside it the executor
never hedges less.
-/

namespace LpMaker

open Strategy

variable {F : Type} [F64 F] {c : StrategyConfig F} {f : MarketFrame F} {s t : Strategy F}

/-- The price lies in the release buffer of a position, where the protection flag is kept. -/
def InReleaseBuffer (c : StrategyConfig F) (p : F) (pos : LpPosition F) : Prop :=
  pos.lower ≤ p ∧ p ≤ pos.lower * (1 + c.hedgeReleaseBuffer)

/-- The base of a position which the evaluator hedges, given its protection flag. -/
def flaggedShare (c : StrategyConfig F) (pos : LpPosition F) (isProtected : Bool) : F :=
  pos.base * if isProtected then 1 else c.insideHedgeRatio

/-- The base of a position which the executor hedges. -/
def pricedShare (c : StrategyConfig F) (p : F) (pos : LpPosition F) : F :=
  pos.base * if p ≤ pos.lower * (1 + c.hedgeReleaseBuffer) then 1 else c.insideHedgeRatio

/-- No holding is negative. -/
structure Holdings (portfolio : Portfolio F) : Prop where
  wallet : 0 ≤ portfolio.walletBase
  positions : ∀ pos ∈ portfolio.positions, 0 ≤ pos.base

section Shares

variable {p : F} {pos : LpPosition F} {state : LayerState}

theorem flaggedShare_nonneg (ratio : 0 ≤ c.insideHedgeRatio) (base : 0 ≤ pos.base)
    (isProtected : Bool) : 0 ≤ flaggedShare c pos isProtected := by
  unfold flaggedShare
  split_ifs
  · exact mul_nonneg base zero_le_one
  · exact mul_nonneg base ratio

theorem pricedShare_le (ratio : c.insideHedgeRatio ≤ 1) (base : 0 ≤ pos.base) :
    pricedShare c p pos ≤ pos.base := by
  unfold pricedShare
  split_ifs
  · rw [mul_one]
  · exact mul_le_of_le_one_right base ratio

/-- The executor hedges at least what the evaluator hedges. -/
theorem flaggedShare_le (ratio : c.insideHedgeRatio ≤ 1) (base : 0 ≤ pos.base) :
    flaggedShare c pos (protectLayer c p pos state).isProtected ≤ pricedShare c p pos := by
  unfold flaggedShare pricedShare
  by_cases near : p ≤ pos.lower * (1 + c.hedgeReleaseBuffer)
  · rw [if_pos near]
    gcongr
    split_ifs
    · exact le_refl 1
    · exact ratio
  · have released : (protectLayer c p pos state).isProtected = false := by
      unfold protectLayer
      rw [if_pos (not_le.mp near)]
    rw [if_neg near, released]
    exact le_refl _

/-- Outside the release buffer, or with the flag set there, both hedge the same. -/
theorem flaggedShare_eq (kept : InReleaseBuffer c p pos → state.isProtected = true) :
    flaggedShare c pos (protectLayer c p pos state).isProtected = pricedShare c p pos := by
  unfold flaggedShare pricedShare protectLayer
  dsimp only
  by_cases near : p ≤ pos.lower * (1 + c.hedgeReleaseBuffer)
  · rw [if_pos near, if_neg (not_lt.mpr near)]
    by_cases below : p < pos.lower
    · rw [if_pos below]
      rfl
    · rw [if_neg below, kept ⟨not_lt.mp below, near⟩]
      rfl
  · rw [if_neg near, if_pos (not_le.mp near)]
    rfl

end Shares

section Pass

variable {p : F} {newBar : Bool} {positions : List (LpPosition F)}

theorem observeLayer_target (pass : LayerPass F) (pos : LpPosition F) :
    (observeLayer c p newBar pass pos).target = pass.target +
      flaggedShare c pos (protectLayer c p pos (pass.layers.entry pos.layer)).isProtected := rfl

/-- The target grows by at most the shares of the executor. -/
theorem foldl_target (ratio : 0 ≤ c.insideHedgeRatio ∧ c.insideHedgeRatio ≤ 1)
    (bases : ∀ pos ∈ positions, 0 ≤ pos.base) (pass : LayerPass F) :
    pass.target ≤ (positions.foldl (observeLayer c p newBar) pass).target ∧
      (positions.foldl (observeLayer c p newBar) pass).target ≤
        pass.target + (positions.map (pricedShare c p)).sum := by
  induction positions generalizing pass with
  | nil => simp
  | cons pos positions inductionHypothesis =>
      obtain ⟨base, later⟩ := List.forall_mem_cons.mp bases
      obtain ⟨grows, bounded⟩ := inductionHypothesis later (observeLayer c p newBar pass pos)
      rw [observeLayer_target] at grows bounded
      have nonneg := flaggedShare_nonneg ratio.1 base
        (protectLayer c p pos (pass.layers.entry pos.layer)).isProtected
      have share := @flaggedShare_le F _ c p pos (pass.layers.entry pos.layer) ratio.2 base
      rw [List.foldl_cons, List.map_cons, List.sum_cons]
      constructor <;> linarith

/-- With one position for a layer, the target is the executor's unless a flag is missing in a
release buffer. -/
theorem foldl_target_eq (pass : LayerPass F) (distinct : (positions.map LpPosition.layer).Nodup)
    (kept : ∀ pos ∈ positions, InReleaseBuffer c p pos →
      (pass.layers.entry pos.layer).isProtected = true) :
    (positions.foldl (observeLayer c p newBar) pass).target =
      pass.target + (positions.map (pricedShare c p)).sum := by
  induction positions generalizing pass with
  | nil => simp
  | cons pos positions inductionHypothesis =>
      obtain ⟨fresh, distinct⟩ := List.nodup_cons.mp distinct
      obtain ⟨here, later⟩ := List.forall_mem_cons.mp kept
      have rest := inductionHypothesis (observeLayer c p newBar pass pos) distinct (by
        intro other mem near
        have apart : pos.layer ≠ other.layer := fun same =>
          fresh (same ▸ List.mem_map_of_mem mem)
        rw [(observeLayer_other pass apart).1]
        exact later other mem near)
      rw [List.foldl_cons, rest, observeLayer_target, flaggedShare_eq here, List.map_cons,
        List.sum_cons, add_assoc]

end Pass

section Targets

theorem inventoryHedgeTarget_legacy (legacy : c.ethPersistent = none) (portfolio : Portfolio F)
    (p : F) : inventoryHedgeTarget c portfolio p =
      portfolio.walletBase + (portfolio.positions.map (pricedShare c p)).sum := by
  have band : c.band = none := by
    unfold StrategyConfig.band
    rw [legacy]
    rfl
  unfold inventoryHedgeTarget
  rw [band, legacy]
  rfl

/-- The executor never hedges more than the whole inventory. -/
theorem inventoryHedgeTarget_le (legacy : c.ethPersistent = none)
    (ratio : c.insideHedgeRatio ≤ 1) {portfolio : Portfolio F} (holdings : Holdings portfolio)
    (p : F) : inventoryHedgeTarget c portfolio p ≤ portfolio.base := by
  rw [inventoryHedgeTarget_legacy legacy, Portfolio.base]
  have shares : (portfolio.positions.map (pricedShare c p)).sum ≤
      (portfolio.positions.map LpPosition.base).sum :=
    List.sum_le_sum fun pos mem => pricedShare_le ratio (holdings.positions pos mem)
  linarith

omit [F64 F] in
/-- The protection flags which the bar processing starts from. -/
theorem enterBar_isProtected (layer : String) :
    ((s.enterBar c f).1.layers.entry layer).isProtected = (s.layers.entry layer).isProtected := by
  unfold enterBar
  dsimp only
  split_ifs
  · exact (clearStreaks_entry s.layers).2.2
  · rfl
  · rfl

/-- In an evaluation which reaches the final target, that target lies between zero and the
executor's, which is at most the inventory. They differ only with an unprotected layer whose
price is in the release buffer. -/
theorem hedge_target_bounds {continuity : Bool} {d : Decision F} (legacy : c.ethPersistent = none)
    (ratio : 0 ≤ c.insideHedgeRatio ∧ c.insideHedgeRatio ≤ 1) (holdings : Holdings f.portfolio)
    (evaluated : s.evaluateInner c f continuity = (t, d))
    (reached : s.reachesBars c f continuity = true) :
    (0 ≤ d.targetShortBase ∧
      d.targetShortBase ≤ inventoryHedgeTarget c f.portfolio f.pool.price ∧
      inventoryHedgeTarget c f.portfolio f.pool.price ≤ f.portfolio.base) ∧
    ((f.portfolio.positions.map LpPosition.layer).Nodup →
      d.targetShortBase = inventoryHedgeTarget c f.portfolio f.pool.price ∨
      ∃ pos ∈ f.portfolio.positions, (s.layers.entry pos.layer).isProtected = false ∧
        InReleaseBuffer c f.pool.price pos) := by
  cases evaluateInner_gate evaluated with
  | early missed => exact absurd (missed.symm.trans reached) Bool.false_ne_true
  | settled _ u lp reasons layers bar other settled =>
      have target : d.targetShortBase =
          max ((u.enterBar c f).1.observeLayers c f (u.enterBar c f).2).target 0 := by
        obtain rfl : d = (u.settle c f lp reasons).2 := by rw [settled]
        rfl
      have flags (layer : String) : ((u.enterBar c f).1.layers.entry layer).isProtected =
          (s.layers.entry layer).isProtected := by
        rw [enterBar_isProtected, layers]
      have bounds := @foldl_target F _ c f.pool.price (u.enterBar c f).2 f.portfolio.positions
        ratio holdings.positions
        ⟨(u.enterBar c f).1.layers, f.portfolio.walletBase, false, []⟩
      have nonneg : 0 ≤ ((u.enterBar c f).1.observeLayers c f (u.enterBar c f).2).target :=
        holdings.wallet.trans bounds.1
      rw [target, max_eq_left nonneg]
      refine ⟨⟨nonneg, ?_, inventoryHedgeTarget_le legacy ratio.2 holdings _⟩, fun distinct => ?_⟩
      · rw [inventoryHedgeTarget_legacy legacy]
        exact bounds.2
      · by_cases missing : ∃ pos ∈ f.portfolio.positions,
            (s.layers.entry pos.layer).isProtected = false ∧ InReleaseBuffer c f.pool.price pos
        · exact .inr missing
        · left
          rw [inventoryHedgeTarget_legacy legacy]
          refine foldl_target_eq _ distinct fun pos mem near => ?_
          rw [flags]
          by_contra unset
          exact missing ⟨pos, mem, by simpa using unset, near⟩

end Targets

namespace Shipped

/-- At the first frame a held layer in range is hedged as the executor hedges it. -/
theorem first_target_bounds :
    0 ≤ (Strategy.default.evaluateInner shortBreakout.strategy (heldFrame 10 1000 100 100)
        true).2.targetShortBase ∧
      (Strategy.default.evaluateInner shortBreakout.strategy (heldFrame 10 1000 100 100)
          true).2.targetShortBase ≤
        inventoryHedgeTarget shortBreakout.strategy (heldFrame 10 1000 100 100).portfolio 100 ∧
      inventoryHedgeTarget shortBreakout.strategy (heldFrame 10 1000 100 100).portfolio 100 ≤
        (heldFrame 10 1000 100 100).portfolio.base :=
  (@hedge_target_bounds ℚ _ _ _ _ _ true _ rfl (by decide +kernel)
    ⟨by decide +kernel, by decide +kernel⟩ Prod.mk.eta.symm (by decide +kernel)).1

end Shipped

end LpMaker
