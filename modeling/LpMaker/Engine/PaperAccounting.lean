import Mathlib
import LpMaker.Engine.Paper
import LpMaker.Shipped

/-!
# The accounting identity of the paper ledger

`book` is the account value together with every cost recorded so far. Closing, opening
and scaling positions and swapping the wallet conserve it; filling a hedge order changes
it by the distance between the execution price and the last mark.
-/

namespace LpMaker.Paper

variable {F : Type} [F64 F] {c : Config F} {paper : Paper F} {p hedge : F}

/-- Value of holdings in positions. -/
def lpValue (p : F) (positions : List (LpPosition F)) : F :=
  (positions.map fun pos => pos.base * p + pos.quote).sum

/-- Everything outside the positions: wallet, hedge account, reserve and paid costs. -/
def purse (p : F) (paper : Paper F) : F :=
  paper.walletValue p + paper.portfolio.hedgeEquity + paper.portfolio.reserve +
    paper.swapCosts + paper.hedgeFees

/-- The account value together with the paid costs. -/
def book (p : F) (paper : Paper F) : F :=
  paper.portfolio.equity p + paper.swapCosts + paper.hedgeFees

section Positions

variable (p)

@[simp] theorem lpValue_nil : lpValue p [] = 0 := rfl

@[simp] theorem lpValue_cons (pos : LpPosition F) (positions : List (LpPosition F)) :
    lpValue p (pos :: positions) = pos.base * p + pos.quote + lpValue p positions := by
  simp [lpValue]

@[simp] theorem lpValue_append (first second : List (LpPosition F)) :
    lpValue p (first ++ second) = lpValue p first + lpValue p second := by
  simp [lpValue]

theorem lpValue_eq (positions : List (LpPosition F)) :
    lpValue p positions =
      (positions.map LpPosition.base).sum * p + (positions.map LpPosition.quote).sum := by
  induction positions with
  | nil => simp
  | cons pos positions inductionHypothesis =>
      rw [lpValue_cons, inductionHypothesis, List.map_cons, List.map_cons, List.sum_cons,
        List.sum_cons]
      ring

/-- Positions split into those of the named layers and the others. -/
theorem lpValue_filter (layers : List String) (positions : List (LpPosition F)) :
    lpValue p (positions.filter fun pos => pos.layer ∈ layers) +
      lpValue p (positions.filter fun pos => pos.layer ∉ layers) = lpValue p positions := by
  induction positions with
  | nil => simp
  | cons pos positions inductionHypothesis =>
      by_cases named : pos.layer ∈ layers
      · simp only [List.filter_cons, named, decide_true, not_true_eq_false, decide_false,
          if_true, Bool.false_eq_true, if_false, lpValue_cons]
        rw [← inductionHypothesis]
        ring
      · simp only [List.filter_cons, named, decide_false, not_false_eq_true, decide_true,
          if_true, Bool.false_eq_true, if_false, lpValue_cons]
        rw [← inductionHypothesis]
        ring

/-- The book is what is in the positions and outside them. -/
theorem book_eq (paper : Paper F) :
    paper.book p = paper.purse p + lpValue p paper.portfolio.positions := by
  rw [lpValue_eq, book, purse, Portfolio.equity, Portfolio.base, walletValue]
  ring

end Positions

section Moves

@[simp] theorem purse_swapToBase (target : F) :
    (paper.swapToBase target p c).purse p = paper.purse p := by
  simp only [purse, swapToBase, walletValue]
  ring

@[simp] theorem purse_spend (holdings : F × F) :
    (paper.spend holdings).purse p = paper.purse p - Math.worth holdings p := by
  simp only [purse, spend, walletValue, Math.worth]
  ring

/-- Closing positions moves their value into the wallet. -/
theorem book_remove (layers : List String) : (paper.remove layers).book p = paper.book p := by
  have split := lpValue_filter p layers paper.portfolio.positions
  have closed := lpValue_eq p (paper.portfolio.positions.filter fun pos => pos.layer ∈ layers)
  rw [book_eq, book_eq, ← split, closed]
  simp only [purse, remove, walletValue]
  ring

/-- A filled hedge order gains the distance between its execution and the last mark. -/
theorem book_fill (target execution rate : F) :
    (paper.fill target execution rate).book p = paper.book p +
      (target - paper.portfolio.shortBase) * (execution - paper.lastHedgePrice) := by
  simp only [book, fill, Portfolio.equity, Portfolio.base]
  ring

/-- Opening a layer moves its value out of the wallet. -/
theorem book_openLayer {widths : Option (F × F)} {value : F} {layer : LayerConfig F}
    {after : Paper F} (opened : openLayer c widths p value layer paper = .ok after) :
    after.book p = paper.book p := by
  obtain ⟨liquidity, -, opened⟩ := bind_eq_ok.mp opened
  obtain ⟨-, opened⟩ := check_bind_eq_ok.mp opened
  cases opened
  set bounds := rangeOf widths p layer
  set held := Math.amounts liquidity bounds.1 bounds.2 p
  have moved : ((paper.swapToBase held.1 p c).spend held).purse p =
      paper.purse p - Math.worth held p := by
    rw [purse_spend, purse_swapToBase]
  rw [book_eq, book_eq]
  calc
    _ = ((paper.swapToBase held.1 p c).spend held).purse p +
          (lpValue p paper.portfolio.positions + Math.worth held p) := by
        simp [purse, walletValue, Math.worth, swapToBase, spend]
    _ = paper.purse p + lpValue p paper.portfolio.positions := by
        rw [moved]
        ring

theorem book_openLayers {widths : Option (F × F)} {budget total : F}
    {layers : List (LayerConfig F)} {after : Paper F}
    (opened : openLayers c widths p budget total layers paper = .ok after) :
    after.book p = paper.book p := by
  induction layers generalizing paper with
  | nil =>
      cases opened
      rfl
  | cons layer rest inductionHypothesis =>
      obtain ⟨middle, first, opened⟩ := bind_eq_ok.mp opened
      rw [inductionHypothesis opened, book_openLayer first]

theorem book_reopen {widths : Option (F × F)} {names : List String} {limit : F → F}
    {after : Paper F} (reopened : reopen c widths p names limit paper = .ok after) :
    after.book p = paper.book p :=
  (book_openLayers reopened).trans (book_remove names)

/-- Scaling a marked position moves the added value out of the wallet. -/
theorem purse_scalePosition {fraction : F} {pos : LpPosition F}
    {scaled : LpPosition F × Paper F} (marked : Marked p pos)
    (done : scalePosition c fraction p pos paper = .ok scaled) :
    scaled.2.purse p + (scaled.1.base * p + scaled.1.quote) =
        paper.purse p + (pos.base * p + pos.quote) ∧
      scaled.2.portfolio.positions = paper.portfolio.positions := by
  unfold scalePosition at done
  split at done
  · cases done
  · dsimp only at done
    split_ifs at done with small
    · cases done
      exact ⟨rfl, rfl⟩
    · obtain ⟨-, done⟩ := check_bind_eq_ok.mp done
      obtain ⟨added, -, done⟩ := bind_eq_ok.mp done
      obtain ⟨-, done⟩ := check_bind_eq_ok.mp done
      cases done
      refine ⟨?_, rfl⟩
      have base : pos.base = (Math.amounts pos.liquidity pos.lower pos.upper p).1 :=
        congrArg Prod.fst marked
      have quote : pos.quote = (Math.amounts pos.liquidity pos.lower pos.upper p).2 :=
        congrArg Prod.snd marked
      rw [purse_spend, purse_swapToBase]
      simp only [markPosition, Math.amounts_add, Math.worth, base, quote]
      ring

theorem purse_scalePositions {fraction : F} {positions : List (LpPosition F)}
    {scaled : List (LpPosition F) × Paper F} (marked : ∀ pos ∈ positions, Marked p pos)
    (done : scalePositions c fraction p positions paper = .ok scaled) :
    scaled.2.purse p + lpValue p scaled.1 = paper.purse p + lpValue p positions := by
  induction positions generalizing paper scaled with
  | nil =>
      cases done
      rfl
  | cons pos rest inductionHypothesis =>
      obtain ⟨first, here, done⟩ := bind_eq_ok.mp done
      obtain ⟨others, later, done⟩ := bind_eq_ok.mp done
      cases done
      obtain ⟨head, tail⟩ := List.forall_mem_cons.mp marked
      have step := (purse_scalePosition head here).1
      have steps := inductionHypothesis tail later
      rw [lpValue_cons, lpValue_cons]
      linear_combination step + steps

end Moves

/-- What an exit loses beyond the recorded costs: the slippage of closing the short. -/
def exitSlippage (d : Decision F) (c : Config F) (hedge : F) (paper : Paper F) : F :=
  if d.lp = .exitToQuote ∧ paper.portfolio.shortBase > 0 then
    paper.portfolio.shortBase * hedge * ((c.hyperliquid.emergencySlippageBps : F) / 10000)
  else 0

theorem book_exitToQuote (sameHedge : paper.lastHedgePrice = hedge) {d : Decision F}
    (exits : d.lp = .exitToQuote) :
    (paper.exitToQuote c p hedge).book p = paper.book p - exitSlippage d c hedge paper := by
  set names := paper.portfolio.positions.map LpPosition.layer
  set cleared : Paper F := { paper with pending := none }
  set swapped := (cleared.remove names).swapToBase 0 p c with swappedEq
  have conserved : swapped.book p = paper.book p := by
    rw [book_eq, purse_swapToBase]
    exact (book_eq p (cleared.remove names)).symm.trans (book_remove names)
  have sameShort : swapped.portfolio.shortBase = paper.portfolio.shortBase := rfl
  by_cases short : paper.portfolio.shortBase > 0
  · have exit : paper.exitToQuote c p hedge =
        swapped.fill 0 (hedge * (1 + (c.hyperliquid.emergencySlippageBps : F) / 10000))
          0.00045 := if_pos short
    have sameMark : swapped.lastHedgePrice = hedge := sameHedge
    rw [exit, book_fill, conserved, sameShort, sameMark, exitSlippage, if_pos ⟨exits, short⟩]
    ring
  · have exit : paper.exitToQuote c p hedge = swapped := if_neg short
    rw [exit, conserved, exitSlippage, if_neg fun closes => short closes.2, sub_zero]

/-- Every executed intent conserves the book, up to the slippage of an exit. -/
theorem book_trade {widths : Option (F × F)} {d : Decision F} {after : Paper F}
    (marked : ∀ pos ∈ paper.portfolio.positions, Marked p pos)
    (sameHedge : paper.lastHedgePrice = hedge)
    (traded : paper.trade d.lp c p hedge widths = .ok after) :
    after.book p = paper.book p - exitSlippage d c hedge paper := by
  have others (opens : d.lp ≠ .exitToQuote) : exitSlippage d c hedge paper = 0 :=
    if_neg fun exits => opens exits.1
  cases intent : d.lp with
  | hold =>
      rw [intent] at traded others
      cases traded
      rw [others nofun, sub_zero]
  | exitToQuote =>
      rw [intent] at traded
      cases traded
      exact book_exitToQuote sameHedge intent
  | deploy fraction =>
      rw [intent] at traded others
      rw [others nofun, sub_zero]
      simp only [trade] at traded
      split_ifs at traded with held
      · obtain ⟨scaled, done, traded⟩ := bind_eq_ok.mp traded
        cases traded
        rw [book_eq, book_eq]
        exact purse_scalePositions marked done
      · exact book_reopen traded
  | recenter layers =>
      rw [intent] at traded others
      rw [others nofun, sub_zero]
      exact book_reopen traded

@[simp] theorem book_orderHedge {widths : Option (F × F)} {d : Decision F} {now : Nat} :
    (paper.orderHedge d c p hedge now widths).book p = paper.book p := by
  unfold orderHedge
  dsimp only
  split_ifs <;> rfl

/-- Executing a decision on a marked ledger loses exactly the recorded swap costs, the
recorded hedge fees and the slippage of closing the short in an exit. -/
theorem apply_equity (c : Config F) (paper after : Paper F) (d : Decision F) (p hedge : F)
    (now : Nat) (widths : Option (F × F))
    (marked : ∀ pos ∈ paper.portfolio.positions, Marked p pos)
    (sameHedge : paper.lastHedgePrice = hedge)
    (applied : paper.applyWithWidths d c p hedge now widths = .ok after) :
    after.portfolio.equity p =
      paper.portfolio.equity p - (after.swapCosts - paper.swapCosts) -
        (after.hedgeFees - paper.hedgeFees) - exitSlippage d c hedge paper := by
  obtain ⟨-, applied⟩ := check_bind_eq_ok.mp applied
  obtain ⟨traded, trading, applied⟩ := bind_eq_ok.mp applied
  have conserved : after.book p = paper.book p - exitSlippage d c hedge paper := by
    rw [← book_trade marked sameHedge trading]
    cases applied
    split_ifs
    · rfl
    · exact book_orderHedge
  simp only [book] at conserved
  linear_combination conserved

/-- An account holding one position and a short, both marked at price 100. -/
def hedgedOnShipped : Paper ℚ where
  portfolio := {
    positions := [markPosition 100
      ⟨"core", none, 81, 121, 50, "paper", 0, 0, 0, 0⟩]
    walletBase := 1
    walletQuote := 20
    shortBase := 2
    hedgeEquity := 2500
    reserve := 1500 }
  lastHedgePrice := 100
  pending := none
  hedgeFees := 3
  swapCosts := 4
  fundingPnl := 0
  lastFundingMs := 0

/-- An exit with a short position. -/
def exitOnShipped : Decision ℚ where
  state := "Paused"
  reasons := []
  lp := .exitToQuote
  targetShortBase := 0
  emergency := true

/-- Leaving the position and the short costs the swap, the fee and the slippage. -/
theorem apply_equity_on_shipped :
    let after := hedgedOnShipped.exitToQuote Shipped.robinhood 100 100
    after.portfolio.equity 100 =
      hedgedOnShipped.portfolio.equity 100 - (after.swapCosts - hedgedOnShipped.swapCosts) -
        (after.hedgeFees - hedgedOnShipped.hedgeFees) -
        exitSlippage exitOnShipped Shipped.robinhood 100 hedgedOnShipped :=
  apply_equity Shipped.robinhood hedgedOnShipped _ exitOnShipped 100 100 0 none
    (by simp [hedgedOnShipped, Marked, markPosition]) rfl rfl

end LpMaker.Paper
