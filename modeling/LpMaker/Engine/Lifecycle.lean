import LpMaker.Semantics.Lineage
import LpMaker.Recovery
import LpMaker.Engine.EntryRearm
import LpMaker.Strategy.Regime

/-!
# The life of a strategy state

Everything the runners do to a strategy state, as operations of a checkpointed
process. An operation may refuse, and a deferred entry refers to the evaluation which
it follows.
-/

namespace LpMaker

open Semantics

variable {F : Type} [F64 F]

/-- An unexecuted deployment must not advance the phase or consume the entry allowance.
Exposure which is already there is still disposed of. -/
def deferEntry (previous : Strategy F) (portfolio : Portfolio F) (s : Strategy F)
    (d : Decision F) : Strategy F × Decision F :=
  let s := { s with
    phase := previous.phase
    fraction := previous.fraction
    lastScale := previous.lastScale
    ethPersistent := previous.ethPersistent }
  let d := { d with
    lp := .hold
    state := s.phase.format
    targetShortBase := portfolio.shortBase
    reasons := d.reasons ++ ["entry_waiting_hedge_collateral: deployment deferred before " ++
      "any swap or LP transaction"] }
  if |portfolio.walletBase| > 1e-8 ∨ |portfolio.shortBase| > 1e-8 then
    ({ s with phase := .paused },
      { d with state := "Paused", lp := .exitToQuote, emergency := true })
  else (s, d)

/-- One evaluation of a frame by one of the evaluators. -/
inductive Evaluation (F : Type) where
  | legacy (c : StrategyConfig F) (f : MarketFrame F)
  | withContinuity (c : StrategyConfig F) (f : MarketFrame F)
  | regime (rc : Regime.Config F) (c : StrategyConfig F) (f : MarketFrame F)
  | rearmed (binding : String) (now : Nat) (store : EntryRearm.Store) (c : Config F)
      (f : MarketFrame F)

namespace Evaluation

def frame : Evaluation F → MarketFrame F
  | legacy _ f | withContinuity _ f | regime _ _ f | rearmed _ _ _ _ f => f

def run (s : Strategy F) : Evaluation F → Except String (Strategy F × Decision F)
  | legacy c f => .ok (s.evaluate c f)
  | withContinuity c f => .ok (s.evaluateWithContinuity c f)
  | regime rc c f => .ok (Regime.evaluate rc c f s)
  | rearmed binding now store c f => do
      let evaluated ← EntryRearm.evaluate binding now store c f s
      .ok (evaluated.1, evaluated.2.1)

end Evaluation

/-- The operations on a strategy state. -/
inductive Operation (F : Type) where
  | evaluate (evaluation : Evaluation F)
  | deferEntry
  | observeLp (hasPositions : Bool)
  | finishWorkflowRecovery (paused invalidated : Nat)
  | pauseIncompleteInventory (actualLayers : List String) (c : Config F)
      (paused invalidated : Nat)
  | prepareObservationRevalidation
  | invalidateObservationStreaks (now : Nat)
  | restoreEntryHistory (store : Recovery.HistoryStore)
  | confirmFirstEntry (store : Recovery.HistoryStore) (portfolio : Portfolio F)

/-- The past of a strategy state: the operations on it and the decisions they made. -/
abbrev StrategyLineage (F : Type) := Lineage (Strategy F) (Operation F) (Option (Decision F))

/-- A runner's strategy state and its checkpoint. -/
abbrev StrategyProcess (F : Type) := Process (Strategy F) (Operation F) (Option (Decision F))

namespace Operation

/-- Defer the deployment which the lineage has just decided, with the state before that
evaluation. -/
def deferLast : StrategyLineage F → Except String (Strategy F × Option (Decision F))
  | .extend earlier (.evaluate evaluation) evaluated (some d) =>
      if d.lp.isDeploy then
        let deferred := LpMaker.deferEntry earlier.state evaluation.frame.portfolio evaluated d
        .ok (deferred.1, some deferred.2)
      else .error "nothing to defer"
  | _ => .error "nothing to defer"

/-- The state after an operation and the decision it makes, if it makes one. -/
def apply (lineage : StrategyLineage F) :
    Operation F → Except String (Strategy F × Option (Decision F))
  | evaluate evaluation => do
      let evaluated ← evaluation.run lineage.state
      .ok (evaluated.1, some evaluated.2)
  | deferEntry => deferLast lineage
  | observeLp hasPositions => .ok (lineage.state.observeLp hasPositions, none)
  | finishWorkflowRecovery paused invalidated =>
      .ok (Recovery.finishWorkflowRecovery paused invalidated lineage.state, none)
  | pauseIncompleteInventory actualLayers c paused invalidated =>
      .ok ((Recovery.pauseIncompleteInventory actualLayers c paused invalidated
        lineage.state).1, none)
  | prepareObservationRevalidation =>
      .ok (Recovery.prepareObservationRevalidation lineage.state, none)
  | invalidateObservationStreaks now =>
      .ok (Recovery.invalidateObservationStreaks now lineage.state, none)
  | restoreEntryHistory store => do
      let s ← Recovery.restoreEntryHistory store lineage.state
      .ok (s, none)
  | confirmFirstEntry store portfolio => do
      let confirmed ← Recovery.confirmFirstEntry store portfolio lineage.state
      .ok (confirmed.1, none)

/-- An operation which succeeds. -/
def Applies (lineage : StrategyLineage F) (operation : Operation F) (after : Strategy F)
    (decided : Option (Decision F)) : Prop :=
  operation.apply lineage = .ok (after, decided)

/-- A deferred entry follows an evaluation which decided to deploy. -/
theorem deferLast_eq_ok {lineage : StrategyLineage F} {after : Strategy F}
    {decided : Option (Decision F)} (deferred : deferLast lineage = .ok (after, decided)) :
    ∃ earlier evaluation d, d.lp.isDeploy = true ∧
      lineage = .extend earlier (.evaluate evaluation) lineage.state (some d) ∧
      after = (LpMaker.deferEntry earlier.state evaluation.frame.portfolio lineage.state d).1 ∧
      decided =
        some (LpMaker.deferEntry earlier.state evaluation.frame.portfolio lineage.state d).2 := by
  unfold deferLast at deferred
  split at deferred
  · next earlier evaluation evaluated d =>
      split_ifs at deferred with deploys
      obtain ⟨rfl, rfl⟩ := Prod.mk.inj (Except.ok.inj deferred)
      exact ⟨earlier, evaluation, d, deploys, rfl, rfl, rfl⟩
  · cases deferred

end Operation

section DeferEntry

variable (previous : Strategy F) (portfolio : Portfolio F) (s : Strategy F) (d : Decision F)

/-- A deferred entry ends in the phase before the evaluation or pauses. -/
theorem deferEntry_phase :
    (deferEntry previous portfolio s d).1.phase = previous.phase ∨
      (deferEntry previous portfolio s d).1.phase = .paused := by
  unfold deferEntry
  dsimp only
  split_ifs
  · exact .inr rfl
  · exact .inl rfl

@[simp] theorem deferEntry_peakEquity :
    (deferEntry previous portfolio s d).1.peakEquity = s.peakEquity := by
  unfold deferEntry
  dsimp only
  split_ifs <;> rfl

theorem deferEntry_opens : (deferEntry previous portfolio s d).2.lp.opens = false := by
  unfold deferEntry
  dsimp only
  split_ifs <;> rfl

end DeferEntry

end LpMaker
