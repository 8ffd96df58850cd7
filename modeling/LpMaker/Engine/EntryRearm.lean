import LpMaker.Strategy.Persistent
import LpMaker.Semantics.Result

/-!
# Rearmed entries

An operator may ask once for an entry under the rules of a first entry. The permit
waives the waiting of one evaluation; the entry history itself is kept.
-/

namespace LpMaker.EntryRearm

variable {F : Type} [F64 F]

inductive Status where
  | armed
  | consumed
  | canceled
deriving DecidableEq

structure Permit where
  schema : Nat
  id : String
  binding : String
  requestedMs : Nat
  status : Status
  updatedMs : Nat
deriving DecidableEq

/-- The marker a rearmed deployment carries among its reasons. -/
def reason : String := "manual_entry_rearm:"

/-- What the evaluation reads of the store. -/
structure Store where
  permit : Option Permit
  pending : Bool
  workflow : Bool
  hedgeOrder : Bool
  /-- `orders.json` contains an order which is not terminal. -/
  openOrders : Bool

/-- The permit, if it belongs to this configuration. -/
def read (binding : String) (store : Store) : Except String (Option Permit) := do
  match store.permit with
  | some permit =>
      ensure (permit.schema = 1 ∧ permit.binding = binding)
        "entry rearm belongs to another configuration or schema"
  | none => .ok ()
  .ok store.permit

/-- No position, no base inventory and no hedge. -/
def flat (p : Portfolio F) : Bool :=
  p.positions.isEmpty && F64.isFinite p.walletBase && F64.isFinite p.shortBase
    && |p.walletBase| ≤ 1e-8 && |p.shortBase| ≤ 1e-8

/-- Nothing is left to reconcile. -/
def settled (store : Store) : Except String Unit := do
  ensure (!store.pending && !store.workflow && !store.hedgeOrder)
    "重新入场要求所有未决交易、挂单和调仓流程已完成；保留原记录并先正常对账"
  ensure (!store.openOrders) "订单台账仍有未决订单，不能重新入场"

def Permit.cancel (now : Nat) (permit : Permit) : Permit :=
  { permit with status := .canceled, updatedMs := now }

/-- The evaluation of a trial which counts as a first entry, with the history put back. -/
def evaluateTrial (c : StrategyConfig F) (f : MarketFrame F) (s : Strategy F) :
    Strategy F × Decision F :=
  let trial := { s with entryHistory := .initial }.evaluateWithContinuity c f
  ({ trial.1 with entryHistory := s.entryHistory }, trial.2)

/-- Evaluate under the permit. The result is the state, the decision and the permit to
write back, if it changes. -/
def evaluate (binding : String) (now : Nat) (store : Store) (c : Config F)
    (f : MarketFrame F) (s : Strategy F) :
    Except String (Strategy F × Decision F × Option Permit) := do
  let permit ← read binding store
  match permit.filter fun permit => permit.status = .armed with
  | none =>
      let evaluated := s.evaluateWithContinuity c.strategy f
      .ok (evaluated.1, evaluated.2, none)
  | some permit => do
      ensure (c.mode = .live) "entry rearm cannot be used in paper mode"
      if s.phase ≠ .paused ∨ !flat f.portfolio then
        let evaluated := s.evaluateWithContinuity c.strategy f
        .ok (evaluated.1, evaluated.2, some (permit.cancel now))
      else do
        settled store
        let trial := evaluateTrial c.strategy f s
        let decision :=
          if trial.2.lp.isDeploy then
            { trial.2 with
              reasons := trial.2.reasons.filter (fun r => !r.startsWith "initial_entry:")
                ++ [reason ++ permit.id] }
          else trial.2
        .ok (trial.1, decision,
          if trial.1.phase = .halted then some (permit.cancel now) else none)

theorem read_eq_ok {binding : String} {store : Store} {permit : Option Permit}
    (accepted : read binding store = .ok permit) : permit = store.permit := by
  unfold read at accepted
  cases held : store.permit with
  | none =>
      simp only [held] at accepted
      exact (Except.ok.inj accepted).symm
  | some permit =>
      simp only [held] at accepted
      exact (Except.ok.inj (check_bind_eq_ok.mp accepted).2).symm

/-- Without an armed permit the evaluation is the ordinary one. -/
theorem evaluate_of_unarmed {binding : String} {now : Nat} {store : Store} {c : Config F}
    {f : MarketFrame F} {s t : Strategy F} {d : Decision F} {written : Option Permit}
    (unarmed : ∀ permit ∈ store.permit, permit.status ≠ .armed)
    (evaluated : evaluate binding now store c f s = .ok (t, d, written)) :
    s.evaluateWithContinuity c.strategy f = (t, d) := by
  obtain ⟨permit, accepted, evaluated⟩ := bind_eq_ok.mp evaluated
  obtain rfl := read_eq_ok accepted
  have none : store.permit.filter (fun permit => permit.status = .armed) = none := by
    rw [Option.filter_eq_none_iff]
    intro permit mem
    simpa using unarmed permit mem
  simp only [none] at evaluated
  cases evaluated
  rfl

/-- A rearmed evaluation either is the ordinary one or differs from the trial in the reasons
only. -/
theorem evaluate_eq_ok {binding : String} {now : Nat} {store : Store} {c : Config F}
    {f : MarketFrame F} {s t : Strategy F} {d : Decision F} {written : Option Permit}
    (evaluated : evaluate binding now store c f s = .ok (t, d, written)) :
    s.evaluateWithContinuity c.strategy f = (t, d) ∨
      s.phase = .paused ∧ f.portfolio.positions = [] ∧
        t = (evaluateTrial c.strategy f s).1 ∧ d.lp = (evaluateTrial c.strategy f s).2.lp := by
  obtain ⟨permit, -, evaluated⟩ := bind_eq_ok.mp evaluated
  cases armed : permit.filter fun permit => permit.status = .armed with
  | none =>
      simp only [armed] at evaluated
      cases evaluated
      exact .inl rfl
  | some permit =>
      simp only [armed] at evaluated
      obtain ⟨-, evaluated⟩ := check_bind_eq_ok.mp evaluated
      by_cases refused : s.phase ≠ .paused ∨ (!flat f.portfolio) = true
      · rw [if_pos refused] at evaluated
        cases evaluated
        exact .inl rfl
      · rw [if_neg refused] at evaluated
        obtain ⟨_, -, evaluated⟩ := bind_eq_ok.mp evaluated
        simp only [Except.ok.injEq, Prod.mk.injEq] at evaluated
        obtain ⟨rfl, rfl, -⟩ := evaluated
        simp only [not_or, ne_eq, not_not, Bool.not_eq_true', Bool.not_eq_false] at refused
        refine .inr ⟨refused.1, ?_, rfl, ?_⟩
        · have allFlat := refused.2
          simp only [flat, Bool.and_eq_true, List.isEmpty_iff] at allFlat
          exact allFlat.1.1.1.1
        · split_ifs <;> rfl

end LpMaker.EntryRearm
