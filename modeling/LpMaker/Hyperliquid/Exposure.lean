import Mathlib
import LpMaker.Hyperliquid.Hedge

/-!
# Exposure

Where the short position can still go: every working order may fill up to what is left of it. A
fill and the end of an order only narrow these limits, and only a new order widens them.
-/

namespace LpMaker.Hyperliquid

open Semantics

variable {F : Type} [F64 F]

namespace Working

/-- What the working orders may still buy. -/
def bought (orders : List (Working F)) : F := (orders.map fun o => if o.buy then o.left else 0).sum

/-- What the working orders may still sell. -/
def sold (orders : List (Working F)) : F := (orders.map fun o => if o.buy then 0 else o.left).sum

variable {o : Working F} {orders : List (Working F)}

theorem filled_mem (fills : String → F) (nonneg : 0 ≤ o.left) :
    0 ≤ o.filled fills ∧ o.filled fills ≤ o.left :=
  F64.clamp_mem nonneg

@[simp] theorem bought_nil : bought ([] : List (Working F)) = 0 := rfl

@[simp] theorem sold_nil : sold ([] : List (Working F)) = 0 := rfl

@[simp] theorem bought_cons : bought (o :: orders) = (if o.buy then o.left else 0) + bought orders := by
  simp [bought]

@[simp] theorem sold_cons : sold (o :: orders) = (if o.buy then 0 else o.left) + sold orders := by
  simp [sold]

theorem bought_nonneg (nonneg : ∀ o ∈ orders, 0 ≤ o.left) : 0 ≤ bought orders := by
  induction orders with
  | nil => exact le_refl _
  | cons o orders inductionHypothesis =>
      rw [bought_cons]
      obtain ⟨here, later⟩ := List.forall_mem_cons.mp nonneg
      apply add_nonneg
      · split_ifs
        · exact here
        · exact le_refl _
      · exact inductionHypothesis later

theorem sold_nonneg (nonneg : ∀ o ∈ orders, 0 ≤ o.left) : 0 ≤ sold orders := by
  induction orders with
  | nil => exact le_refl _
  | cons o orders inductionHypothesis =>
      rw [sold_cons]
      obtain ⟨here, later⟩ := List.forall_mem_cons.mp nonneg
      apply add_nonneg
      · split_ifs
        · exact le_refl _
        · exact here
      · exact inductionHypothesis later

/-- An order which ends narrows the limits. -/
theorem filter_le (nonneg : ∀ o ∈ orders, 0 ≤ o.left) (works : Working F → Bool) :
    bought (orders.filter works) ≤ bought orders ∧ sold (orders.filter works) ≤ sold orders := by
  induction orders with
  | nil => exact ⟨le_refl _, le_refl _⟩
  | cons o orders inductionHypothesis =>
      obtain ⟨here, later⟩ := List.forall_mem_cons.mp nonneg
      obtain ⟨buys, sells⟩ := inductionHypothesis later
      rw [List.filter_cons]
      split_ifs with kept
      · simp only [bought_cons, sold_cons]
        exact ⟨add_le_add (le_refl _) buys, add_le_add (le_refl _) sells⟩
      · simp only [bought_cons, sold_cons]
        constructor
        · have positive : (0 : F) ≤ if o.buy then o.left else 0 := by
            split_ifs
            · exact here
            · exact le_refl _
          linarith
        · have positive : (0 : F) ≤ if o.buy then 0 else o.left := by
            split_ifs
            · exact le_refl _
            · exact here
          linarith

/-- A fill moves the position by what it takes off the limits. -/
theorem fill_le (fills : String → F) (nonneg : ∀ o ∈ orders, 0 ≤ o.left) :
    (orders.map fun o => moves o.buy (o.filled fills)).sum +
        sold (orders.map fun o => { o with left := o.left - o.filled fills }) ≤ sold orders ∧
      -bought orders ≤ (orders.map fun o => moves o.buy (o.filled fills)).sum -
        bought (orders.map fun o => { o with left := o.left - o.filled fills }) := by
  induction orders with
  | nil => simp
  | cons o orders inductionHypothesis =>
      obtain ⟨here, later⟩ := List.forall_mem_cons.mp nonneg
      obtain ⟨above, below⟩ := inductionHypothesis later
      obtain ⟨some, most⟩ := filled_mem fills here
      simp only [List.map_cons, List.sum_cons, bought_cons, sold_cons]
      unfold moves at above below ⊢
      cases o.buy with
      | true =>
          simp only [if_true]
          constructor
          · linarith
          · linarith
      | false =>
          simp only [Bool.false_eq_true, if_false]
          constructor
          · linarith
          · linarith

end Working

namespace Market

/-- Whatever still fills, the short position stays between the bounds. -/
structure Within (lo hi : F) (w : Market F) : Prop where
  nonneg : ∀ o ∈ w.working, 0 ≤ o.left
  low : lo ≤ w.short - Working.bought w.working
  high : w.short + Working.sold w.working ≤ hi

variable {lo hi : F} {w w' : Market F}

theorem Within.short_mem (within : Within lo hi w) : lo ≤ w.short ∧ w.short ≤ hi := by
  have bought := Working.bought_nonneg within.nonneg
  have sold := Working.sold_nonneg within.nonneg
  have low := within.low
  have high := within.high
  constructor
  · linarith
  · linarith

theorem Within.of_idle (idle : w.working = []) (above : lo ≤ w.short) (below : w.short ≤ hi) :
    Within lo hi w where
  nonneg := by
    rw [idle]
    exact nofun
  low := by
    rw [idle, Working.bought_nil, sub_zero]
    exact above
  high := by
    rw [idle, Working.sold_nil, add_zero]
    exact below

theorem Within.of_same (within : Within lo hi w) (short : w'.short = w.short)
    (working : w'.working = w.working) : Within lo hi w' where
  nonneg := by
    rw [working]
    exact within.nonneg
  low := by
    rw [short, working]
    exact within.low
  high := by
    rw [short, working]
    exact within.high

theorem Within.trade (within : Within lo hi w) (fills : String → F) :
    Within lo hi (w.trade fills) := by
  obtain ⟨above, below⟩ := Working.fill_le fills within.nonneg
  have low := within.low
  have high := within.high
  constructor
  · intro o mem
    obtain ⟨old, stored, rfl⟩ := List.mem_map.mp mem
    exact sub_nonneg.mpr (Working.filled_mem fills (within.nonneg old stored)).2
  · change lo ≤ w.short + (w.working.map fun o => Working.moves o.buy (o.filled fills)).sum -
      Working.bought (w.working.map fun o => { o with left := o.left - o.filled fills })
    linarith
  · change w.short + (w.working.map fun o => Working.moves o.buy (o.filled fills)).sum +
      Working.sold (w.working.map fun o => { o with left := o.left - o.filled fills }) ≤ hi
    linarith

theorem Within.filter (within : Within lo hi w) {works : Working F → Bool}
    (short : w'.short = w.short) (working : w'.working = w.working.filter works) :
    Within lo hi w' := by
  obtain ⟨bought, sold⟩ := Working.filter_le within.nonneg works
  have low := within.low
  have high := within.high
  constructor
  · rw [working]
    exact fun o mem => within.nonneg o (List.mem_of_mem_filter mem)
  · rw [short, working]
    linarith
  · rw [short, working]
    linarith

/-- What the exchange does to the working orders before an operation. -/
def drift (input : MarketInput F) (w : Market F) : Market F := (w.trade input.fills).stop input.ends

theorem Within.drift (within : Within lo hi w) (input : MarketInput F) :
    Within lo hi (w.drift input) :=
  (within.trade input.fills).filter rfl rfl

theorem drift_of_idle (idle : w.working = []) (input : MarketInput F) : w.drift input = w := by
  obtain ⟨desk, short, working, books, residual, asset⟩ := w
  cases idle
  simp [drift, trade, stop]

end Market

end LpMaker.Hyperliquid
