import Mathlib

/-!
# Fee growth of a concentrated-liquidity pool

A pool adds the fees for one unit of liquidity to a global counter, and keeps at every
initialized tick the growth on the other side of it. A crossing flips that value. Counters are
words and wrap around, so a growth is known by its residue.
-/

namespace FeeGrowth

abbrev Word := BitVec 256

/-- An initialized tick with the growth of both tokens on its other side. -/
structure TickInfo where
  outside : Fin 2 → Word

structure Pool where
  tick : Int
  growth : Fin 2 → Word
  ticks : Int → Option TickInfo

/-- A move of the tick crosses a boundary. -/
def Crosses (start stop boundary : Int) : Prop :=
  start < boundary ∧ boundary ≤ stop ∨ stop < boundary ∧ boundary ≤ start

instance (start stop boundary : Int) : Decidable (Crosses start stop boundary) := by
  unfold Crosses
  infer_instance

/-- What may happen in a pool. A swap is a sequence of fees and moves. -/
inductive Event where
  /-- The global counters grow by the fees for one unit of liquidity. -/
  | accrue (amounts : Fin 2 → Nat)
  | move (tick : Int)
  | activate (tick : Int) (info : TickInfo)
  | deactivate (tick : Int)

namespace Pool

def apply (pool : Pool) : Event → Pool
  | .accrue amounts =>
      { pool with growth := fun token => pool.growth token + BitVec.ofNat 256 (amounts token) }
  | .move tick =>
      { pool with
        tick := tick
        ticks := fun boundary =>
          if Crosses pool.tick tick boundary then
            (pool.ticks boundary).map fun info =>
              ⟨fun token => pool.growth token - info.outside token⟩
          else pool.ticks boundary }
  | .activate tick info =>
      { pool with ticks := Function.update pool.ticks tick ((pool.ticks tick).getD info) }
  | .deactivate tick => { pool with ticks := Function.update pool.ticks tick none }

def run (pool : Pool) (events : List Event) : Pool := events.foldl apply pool

/-- The growth which an event adds while a condition on the tick holds. -/
def added (pool : Pool) (region : Int → Bool) (token : Fin 2) : Event → Nat
  | .accrue amounts => if region pool.tick then amounts token else 0
  | _ => 0

/-- The growth accrued along a run while the tick is in a region. -/
def accrued (region : Int → Bool) (token : Fin 2) : Pool → List Event → Nat
  | _, [] => 0
  | pool, event :: events =>
      pool.added region token event + accrued region token (pool.apply event) events

/-- The growth accrued along a run while the tick is between two boundaries. -/
def accruedInside (lower upper : Int) (pool : Pool) (events : List Event) (token : Fin 2) : Nat :=
  accrued (fun tick => lower ≤ tick ∧ tick < upper) token pool events

/-- The growth below a boundary, as its tick knows it. -/
def growthBelow (pool : Pool) (info : TickInfo) (boundary : Int) (token : Fin 2) : Word :=
  if pool.tick ≥ boundary then info.outside token else pool.growth token - info.outside token

/-- The growth above a boundary, as its tick knows it. -/
def growthAbove (pool : Pool) (info : TickInfo) (boundary : Int) (token : Fin 2) : Word :=
  if pool.tick < boundary then info.outside token else pool.growth token - info.outside token

/-- The growth between two boundaries. -/
def growthInside (pool : Pool) (lower upper : Int) (below above : TickInfo) (token : Fin 2) :
    Word :=
  pool.growth token - pool.growthBelow below lower token - pool.growthAbove above upper token

variable {pool : Pool} {info : TickInfo} {boundary lower upper tick : Int} {token : Fin 2}
  {event : Event} {events : List Event}

/-- Both sides of a boundary make up the whole growth. -/
theorem growthAbove_eq :
    pool.growthAbove info boundary token =
      pool.growth token - pool.growthBelow info boundary token := by
  unfold growthAbove growthBelow
  by_cases below : pool.tick < boundary
  · rw [if_pos below, if_neg (not_le.mpr below)]
    ring
  · rw [if_neg below, if_pos (not_lt.mp below)]

/-- The growth inside is a difference of growths below. -/
theorem growthInside_eq {below above : TickInfo} :
    pool.growthInside lower upper below above token =
      pool.growthBelow above upper token - pool.growthBelow below lower token := by
  unfold growthInside
  rw [growthAbove_eq]
  ring

/-- An event that keeps a tick initialized changes the growth below it only by fees which
accrue below it. -/
theorem growthBelow_apply (present : pool.ticks boundary = some info)
    (kept : event ≠ .deactivate boundary) :
    ∃ info', (pool.apply event).ticks boundary = some info' ∧ ∀ token,
      (pool.apply event).growthBelow info' boundary token =
        pool.growthBelow info boundary token +
          BitVec.ofNat 256 (pool.added (fun tick => tick < boundary) token event) := by
  cases event with
  | accrue amounts =>
      refine ⟨info, present, fun token => ?_⟩
      unfold growthBelow added apply
      dsimp only
      by_cases below : pool.tick < boundary
      · rw [if_neg (not_le.mpr below), if_neg (not_le.mpr below), if_pos (decide_eq_true below)]
        ring
      · rw [if_pos (not_lt.mp below), if_pos (not_lt.mp below), if_neg (by simpa using below)]
        simp
  | move tick =>
      by_cases crossed : Crosses pool.tick tick boundary
      · refine ⟨⟨fun token => pool.growth token - info.outside token⟩, ?_, fun token => ?_⟩
        · simp [apply, crossed, present]
        · -- The flip and the change of the side undo each other.
          unfold growthBelow added apply
          dsimp only
          rcases crossed with ⟨below, above⟩ | ⟨below, above⟩
          · rw [if_pos above, if_neg (not_le.mpr below)]
            simp
          · rw [if_neg (not_le.mpr below), if_pos above]
            simp
      · refine ⟨info, by simp [apply, crossed, present], fun token => ?_⟩
        have side : tick ≥ boundary ↔ pool.tick ≥ boundary := by
          unfold Crosses at crossed
          omega
        unfold growthBelow added apply
        simp [side]
  | activate other fresh =>
      refine ⟨info, ?_, fun token => by simp [growthBelow, added, apply]⟩
      by_cases here : boundary = other
      · subst here
        simp [apply, present]
      · simp [apply, here, present]
  | deactivate other =>
      have apart : boundary ≠ other := fun same => kept (by rw [same])
      exact ⟨info, by simp [apply, apart, present], fun token => by
        simp [growthBelow, added, apply]⟩

/-- Along a run the growth below a tick changes only by fees which accrue below it. -/
theorem growthBelow_run (present : pool.ticks boundary = some info)
    (kept : ∀ event ∈ events, event ≠ .deactivate boundary) :
    ∃ info', (pool.run events).ticks boundary = some info' ∧ ∀ token,
      (pool.run events).growthBelow info' boundary token =
        pool.growthBelow info boundary token +
          BitVec.ofNat 256 (accrued (fun tick => tick < boundary) token pool events) := by
  induction events generalizing pool info with
  | nil => exact ⟨info, present, fun token => by simp [run, accrued]⟩
  | cons event events inductionHypothesis =>
      obtain ⟨here, later⟩ := List.forall_mem_cons.mp kept
      obtain ⟨next, nextPresent, step⟩ := growthBelow_apply present here
      obtain ⟨last, lastPresent, rest⟩ := inductionHypothesis nextPresent later
      refine ⟨last, lastPresent, fun token => ?_⟩
      rw [show pool.run (event :: events) = (pool.apply event).run events from rfl, rest, step,
        accrued, BitVec.ofNat_add]
      ring

/-- What accrues below the upper end and not below the lower one accrues inside. -/
theorem accrued_split (ordered : lower < upper) :
    accrued (fun tick => tick < upper) token pool events =
      accrued (fun tick => tick < lower) token pool events +
        accruedInside lower upper pool events token := by
  unfold accruedInside
  induction events generalizing pool with
  | nil => rfl
  | cons event events inductionHypothesis =>
      have here : pool.added (fun tick => tick < upper) token event =
          pool.added (fun tick => tick < lower) token event +
            pool.added (fun tick => lower ≤ tick ∧ tick < upper) token event := by
        cases event with
        | accrue amounts =>
            unfold added
            simp only [decide_eq_true_eq]
            split_ifs <;> omega
        | move _ => rfl
        | activate _ _ => rfl
        | deactivate _ => rfl
      simp only [accrued, here, inductionHypothesis]
      omega

/-- Since a checkpoint the growth inside a range changed by what accrued inside. -/
theorem growthInside_run {below above : TickInfo} (ordered : lower < upper)
    (lower_present : pool.ticks lower = some below) (upper_present : pool.ticks upper = some above)
    (kept : ∀ event ∈ events, event ≠ .deactivate lower ∧ event ≠ .deactivate upper) :
    ∃ below' above', (pool.run events).ticks lower = some below' ∧
      (pool.run events).ticks upper = some above' ∧ ∀ token,
        (pool.run events).growthInside lower upper below' above' token -
            pool.growthInside lower upper below above token =
          BitVec.ofNat 256 (accruedInside lower upper pool events token) := by
  obtain ⟨below', lowerKept, lowerStep⟩ :=
    growthBelow_run lower_present fun event mem => (kept event mem).1
  obtain ⟨above', upperKept, upperStep⟩ :=
    growthBelow_run upper_present fun event mem => (kept event mem).2
  refine ⟨below', above', lowerKept, upperKept, fun token => ?_⟩
  rw [growthInside_eq, growthInside_eq, lowerStep, upperStep, accrued_split ordered,
    BitVec.ofNat_add]
  ring

end Pool

end FeeGrowth
