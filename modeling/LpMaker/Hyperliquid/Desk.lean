import LpMaker.Hyperliquid.Journal
import LpMaker.Semantics.Program

/-!
# The order desk

What the order programs do to the stored files and to the exchange: they read and change the
ledger, ask the exchange and cancel orders. Every operation receives an input of the
environment, which carries the reply or makes the operation fail; a failed write may still have
taken effect.
-/

namespace LpMaker.Hyperliquid

open Semantics

/-- What may be asked of the exchange. -/
inductive Question where
  | orderStatus (query : Json)
  | openOrders

/-- One operation on the store or on the exchange. -/
inductive DeskOp where
  | readOrders
  | updateOrders (change : Nat → Ledger → Except Failure Ledger)
  | archiveOrder (order : Order)
  | readHedgeOrder
  | writeHedgeOrder (value : Json)
  | readPending
  /-- Append an event or keep a raw observation. -/
  | record
  | ask (question : Question)
  | cancel (cloid : String)

/-- What an operation replies. -/
def DeskOp.Reply : DeskOp → Type
  | readOrders => Ledger
  | updateOrders _ | archiveOrder _ | writeHedgeOrder _ | record | cancel _ => Unit
  | readHedgeOrder | readPending | ask _ => Json

/-- The environment at one operation: the clock, a failure or the reply of the exchange, whether
a failed write took effect, and the pending file which a cancel leaves. -/
structure DeskInput where
  nowMs : Nat
  reply : Except Failure Json
  applied : Bool
  pending : Json

/-- The stored files, what the exchange answered so far (the last answer first) and what was
cancelled, each with the record which the ledger held. -/
structure Desk where
  ledger : Ledger
  archive : List Order
  hedgeOrder : Json
  pending : Json
  answers : List (Question × Json)
  cancelled : List (String × Option Order)

namespace Desk

/-- A write to the store, which may fail before or after it took effect. -/
def write (input : DeskInput) (written w : Desk) : Except Failure Unit × Desk :=
  match input.reply with
  | .ok _ => (.ok (), written)
  | .error failure => (.error failure, if input.applied then written else w)

/-- A question to the exchange. -/
def ask (question : Question) (input : DeskInput) (w : Desk) : Except Failure Json × Desk :=
  match input.reply with
  | .ok answer => (.ok answer, { w with answers := (question, answer) :: w.answers })
  | .error failure => (.error failure, w)

/-- A read of a stored file. -/
def read {α : Type} (input : DeskInput) (value : α) (w : Desk) : Except Failure α × Desk :=
  match input.reply with
  | .ok _ => (.ok value, w)
  | .error failure => (.error failure, w)

def step : (op : DeskOp) → DeskInput → Desk → Except Failure op.Reply × Desk
  | .readOrders, input, w => read input w.ledger w
  | .updateOrders change, input, w =>
      match change input.nowMs w.ledger with
      | .ok ledger => write input { w with ledger := ledger } w
      | .error failure => (.error failure, w)
  | .archiveOrder order, input, w => write input { w with archive := order :: w.archive } w
  | .readHedgeOrder, input, w => read input w.hedgeOrder w
  | .writeHedgeOrder value, input, w => write input { w with hedgeOrder := value } w
  | .readPending, input, w => read input w.pending w
  | .record, input, w => write input w w
  | .ask question, input, w => ask question input w
  | .cancel cloid, input, w =>
      (input.reply.map fun _ => (), { w with
        pending := input.pending
        cancelled := (cloid, w.ledger.get cloid) :: w.cancelled })

def machine : Machine DeskOp DeskOp.Reply Failure Desk DeskInput := ⟨step⟩

end Desk

abbrev DeskProgram := Program DeskOp DeskOp.Reply Failure

namespace Desk

/-- Perform one operation, and fail where it fails. -/
abbrev call (op : DeskOp) : DeskProgram op.Reply := Program.call op

abbrev readOrders : DeskProgram Ledger := call .readOrders
abbrev orderStatus (query : Json) : DeskProgram Json := call (.ask (.orderStatus query))
abbrev openOrders : DeskProgram Json := call (.ask .openOrders)
abbrev readHedgeOrder : DeskProgram Json := call .readHedgeOrder
abbrev readPending : DeskProgram Json := call .readPending

/-- Cancel, and keep a failure as a value. -/
abbrev tryCancel (cloid : String) : DeskProgram (Except Failure Unit) :=
  Program.tryCall (DeskOp.cancel cloid)

/-- A computation of the program itself. -/
abbrev lift {α : Type} (result : Except Failure α) : DeskProgram α := Program.ofExcept result

section Rules

variable {Inv : Desk → Prop} {w : Desk}

/-- A write leaves the old state or the new one, and the new one where it succeeds. -/
theorem write_spec {input : DeskInput} {written : Desk} {P : Desk → Prop} (inv : Inv w)
    (kept : Inv written) (holds : P written) :
    Inv (write input written w).2 ∧
      ∀ value, (write input written w).1 = .ok value → P (write input written w).2 := by
  unfold write
  cases input.reply with
  | ok _ => exact ⟨kept, fun _ _ => holds⟩
  | error failure =>
      constructor
      · cases input.applied
        · exact inv
        · exact kept
      · intro value same
        cases same

/-- A read returns what is stored. -/
theorem read_spec {α : Type} {input : DeskInput} {stored : α} {P : α → Desk → Prop} (inv : Inv w)
    (holds : P stored w) :
    Inv (read input stored w).2 ∧
      ∀ value, (read input stored w).1 = .ok value → P value (read input stored w).2 := by
  unfold read
  cases input.reply with
  | ok _ =>
      constructor
      · exact inv
      · intro value same
        cases same
        exact holds
  | error failure =>
      constructor
      · exact inv
      · intro value same
        cases same

/-- The exchange may answer anything, and every answer is kept. -/
theorem spec_ask {question : Question} {P : Json → Desk → Prop} (inv : Inv w)
    (answered : ∀ answer, Inv { w with answers := (question, answer) :: w.answers } ∧
      P answer { w with answers := (question, answer) :: w.answers }) :
    machine.spec Inv (call (.ask question)) P w := by
  apply Machine.spec_call inv
  intro input
  change Inv (ask question input w).2 ∧
    ∀ value, (ask question input w).1 = .ok value → P value (ask question input w).2
  unfold ask
  cases input.reply with
  | ok answer =>
      constructor
      · exact (answered answer).1
      · intro value same
        cases same
        exact (answered answer).2
  | error failure =>
      constructor
      · exact inv
      · intro value same
        cases same

/-- A change of the ledger fails with no effect, or replaces it. -/
theorem spec_updateOrders {change : Nat → Ledger → Except Failure Ledger} {P : Unit → Desk → Prop}
    (inv : Inv w)
    (changed : ∀ now ledger, change now w.ledger = .ok ledger →
      Inv { w with ledger := ledger } ∧ P () { w with ledger := ledger }) :
    machine.spec Inv (call (.updateOrders change)) P w := by
  apply Machine.spec_call inv
  intro input
  cases made : change input.nowMs w.ledger with
  | error failure =>
      have failed : machine.step (.updateOrders change) input w = (.error failure, w) := by
        change (match change input.nowMs w.ledger with
          | .ok ledger => write input { w with ledger := ledger } w
          | .error failure => (.error failure, w)) = _
        rw [made]
        rfl
      rw [failed]
      constructor
      · exact inv
      · intro value same
        cases same
  | ok ledger =>
      have stepped : machine.step (.updateOrders change) input w =
          write input { w with ledger := ledger } w := by
        change (match change input.nowMs w.ledger with
          | .ok ledger => write input { w with ledger := ledger } w
          | .error failure => (.error failure, w)) = _
        rw [made]
      rw [stepped]
      obtain ⟨kept, post⟩ := changed _ _ made
      exact write_spec inv kept post

/-- A note on the side changes nothing. -/
theorem spec_record {P : Unit → Desk → Prop} (inv : Inv w) (holds : P () w) :
    machine.spec Inv (call .record) P w :=
  Machine.spec_call inv fun _ => write_spec inv inv holds

theorem spec_archiveOrder {order : Order} {P : Unit → Desk → Prop} (inv : Inv w)
    (kept : Inv { w with archive := order :: w.archive })
    (holds : P () { w with archive := order :: w.archive }) :
    machine.spec Inv (call (.archiveOrder order)) P w :=
  Machine.spec_call inv fun _ => write_spec inv kept holds

theorem spec_writeHedgeOrder {value : Json} {P : Unit → Desk → Prop} (inv : Inv w)
    (kept : Inv { w with hedgeOrder := value }) (holds : P () { w with hedgeOrder := value }) :
    machine.spec Inv (call (.writeHedgeOrder value)) P w :=
  Machine.spec_call inv fun _ => write_spec inv kept holds

theorem spec_readOrders {P : Ledger → Desk → Prop} (inv : Inv w) (holds : P w.ledger w) :
    machine.spec Inv readOrders P w :=
  Machine.spec_call inv fun _ => read_spec inv holds

theorem spec_readHedgeOrder {P : Json → Desk → Prop} (inv : Inv w) (holds : P w.hedgeOrder w) :
    machine.spec Inv readHedgeOrder P w :=
  Machine.spec_call inv fun _ => read_spec inv holds

theorem spec_readPending {P : Json → Desk → Prop} (inv : Inv w) (holds : P w.pending w) :
    machine.spec Inv readPending P w :=
  Machine.spec_call inv fun _ => read_spec inv holds

/-- A cancel may fail or not, and may leave anything pending. -/
theorem spec_cancel {cloid : String} {P : Except Failure Unit → Desk → Prop} (inv : Inv w)
    (cancelled : ∀ pending result,
      Inv { w with
        pending := pending
        cancelled := (cloid, w.ledger.get cloid) :: w.cancelled } ∧
      P result { w with
        pending := pending
        cancelled := (cloid, w.ledger.get cloid) :: w.cancelled }) :
    machine.spec Inv (tryCancel cloid) P w :=
  Machine.spec_tryCall inv fun input => cancelled input.pending (input.reply.map fun _ => ())

end Rules

end Desk

end LpMaker.Hyperliquid
