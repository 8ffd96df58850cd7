import LpMaker.Hyperliquid.Orders
import LpMaker.Hyperliquid.OrderSync

/-!
# The hedge market

The account of the hedge at the exchange, next to the stored files. Before every operation the
exchange may fill or end any order which still works there. A read of the position shows every
fill of the orders which no longer work; while an order works it may show anything. A final
status answer is only given for an order which no longer works.
-/

namespace LpMaker.Hyperliquid

open Semantics Journal

variable (F : Type)

/-- An order which may still fill. -/
structure Working where
  cloid : String
  buy : Bool
  left : F

structure Book where
  bid : F
  ask : F
  time : Nat

/-- The position and the collateral free for shorts. -/
structure Account where
  position : F
  availableShortUsdc : F

/-- What is left of a hedge for a later cycle. -/
structure Residual where
  target : F
  actualShort : F
  residualBase : F
  residualUsd : F
  reason : String

/-- What happens to an order which is sent. -/
inductive Placement where
  /-- The order never leaves the program. -/
  | unsent (failure : Failure)
  | rejected
  | resting (oid : Nat)
  | filled (oid : Nat)
  /-- The result is uncertain, and the operation stays pending. -/
  | lost (message : String)

/-- One operation of the hedge. -/
inductive HedgeOp where
  | desk (op : DeskOp)
  | account
  | perpAccount
  | book
  | asset
  | freshCloid
  | clock
  | order (wire : Wire)
  | writeResidual (row : Option (Residual F))

variable {F}

def HedgeOp.Reply : HedgeOp F → Type
  | desk op => op.Reply
  | account => Account F
  | perpAccount => F
  | book => Book F
  | asset => Nat × Asset
  | freshCloid => String
  | clock => Nat
  | order _ | writeResidual _ => Unit

variable (F)

/-- The environment at one operation: which orders fill and end before it, and what it replies. -/
structure MarketInput where
  fills : String → F
  ends : String → Bool
  desk : DeskInput
  account : Account F
  book : Book F
  cloid : String
  /-- The record which an order leaves, apart from what the acknowledgement says. -/
  record : Order
  executed : F
  placement : Placement

/-- The stored files, the short position, the orders which still work, the books which were read
(the last one first), the recorded residual and the asset. -/
structure Market where
  desk : Desk
  short : F
  working : List (Working F)
  books : List (Book F)
  residual : Option (Residual F)
  asset : Nat × Asset

variable {F} [F64 F]

namespace Working

/-- How a fill moves the short position. -/
def moves (buy : Bool) (amount : F) : F := if buy then -amount else amount

/-- What fills of an order, at most what is left of it. -/
def filled (fills : String → F) (o : Working F) : F := F64.clamp (fills o.cloid) 0 o.left

end Working

namespace Book

def mid (book : Book F) : F := (book.bid + book.ask) / 2

/-- The best prices of a usable book. -/
def check (book : Book F) : Except Failure (Book F) := do
  ensure (F64.isFinite book.bid = true ∧ F64.isFinite book.ask = true)
    (.other "non-finite exchange number")
  ensure (book.bid > 0 ∧ book.ask ≥ book.bid) (.other "invalid/empty order book")
  pure book

end Book

namespace Market

/-- The working orders fill. -/
def trade (fills : String → F) (w : Market F) : Market F :=
  { w with
    short := w.short + (w.working.map fun o => Working.moves o.buy (o.filled fills)).sum
    working := w.working.map fun o => { o with left := o.left - o.filled fills } }

/-- Some orders end. -/
def stop (ends : String → Bool) (w : Market F) : Market F :=
  { w with working := w.working.filter fun o => !ends o.cloid }

/-- The response reports the order as final. -/
def isFinal (id : String) (response : Json) : Bool :=
  describesOrder response ∧ (responseStatus response).any terminalStatus = true ∧
    sameCloid (row response) id

/-- A reply which reports the order as final. -/
def reports (id : String) : (op : DeskOp) → Except Failure op.Reply → Bool
  | .ask (.orderStatus _), .ok response => isFinal id response
  | _, _ => false

/-- A read of the position. -/
def position (input : MarketInput F) (w : Market F) : Except Failure F :=
  let position := if w.working.isEmpty then -w.short else input.account.position
  if F64.isFinite position then .ok position else .error (.other "non-finite exchange number")

/-- What a read returns, unless the read fails. -/
def reply {α : Type} (input : MarketInput F) (value : Except Failure α) : Except Failure α := do
  let _ ← input.desk.reply
  value

def takeBook (input : MarketInput F) (w : Market F) : Except Failure (Book F) × Market F :=
  match reply input input.book.check with
  | .ok book => (.ok book, { w with books := book :: w.books })
  | .error failure => (.error failure, w)

/-- A write may fail before or after it took effect. -/
def putResidual (row : Option (Residual F)) (input : MarketInput F) (w : Market F) :
    Except Failure Unit × Market F :=
  match input.desk.reply with
  | .ok _ => (.ok (), { w with residual := row })
  | .error failure => (.error failure, if input.desk.applied then { w with residual := row } else w)

/-- A sent order leaves its record, and the operation is over or stays pending. -/
def keep (id status : String) (terminal : Bool) (oid : Option Nat) (pending : Json)
    (record : Order) (w : Market F) : Market F :=
  let order : Order := { record with
    cloid := id
    oid := oid
    managedHedge := true
    status := status
    terminal := terminal }
  { w with desk := { w.desk with
      ledger := w.desk.ledger.orInsert order
      pending := pending } }

/-- A part of a new order fills at once, and the rest works on. -/
def execute (id : String) (buy rests : Bool) (size executed : F) (w : Market F) : Market F :=
  let amount := F64.clamp executed 0 size
  { w with
    short := w.short + Working.moves buy amount
    working := if rests then ⟨id, buy, size - amount⟩ :: w.working else w.working }

/-- Send a new order. Only an acknowledged order is known to rest or to be over. -/
def send (size : F) (id : String) (wire : Wire) (input : MarketInput F) (w : Market F) :
    Except Failure Unit × Market F :=
  match input.placement with
  | .unsent failure => (.error failure, { w with desk := { w.desk with
      pending := input.desk.pending } })
  | .rejected => (.error (.exchangeRejected "exchange rejected"),
      w.keep id "rejected" true none .null input.record)
  | .filled oid => (.ok (), (w.keep id "filled" true (some oid) .null input.record).execute
      id wire.buy false size input.executed)
  | .resting oid => (.ok (), (w.keep id "open" false (some oid) .null input.record).execute
      id wire.buy (wire.tif ≠ "Ioc") size input.executed)
  | .lost message => (.error (.other message),
      (w.keep id "prepared" false none input.desk.pending input.record).execute
        id wire.buy true size input.executed)

def exchange (text : Decimal.Text) (wire : Wire) (input : MarketInput F) (w : Market F) :
    Except Failure Unit × Market F :=
  match wire.cloid, text.parse wire.size with
  | some id, some size =>
    if (w.desk.ledger.get id).isSome then
      (.error (.other "client order ID already used; reject before preparing a new mutation"), w)
    else send size.value id wire input w
  | _, _ => (.error (.other "client ID required"), w)

def act (text : Decimal.Text) : (op : HedgeOp F) → MarketInput F → Market F →
    Except Failure op.Reply × Market F
  | .desk op, input, w =>
      let result := Desk.step op input.desk w.desk
      (result.1, { w with
        desk := result.2
        working := w.working.filter fun o => !reports o.cloid op result.1 })
  | .account, input, w => (reply input
      ((w.position input).map fun position => { input.account with position := position }), w)
  | .perpAccount, input, w => (reply (α := F) input (w.position input), w)
  | .book, input, w => takeBook input w
  | .asset, input, w => (reply input (.ok w.asset), w)
  | .freshCloid, input, w => (.ok input.cloid, w)
  | .clock, input, w => (.ok input.desk.nowMs, w)
  | .order wire, input, w => exchange text wire input w
  | .writeResidual row, input, w => putResidual row input w

/-- What the exchange does to the working orders comes first. -/
def machine (text : Decimal.Text) :
    Machine (HedgeOp F) HedgeOp.Reply Failure (Market F) (MarketInput F) where
  step op input w := act text op input ((w.trade input.fills).stop input.ends)

end Market

end LpMaker.Hyperliquid
