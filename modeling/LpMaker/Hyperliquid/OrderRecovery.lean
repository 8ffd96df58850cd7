import LpMaker.Hyperliquid.Desk

/-!
# Order recovery

`resolve` asks the exchange about one order until an answer describes it. The answers may lag
and disagree; only answers that describe the order change its record.
-/

namespace LpMaker.Hyperliquid

open Semantics Journal Desk

/-- Record a response about an order and require that it settles its status. -/
def Journal.observe (id : String) (response : Json) : DeskProgram Unit := do
  call (.updateOrders fun now => observeChange now id response)
  call .record
  lift (observeCheck response)

namespace OrderRecovery

/-- The answer for an order whose record is already final. -/
def durableTerminal (id : String) (order : Order) : Json :=
  .obj [("status", .str "order"),
    ("order", .obj [("status", .str order.status),
      ("order", .obj [("oid", (order.oid.map Json.nat).getD .null), ("cloid", .str id)])]),
    ("source", .str "durable_terminal")]

/-- An open order as the answer of a status query. -/
def openRow (row : Json) : Json :=
  .obj [("status", .str "order"),
    ("order", .obj [("status", .str "open"), ("order", row)]),
    ("source", .str "openOrders")]

/-- What the queries of one attempt found. -/
inductive Asked where
  | resolved (response : Json)
  | unresolved (knownOpen : Bool)

/-- Ask for the order by one id after the other. -/
def askAll (id : String) (terminalOnly : Bool) : List Json → Bool → DeskProgram Asked
  | [], knownOpen => pure (.unresolved knownOpen)
  | query :: queries, knownOpen => do
    let response ← orderStatus query
    call .record
    if describesOrder response then
      observe id response
      if terminalOnly = false ∨ responseStatus response ≠ some "open" then
        pure (.resolved response)
      else askAll id terminalOnly queries true
    else
      lift (ensure ((response.field "status").asStr = some "unknownOid")
        (.other "unexpected order status response; order retained"))
      askAll id terminalOnly queries knownOpen

/-- An open order is ours by its confirmed order id or by its client id. -/
def isOurs (id : String) (oid : Option Nat) (row : Json) : Bool :=
  oid.any (fun oid => (row.field "oid").asNat = some oid) ∨
    (row.field "cloid").asStr.any fun v => eqIgnoreAsciiCase v id

/-- Look for the order among the open ones. -/
def searchOpen (id : String) (terminalOnly : Bool) (oid : Option Nat) :
    DeskProgram (Option Json) := do
  let open_ ← openOrders
  call .record
  let rows ← lift (context open_.asArray (.other "open orders response"))
  let found := rows.filter (isOurs id oid)
  lift (ensure (found.length ≤ 1) (.other "multiple open orders match one durable intent"))
  match found with
  | row :: _ =>
    observe id (openRow row)
    pure (if terminalOnly then none else some (openRow row))
  | [] => pure none

/-- One attempt. -/
def attempt (user id : String) (terminalOnly : Bool) : DeskProgram (Option Json) := do
  let ledger ← readOrders
  let order ← lift (context (ledger.get id) (.other "order recovery requires a durable intent"))
  lift (ensure (eqIgnoreAsciiCase order.user user = true)
    (.other "order ledger belongs to another account"))
  if order.terminal then
    lift (ensure (terminalStatus order.status = true) (.other "invalid durable terminal status"))
    pure (some (durableTerminal id order))
  else
    let queries := (order.oid.map Json.nat).toList ++ [Json.str id]
    match ← askAll id terminalOnly queries false with
    | .resolved response => pure (some response)
    | .unresolved true => pure none
    | .unresolved false => searchOpen id terminalOnly order.oid

/-- Attempts until one of them resolves the order. -/
def attempts (user id : String) (terminalOnly : Bool) : Nat → DeskProgram Json
  | 0 => do
    call .record
    Program.throw (.readUnavailable "order remains unresolved; absence is not proof of no fill")
  | n + 1 => do
    match ← attempt user id terminalOnly with
    | some response => pure response
    | none => attempts user id terminalOnly n

def resolve (user id : String) (terminalOnly : Bool) : DeskProgram Json :=
  attempts user id terminalOnly 5

end OrderRecovery

end LpMaker.Hyperliquid
