import LpMaker.Hyperliquid.OrderRecovery

/-!
# Order synchronisation

Before the strategy trades, the stored orders and the open orders of the exchange are brought
together: unresolved orders are looked up, stale orders of the hedge are cancelled, and the open
orders are read again. An order which is not ours stops everything.
-/

namespace LpMaker.Hyperliquid

open Semantics Journal Desk OrderRecovery

namespace Ledger

/-- The orders in the order of their client ids. -/
def values (ledger : Ledger) : List Order :=
  ledger.orders.mergeSort fun a b => a.cloid ≤ b.cloid

/-- Add a record unless its client id has one. -/
def orInsert (ledger : Ledger) (order : Order) : Ledger :=
  if fresh : ledger.get order.cloid = none then ledger.insert order fresh else ledger

end Ledger

namespace Failure

def isExchangeRejected : Failure → Bool
  | exchangeRejected _ => true
  | _ => false

end Failure

namespace Journal

/-- The record of an order which an older version left. -/
def legacyOrder (user id : String) : Order where
  cloid := id
  oid := none
  user := user
  managedHedge := true
  submittedMs := 0
  observedMs := 0
  wire := .null
  status := "legacy_unverified"
  terminal := false
  exchange := .null

def importLegacy (user : String) : DeskProgram Unit := do
  let hedge ← readHedgeOrder
  if hedge.isNull then pure ()
  else
    let id ← lift (context (hedge.field "cloid").asStr (.other "invalid legacy hedge order"))
    call (.updateOrders fun _ ledger => .ok (ledger.orInsert (legacyOrder user id)))

def refreshOrders (user : String) : List Order → DeskProgram Unit
  | [] => pure ()
  | order :: orders => do
    lift (ensure (eqIgnoreAsciiCase order.user user = true)
      (.other "order ledger belongs to another account"))
    if order.terminal then refreshOrders user orders
    else
      let _ ← resolve user order.cloid false
      refreshOrders user orders

def refresh (user : String) : DeskProgram Unit := do
  importLegacy user
  let ledger ← readOrders
  refreshOrders user ledger.values

/-- The id of the record which an open order belongs to. -/
def managedOpenOrder (ledger : Ledger) (coin : String) (row : Json) : Except Failure String := do
  let oid ← context (row.field "oid").asNat (.other "open order oid")
  let order ← context (ledger.values.find? fun order => order.oid = some oid)
    (.other "untracked exchange order; recorded but will not cancel/adopt automatically")
  ensure (order.managedHedge = true ∧ (row.field "coin").asStr = some coin)
    (.other "non-strategy or inconsistent open order; startup blocked")
  ensure (order.terminal = false) (.readUnavailable
    "exchange open orders lag a confirmed terminal order; retry reconciliation")
  pure order.cloid

def managedOpenOrders (ledger : Ledger) (open_ : Json) (coin : String) :
    Except Failure (List String) := do
  let rows ← context open_.asArray (.other "open orders response")
  let ids ← rows.mapM (managedOpenOrder ledger coin)
  ensure (∀ order ∈ ledger.values, order.terminal = false → order.cloid ∈ ids)
    (.readUnavailable "local unresolved order absent from exchange open orders")
  pure ids

/-- The final records which are too many, the oldest first. -/
def removable (ledger : Ledger) (pointer : Json) (keep : Nat) : List (Nat × String) :=
  let terminal := ledger.values.filter fun order =>
    order.terminal ∧ (pointer.field "cloid").asStr ≠ some order.cloid
  let sorted := (terminal.map fun order => (order.observedMs, order.cloid)).mergeSort fun a b =>
    a.1 < b.1 ∨ a.1 = b.1 ∧ a.2 ≤ b.2
  sorted.take (sorted.length - keep)

/-- Archive records and take them off the ledger. -/
def archiveAll : List (Nat × String) → Ledger → DeskProgram Ledger
  | [], ledger => pure ledger
  | (_, id) :: rest, ledger => do
    let order ← lift (context (ledger.get id) (.other "terminal order disappeared"))
    call (.archiveOrder order)
    archiveAll rest (ledger.erase id)

def compact (keep : Nat) : DeskProgram Unit := do
  let pointer ← readHedgeOrder
  let pending ← readPending
  -- nothing is pruned while an operation still needs reconciliation
  if pending.isNull then
    let ledger ← readOrders
    let kept ← archiveAll (removable ledger pointer keep) ledger
    call (.updateOrders fun _ _ => .ok kept)
  else pure ()

end Journal

namespace Controller

/-- A rejected cancel can race a fill, so that only the status after it counts. -/
def confirmCancelled (user id : String) : DeskProgram Unit := do
  let after ← resolve user id true
  lift (ensure ((responseStatus after).any terminalStatus) (.other "cancel/fill not confirmed"))

def cancelIfOpen (user id : String) : DeskProgram Unit := do
  let status ← resolve user id false
  if describesOrder status ∧ responseStatus status = some "open" then
    match ← tryCancel id with
    | .ok _ => confirmCancelled user id
    | .error failure =>
      let pending ← readPending
      if pending.isNull = false ∨ failure.isExchangeRejected = false then Program.throw failure
      else confirmCancelled user id
  else pure ()

def cancelStale (user : String) : List String → DeskProgram Unit
  | [] => pure ()
  | id :: ids => do
    call .record
    cancelIfOpen user id
    cancelStale user ids

/-- Read the open orders and keep them. -/
def observeOpenOrders : DeskProgram Json := do
  let open_ ← openOrders
  call .record
  pure open_

def syncOrders (user coin : String) (keep : Nat) (recoverManaged : Bool) : DeskProgram Unit := do
  let _ ← observeOpenOrders
  refresh user
  let open_ ← observeOpenOrders
  let ledger ← readOrders
  let ids ← lift (managedOpenOrders ledger open_ coin)
  lift (ensure (recoverManaged = true ∨ ids = [])
    (.other "unexpected outstanding strategy order; restart reconciliation required"))
  cancelStale user ids
  let after ← observeOpenOrders
  let rows ← lift (context after.asArray (.other "open orders response"))
  if rows = [] then
    call (.writeHedgeOrder .null)
    compact keep
  else
    let ledger ← readOrders
    let _ ← lift (managedOpenOrders ledger after coin)
    Program.throw (.readUnavailable
      "open orders remain after reconciliation; retry reads before further trading")

end Controller

end LpMaker.Hyperliquid
