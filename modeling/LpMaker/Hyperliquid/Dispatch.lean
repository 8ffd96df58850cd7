import LpMaker.Hyperliquid.Hedge
import LpMaker.Semantics.Implementation

/-!
# Requests to the exchange

A request is stored before it is sent: as `prepared` while nothing has left the process, as
`submitting` from just before it does. It stays stored until the exchange acknowledges it or what
became of it is found out. A process which finds a stored request never sends it again.
-/

namespace LpMaker.Hyperliquid

open Semantics

def asciiLower (id : String) : List Char := id.toList.map Char.toLower

/-- A request, with the account and the intent of the hedge which are stored beside it. -/
structure Request where
  action : Json
  nonce : Nat
  signature : Json
  vaultAddress : Json
  user : String
  hedgeIntent : Json
deriving DecidableEq

namespace Request

/-- What is sent. -/
def body (r : Request) : Json :=
  .obj [("action", r.action), ("nonce", .nat r.nonce), ("signature", r.signature),
    ("vaultAddress", r.vaultAddress), ("expiresAfter", .nat (r.nonce + 60000))]

/-- What is stored. -/
def pending (r : Request) (dispatchState : String) : Json :=
  .obj [("venue", .str "hyperliquid"), ("request", r.body), ("user", .str r.user),
    ("dispatch_state", .str dispatchState), ("hedge_intent", r.hedgeIntent)]

end Request

/-- The name under which an order is archived. -/
def archiveName (id : String) : Except Failure (List Char) := do
  ensure (id.utf8ByteSize = 34 ∧ id.toList.take 2 = ['0', 'x'] ∧
    (id.toList.drop 2).all fun c => c.isDigit ∨ 'a' ≤ c.toLower ∧ c.toLower ≤ 'f')
    (.other "invalid archived client ID")
  pure (asciiLower id)

def archivedOrder (archive : List Order) (id : String) : Except Failure (Option Order) := do
  let name ← archiveName id
  pure (archive.find? fun order => asciiLower order.cloid = name)

/-- One operation on the store, on the clock or on the exchange. -/
inductive DispatchOp where
  | desk (op : DeskOp)
  | archived (id : String)
  /-- A check of the surroundings: the signer and its identity, or the free space. -/
  | check
  | clock
  | readNonce
  | writeNonce (nonce : Nat)
  | writePending (value : Json)
  | post (request : Request)
  | asset
  | activeAsset

def DispatchOp.Reply : DispatchOp → Type
  | desk op => op.Reply
  | archived _ => Option Order
  | check | writeNonce _ | writePending _ => Unit
  | clock | readNonce | asset => Nat
  | post _ | activeAsset => Json

/-- The stored files, `nonce.json`, and the requests which were handed to the network, the last
one first, each with what was stored at that moment. -/
structure Dispatcher where
  desk : Desk
  nonce : Option Nat
  posted : List (Request × Desk)

namespace Dispatcher

def lastNonce (w : Dispatcher) : Nat := w.nonce.getD 0

/-- A write to the store, which may fail before or after it took effect. -/
def write (input : DeskInput) (written w : Dispatcher) : Except Failure Unit × Dispatcher :=
  match input.reply with
  | .ok _ => (.ok (), written)
  | .error failure => (.error failure, if input.applied then written else w)

def step : (op : DispatchOp) → DeskInput → Dispatcher → Except Failure op.Reply × Dispatcher
  | .desk op, input, w =>
      ((Desk.step op input w.desk).1, { w with desk := (Desk.step op input w.desk).2 })
  | .archived id, input, w =>
      (do let _ ← input.reply; archivedOrder w.desk.archive id, w)
  | .check, input, w => (input.reply.map fun _ => (), w)
  | .clock, input, w => (.ok input.nowMs, w)
  | .readNonce, input, w => (input.reply.map fun _ => w.lastNonce, w)
  | .writeNonce nonce, input, w => write input { w with nonce := some nonce } w
  | .writePending value, input, w =>
      write input { w with desk := { w.desk with pending := value } } w
  -- a request which fails may have reached the exchange
  | .post request, input, w =>
      (input.reply, { w with posted := (request, w.desk) :: w.posted })
  | .asset, input, w =>
      (do let answer ← input.reply
          context answer.asNat (.other "unknown/delisted native perpetual asset"), w)
  | .activeAsset, input, w => (input.reply, w)

def machine : Machine DispatchOp DispatchOp.Reply Failure Dispatcher DeskInput := ⟨step⟩

end Dispatcher

abbrev DispatchProgram := Program DispatchOp DispatchOp.Reply Failure

namespace Dispatch

abbrev call (op : DispatchOp) : DispatchProgram op.Reply := Program.call op

/-- A program on the stored files and on the order queries. -/
abbrev onDesk {α : Type} (program : DeskProgram α) : DispatchProgram α :=
  program.embed .desk fun _ reply => reply

abbrev lift {α : Type} (result : Except Failure α) : DispatchProgram α := Program.ofExcept result

abbrev archived (id : String) : DispatchProgram (Option Order) := call (.archived id)
abbrev check : DispatchProgram Unit := call .check
abbrev clock : DispatchProgram Nat := call .clock
abbrev readNonce : DispatchProgram Nat := call .readNonce
abbrev readPending : DispatchProgram Json := onDesk Desk.readPending
abbrev asset : DispatchProgram Nat := call .asset
abbrev activeAsset : DispatchProgram Json := call .activeAsset

end Dispatch

open Dispatch Journal

namespace Store

def nextNonce : DispatchProgram Nat := do
  let last ← readNonce
  let now ← clock
  let nonce := max now (last + 1)
  call (.writeNonce nonce)
  pure nonce

def «begin» (value : Json) : DispatchProgram Unit := do
  check
  let pending ← readPending
  lift (ensure (pending.isNull = true)
    (.other "unresolved operation: run reconcile before any new mutation"))
  call (.writePending value)
  onDesk (Desk.call .record)

def finish : DispatchProgram Unit := do
  onDesk (Desk.call .record)
  call (.writePending .null)

end Store

namespace Journal

/-- The order intents of an action, one after the other. -/
def validateIds (ledger : Ledger) : List Json → List (List Char) → DispatchProgram Unit
  | [], _ => pure ()
  | intent :: intents, seen => do
    let id ← lift (clientId intent "client ID required")
    lift (ensure (asciiLower id ∉ seen ∧
      ∀ order ∈ ledger.orders, eqIgnoreAsciiCase order.cloid id = false)
      (.other "client order ID already used; reject before preparing a new mutation"))
    let archived ← archived id
    lift (ensure (archived.isNone = true)
      (.other "client order ID already used; reject before preparing a new mutation"))
    validateIds ledger intents (asciiLower id :: seen)

def validateNewIds (action : Json) : DispatchProgram Unit :=
  if isOrder action then do
    let ledger ← onDesk Desk.readOrders
    let intents ← lift (intents action "order intents")
    validateIds ledger intents []
  else pure ()

/-- The record of an intent which is about to be sent. -/
def preparedOrder (user : String) (nonce : Nat) (managed : Bool) (cloid : String) (wire : Json) :
    Order where
  cloid := cloid
  oid := none
  user := user
  managedHedge := managed
  submittedMs := nonce
  observedMs := 0
  wire := wire
  status := "prepared"
  terminal := false
  exchange := .null

/-- The hedge claims this client id. -/
def isHedge (hedge pending : Json) (cloid : String) : Bool :=
  (hedge.field "cloid").asStr = some cloid ∨
    ((pending.field "hedge_intent").field "cloid").asStr = some cloid

def prepareOne (user : String) (nonce : Nat) (hedge pending : Json) (ledger : Ledger)
    (wire : Json) : Except Failure Ledger := do
  let cloid ← clientId wire "durable order requires a cloid"
  match ledger.get cloid with
  | some old =>
    if old.wire.isNull ∧ eqIgnoreAsciiCase old.user user then
      pure (ledger.set { old with wire := wire, submittedMs := nonce })
    else do
      ensure (eqIgnoreAsciiCase old.user user ∧ old.wire = wire ∧ old.submittedMs = nonce)
        (.other "client order ID already used; do not resubmit")
      pure ledger
  | none =>
    pure (ledger.orInsert (preparedOrder user nonce (isHedge hedge pending cloid) cloid wire))

/-- No intent is archived. -/
def checkArchive : List Json → DispatchProgram Unit
  | [] => pure ()
  | wire :: wires => do
    let id ← lift (clientId wire "cloid")
    let archived ← archived id
    lift (ensure (archived.isNone = true)
      (.other "client order ID already archived; do not reuse or resubmit"))
    checkArchive wires

def prepare (action : Json) (user : String) (nonce : Nat) : DispatchProgram Unit :=
  if isOrder action then do
    let hedge ← onDesk Desk.readHedgeOrder
    let pending ← readPending
    let wires ← lift (intents action "order intents missing")
    checkArchive wires
    onDesk (Desk.call (.updateOrders fun _ ledger =>
      wires.foldlM (prepareOne user nonce hedge pending) ledger))
  else pure ()

/-- Only a stored `prepared` proves that nothing was sent. -/
def retireOne (now : Nat) (ledger : Ledger) (wire : Json) : Except Failure Ledger := do
  let id ← clientId wire "cloid"
  match ledger.get id with
  | some order => do
    ensure (order.oid = none ∧ (order.status = "prepared" ∨ order.status = "not_submitted"))
      (.other "pre-dispatch order has unexpected exchange evidence")
    pure (ledger.set
      { order with status := "not_submitted", terminal := true, observedMs := now })
  | none => pure ledger

def retire (action : Json) : DispatchProgram Unit :=
  if isOrder action then
    onDesk (Desk.call (.updateOrders fun now ledger => do
      let wires ← intents action "order intents"
      wires.foldlM (retireOne now) ledger))
  else pure ()

def notSubmitted (action : Json) : DispatchProgram Unit := do
  retire action
  onDesk (Desk.call (.writeHedgeOrder .null))

/-- Take an acknowledgement into the stored ledger. -/
def acknowledge (action response : Json) : DispatchProgram Unit :=
  if isOrder action then
    onDesk (Desk.call (.updateOrders fun now ledger =>
      (acknowledged now action response ledger).1.map fun _ =>
        (acknowledged now action response ledger).2))
  else pure ()

end Journal

namespace Client

/-- The quote of a hedge order is still fresh. -/
def quoteFresh (hedge : Option Json) : DispatchProgram Unit :=
  match hedge with
  | none => pure ()
  | some hedge => do
    let quote ← lift (context (hedge.field "quote_ms").asNat (.other "quote time"))
    let now ← clock
    let lifetime ← lift (context (hedge.field "max_age_seconds").asNat (.other "quote lifetime"))
    lift (Runtime.fresh quote now lifetime)

def checkEnvelope (response : Json) : Except Failure Unit := do
  let status := (response.field "status").asStr
  ensure (status = some "ok" ∨ status = some "err")
    (.other "unknown exchange envelope; pending operation retained")
  let kind := ((response.field "response").field "type").asStr
  ensure (status = some "ok" → kind = some "default" ∨ kind = some "order" ∨ kind = some "cancel")
    (.other "unknown exchange response type; pending operation retained")

def validateResponse (response : Json) : Except Failure Unit := do
  ensure (¬isErr response) (.exchangeRejected "exchange rejected")
  ensure ((response.field "status").asStr = some "ok") (.other "unrecognized exchange response")
  ensure (∀ entry ∈ (statuses response).getD [], (entry.get? "error").isSome = false)
    (.exchangeRejected "exchange action rejected")

/-- The pointer to the order of the hedge. -/
def writeHedge : Option Json → DispatchProgram Unit
  | none => pure ()
  | some hedge => onDesk (Desk.call (.writeHedgeOrder hedge))

variable (sign : Json → Nat → Except Failure Json) (vault : Json) (user : String)

/-- Send a stored request, and store what the exchange says about it. -/
def send (r : Request) : DispatchProgram Json := do
  call (.writePending (r.pending "submitting"))
  -- a write is never sent again: a timeout can mean that the order exists
  let response ← call (.post r)
  lift (checkEnvelope response)
  acknowledge r.action response
  Store.finish
  lift (validateResponse response)
  pure response

def exchange (action : Json) (hedge : Option Json) : DispatchProgram Json := do
  validateNewIds action
  check
  quoteFresh hedge
  let nonce ← Store.nextNonce
  let signature ← lift (sign action nonce)
  let r : Request := ⟨action, nonce, signature, vault, user, hedge.getD .null⟩
  Store.begin (r.pending "prepared")
  writeHedge hedge
  prepare action user nonce
  -- the writes take time, and a stale quote is still provably unsent here
  quoteFresh hedge
  send r

def cancelAction (asset : Nat) (cloid : String) : Json :=
  .obj [("type", .str "cancelByCloid"),
    ("cancels", .arr [.obj [("asset", .nat asset), ("cloid", .str cloid)]])]

def cancel (cloid : String) : DispatchProgram Json := do
  let asset ← asset
  exchange sign vault user (cancelAction asset cloid) none

def checkActiveAsset (coin : String) (answer : Json) : Except Failure Unit := do
  ensure ((answer.field "coin").asStr = some coin ∧
      (answer.field "user").asStr.any fun u => eqIgnoreAsciiCase u user)
    (.other "active asset response identity mismatch")
  let leverage := answer.field "leverage"
  ensure ((leverage.field "value").asNat.isSome ∧
      ((leverage.field "type").asStr = some "cross" ∨
        (leverage.field "type").asStr = some "isolated"))
    (.other "invalid asset leverage response")

end Client

section Reconcile

variable (user coin : String)

/-- Look up every order of the stored request. -/
def resolveAll : List Json → DispatchProgram (List Json)
  | [] => pure []
  | wire :: wires => do
    let id ← lift (clientId wire "pending order has no client ID")
    let status ← onDesk (OrderRecovery.resolve user id false)
    let rest ← resolveAll wires
    pure (status :: rest)

def reconcileOrder (action : Json) (nonce : Nat) : DispatchProgram Json := do
  prepare action user nonce
  let orders ← lift (context (action.field "orders").asArray (.other "pending orders"))
  let statuses ← resolveAll user orders
  Store.finish
  pure (.obj [("statuses", .arr statuses)])

def reconcilePrepared (action : Json) (nonce : Nat) : DispatchProgram Json := do
  prepare action user nonce
  notSubmitted action
  Store.finish
  pure (.obj [("status", .str "not_submitted")])

def marginMode (action : Json) : String :=
  if action.field "isCross" = .bool true then "cross" else "isolated"

/-- Any other action is looked up by its effect. -/
def reconcileEffect (action : Json) : DispatchProgram Json :=
  let kind := (action.field "type").asStr
  if kind = some "cancel" ∨ kind = some "cancelByCloid" ∨ kind = some "scheduleCancel" then do
    let open_ ← onDesk Desk.openOrders
    lift (ensure (open_.asArray = some [])
      (.other "open orders remain; inspect before clearing cancellation"))
    Store.finish
    pure open_
  else if kind = some "updateLeverage" then do
    let asset ← asset
    lift (ensure (action.field "asset" = .nat asset) (.other "different leverage asset"))
    let state ← activeAsset
    lift (Client.checkActiveAsset user coin state)
    lift (ensure ((state.field "leverage").field "value" = action.field "leverage" ∧
        ((state.field "leverage").field "type").asStr =
          some (marginMode action))
      (.other "cannot verify leverage change; inspect account configuration"))
    Store.finish
    pure state
  else Program.throw (.other "pending non-order action requires checking its effect")

def reconcileStored (pending : Json) : DispatchProgram Json := do
  lift (ensure ((pending.field "venue").asStr = some "hyperliquid")
    (.other "unknown pending venue; operation retained"))
  lift (ensure ((pending.field "user").asStr.any fun u => eqIgnoreAsciiCase user u)
    (.other "pending operation belongs to another Hyperliquid account"))
  let action := (pending.field "request").field "action"
  let nonce := ((pending.field "request").field "nonce").asNat
  if (pending.field "dispatch_state").asStr = some "prepared" then do
    let nonce ← lift (context nonce (.other "pending nonce"))
    reconcilePrepared user action nonce
  else if isOrder action then do
    let nonce ← lift (context nonce (.other "pending request nonce"))
    reconcileOrder user action nonce
  else reconcileEffect user coin action

/-- What became of the stored operation. -/
def reconcile : DispatchProgram Json := do
  let pending ← readPending
  if pending.isNull then pure (.obj [("status", .str "no_pending_operation")])
  else reconcileStored user coin pending

end Reconcile

section Sync

variable (sign : Json → Nat → Except Failure Json) (vault : Json) (user coin : String)

/-- What the operations of the desk are: a cancel is a request of its own. -/
def DeskOp.program : (op : DeskOp) → DispatchProgram op.Reply
  | .cancel cloid => do
    let _ ← Client.cancel sign vault user cloid
    pure ()
  | .readOrders => call (.desk .readOrders)
  | .updateOrders change => call (.desk (.updateOrders change))
  | .archiveOrder order => call (.desk (.archiveOrder order))
  | .readHedgeOrder => call (.desk .readHedgeOrder)
  | .writeHedgeOrder value => call (.desk (.writeHedgeOrder value))
  | .readPending => call (.desk .readPending)
  | .record => call (.desk .record)
  | .ask question => call (.desk (.ask question))

def syncOrders (keep : Nat) (recoverManaged : Bool) : DispatchProgram Unit :=
  (Controller.syncOrders user coin keep recoverManaged).implement (DeskOp.program sign vault user)

/-- Cancel an order unless it is over, and look it up until it is. -/
def cancelIfOpen (cloid : String) : DispatchProgram Unit :=
  (Controller.cancelIfOpen user cloid).implement (DeskOp.program sign vault user)

end Sync

/-- What a process may do with the exchange, one after the other. The hedge asks for an order,
cancels it and clears its pointer. -/
inductive Command where
  | exchange (action : Json) (hedge : Option Json)
  | reconcile
  | syncOrders (keep : Nat) (recoverManaged : Bool)
  | cancelIfOpen (cloid : String)
  | clearPointer
  /-- The operations of the wallet share `pending.json`. -/
  | wallet (value : Json)

/-- The operations of the wallet leave those of the exchange alone. -/
def wallet (value : Json) : DispatchProgram Unit := do
  let pending ← readPending
  lift (ensure ((pending.field "venue").asStr ≠ some "hyperliquid" ∧
    (value.field "venue").asStr ≠ some "hyperliquid") (.other "another venue"))
  call (.writePending value)

/-- The settings of a process. -/
structure Trader where
  sign : Json → Nat → Except Failure Json
  vault : Json
  user : String
  coin : String

def Command.program : Trader × Command → DispatchProgram Unit
  | (a, .exchange action hedge) => do
    let _ ← Client.exchange a.sign a.vault a.user action hedge
    pure ()
  | (a, .reconcile) => do
    let _ ← Hyperliquid.reconcile a.user a.coin
    pure ()
  | (a, .syncOrders keep recoverManaged) =>
    Hyperliquid.syncOrders a.sign a.vault a.user a.coin keep recoverManaged
  | (a, .cancelIfOpen cloid) => Hyperliquid.cancelIfOpen a.sign a.vault a.user cloid
  | (_, .clearPointer) => onDesk (Desk.call (.writeHedgeOrder .null))
  | (_, .wallet value) => Hyperliquid.wallet value

end LpMaker.Hyperliquid
