import LpMaker.Semantics.Json
import LpMaker.Semantics.Result

/-!
# The order journal

Order intents and what the exchange said about them, keyed by the client order id. Every change
of the stored ledger reads it, changes a copy and replaces it as a whole; a change that fails
leaves the stored ledger as it was.
-/

namespace LpMaker.Hyperliquid

/-- Why a step stops. -/
inductive Failure where
  | other (message : String)
  | readUnavailable (message : String)
  | exchangeRejected (message : String)
  /-- An index out of range. -/
  | panicked
deriving DecidableEq

def eqIgnoreAsciiCase (a b : String) : Bool := a.toList.map Char.toLower = b.toList.map Char.toLower

structure Order where
  cloid : String
  oid : Option Nat
  user : String
  managedHedge : Bool
  submittedMs : Nat
  observedMs : Nat
  wire : Json
  status : String
  terminal : Bool
  exchange : Json
deriving DecidableEq

/-- The hot ledger. An order is stored under its own client id. -/
structure Ledger where
  orders : List Order
  distinct : (orders.map Order.cloid).Nodup

namespace Ledger

def empty : Ledger := ⟨[], List.nodup_nil⟩

def get (ledger : Ledger) (id : String) : Option Order :=
  ledger.orders.find? fun order => order.cloid = id

/-- Replace the record of a client id. -/
def set (ledger : Ledger) (order : Order) : Ledger where
  orders := ledger.orders.map fun old => if old.cloid = order.cloid then order else old
  distinct := by
    have cloids : (ledger.orders.map fun old => if old.cloid = order.cloid then order else old).map
        Order.cloid = ledger.orders.map Order.cloid := by
      rw [List.map_map]
      apply List.map_congr_left
      intro old _
      change (if old.cloid = order.cloid then order else old).cloid = old.cloid
      split_ifs with same
      · exact same.symm
      · rfl
    rw [cloids]
    exact ledger.distinct

/-- Add a record under a new client id. -/
def insert (ledger : Ledger) (order : Order) (fresh : ledger.get order.cloid = none) : Ledger where
  orders := ledger.orders ++ [order]
  distinct := by
    rw [List.map_append, List.nodup_append]
    refine ⟨ledger.distinct, by simp, ?_⟩
    intro cloid mem other last same
    obtain ⟨old, stored, rfl⟩ := List.mem_map.mp mem
    rw [List.map_singleton, List.mem_singleton] at last
    have missing := List.find?_eq_none.mp fresh old stored
    simp only [decide_eq_true_eq] at missing
    exact missing (same.trans last)

def erase (ledger : Ledger) (id : String) : Ledger where
  orders := ledger.orders.filter fun order => order.cloid ≠ id
  distinct := ledger.distinct.sublist (List.filter_sublist.map _)

section Lemmas

variable {ledger : Ledger} {order old : Order} {id : String}

theorem cloid_of_get (found : ledger.get id = some order) : order.cloid = id := by
  have holds := List.find?_some found
  simpa using holds

theorem mem_of_get (found : ledger.get id = some order) : order ∈ ledger.orders :=
  List.mem_of_find?_eq_some found

theorem get_of_mem (mem : order ∈ ledger.orders) : ledger.get order.cloid = some order := by
  obtain ⟨orders, distinct⟩ := ledger
  unfold get
  dsimp only at mem ⊢
  induction orders with
  | nil => cases mem
  | cons first rest inductionHypothesis =>
      rw [List.map_cons, List.nodup_cons] at distinct
      rw [List.find?_cons]
      rcases List.mem_cons.mp mem with rfl | later
      · simp
      · have different : first.cloid ≠ order.cloid := by
          intro same
          exact distinct.1 (same ▸ List.mem_map_of_mem later)
        rw [decide_eq_false different]
        exact inductionHypothesis distinct.2 later

theorem get_eq_some_iff : ledger.get id = some order ↔ order ∈ ledger.orders ∧ order.cloid = id := by
  constructor
  · intro found
    exact ⟨mem_of_get found, cloid_of_get found⟩
  · rintro ⟨mem, rfl⟩
    exact get_of_mem mem

theorem get_set_same (stored : ledger.get order.cloid = some old) :
    (ledger.set order).get order.cloid = some order := by
  rw [get_eq_some_iff]
  refine ⟨?_, rfl⟩
  have same := cloid_of_get stored
  exact List.mem_map.mpr ⟨old, mem_of_get stored, if_pos same⟩

theorem get_set (stored : ledger.get id = some old) (same : order.cloid = id) :
    (ledger.set order).get id = some order := by
  subst same
  exact get_set_same stored

theorem get_set_other (different : id ≠ order.cloid) : (ledger.set order).get id = ledger.get id := by
  have keeps : ∀ old : Order, (if old.cloid = order.cloid then order else old).cloid = old.cloid := by
    intro old
    split_ifs with same
    · exact same.symm
    · rfl
  change (ledger.orders.map fun old => if old.cloid = order.cloid then order else old).find?
      (fun order => order.cloid = id) = ledger.orders.find? fun order => order.cloid = id
  induction ledger.orders with
  | nil => rfl
  | cons first rest inductionHypothesis =>
      simp only [List.map_cons, List.find?_cons, keeps]
      by_cases here : first.cloid = id
      · have other : ¬first.cloid = order.cloid := by
          rw [here]
          exact different
        simp [here, different]
      · simp only [here, decide_false]
        exact inductionHypothesis

theorem get_insert_same (fresh : ledger.get order.cloid = none) :
    (ledger.insert order fresh).get order.cloid = some order := by
  rw [get_eq_some_iff]
  exact ⟨List.mem_append_right _ (List.mem_singleton_self _), rfl⟩

theorem get_insert_other (fresh : ledger.get order.cloid = none) (different : id ≠ order.cloid) :
    (ledger.insert order fresh).get id = ledger.get id := by
  unfold get insert
  have none : [order].find? (fun order => order.cloid = id) = none := by
    simp [different.symm]
  rw [List.find?_append, none, Option.or_none]

theorem get_of_get_erase {other : String} (found : (ledger.erase id).get other = some order) :
    ledger.get other = some order := by
  rw [get_eq_some_iff] at found ⊢
  exact ⟨List.mem_of_mem_filter found.1, found.2⟩

end Lemmas

end Ledger

/-- Change the stored ledger, or leave it and fail. -/
def update (change : Ledger → Except Failure Ledger) (stored : Ledger) :
    Except Failure Unit × Ledger :=
  match change stored with
  | .ok ledger => (.ok (), ledger)
  | .error failure => (.error failure, stored)

theorem update_of_ok {change : Ledger → Except Failure Ledger} {stored ledger : Ledger}
    (changed : change stored = .ok ledger) : update change stored = (.ok (), ledger) := by
  unfold update
  rw [changed]

theorem update_of_error {change : Ledger → Except Failure Ledger} {stored : Ledger}
    {failure : Failure} (failed : change stored = .error failure) :
    update change stored = (.error failure, stored) := by
  unfold update
  rw [failed]

namespace Journal

def isOrder (action : Json) : Prop := (action.field "type").asStr = some "order"

instance {action : Json} : Decidable (isOrder action) :=
  inferInstanceAs (Decidable ((action.field "type").asStr = some "order"))

/-- The order intents of an action. -/
def intents (action : Json) (message : String) : Except Failure (List Json) :=
  context (action.field "orders").asArray (.other message)

/-- The client id of an intent. -/
def clientId (intent : Json) (message : String) : Except Failure String :=
  context (intent.field "c").asStr (.other message)

section Acknowledged

def isErr (response : Json) : Prop := (response.field "status").asStr = some "err"

instance {response : Json} : Decidable (isErr response) :=
  inferInstanceAs (Decidable ((response.field "status").asStr = some "err"))

/-- The status entries of a response. -/
def statuses (response : Json) : Option (List Json) :=
  (((response.field "response").field "data").field "statuses").asArray

/-- What one status entry says about its order. -/
def acknowledgement (response ack : Json) : Except Failure (String × Bool × Option Nat) :=
  if isErr response ∨ (ack.get? "error").isSome then .ok ("rejected", true, none)
  else
    match ((ack.field "resting").field "oid").asNat with
    | some oid => .ok ("open", false, some oid)
    | none =>
      match ((ack.field "filled").field "oid").asNat with
      | some oid => .ok ("filled", true, some oid)
      | none => .error (.other "unrecognized order acknowledgement; pending retained")

/-- The status entry at an index. Rust stops at an index that is out of range. -/
def ackAt (response : Json) (index : Nat) : Except Failure Json :=
  match statuses response with
  | some entries => context entries[index]? .panicked
  | none => .ok response

/-- An order with what was acknowledged. -/
def Order.acknowledge (now : Nat) (ack : Json) (said : String × Bool × Option Nat) (order : Order) :
    Order :=
  { order with
    status := said.1
    terminal := said.2.1
    oid := said.2.2
    observedMs := now
    exchange := ack }

def acknowledgeOne (now : Nat) (response : Json) (ledger : Ledger) (intent : Json × Nat) :
    Except Failure Ledger := do
  let id ← clientId intent.1 "client ID"
  let order ← context (ledger.get id) (.other "order intent not persisted")
  let ack ← ackAt response intent.2
  let said ← acknowledgement response ack
  pure (ledger.set (Order.acknowledge now ack said order))

def acknowledged (now : Nat) (action response : Json) (stored : Ledger) :
    Except Failure Unit × Ledger :=
  if isOrder action then
    match intents action "order intents" with
    | .error failure => (.error failure, stored)
    | .ok intents =>
      if isErr response ∨ (statuses response).any fun entries => entries.length = intents.length then
        update (intents.zipIdx.foldlM (acknowledgeOne now response)) stored
      else (.error (.other "order acknowledgement incomplete; pending retained"), stored)
  else (.ok (), stored)

end Acknowledged

section Observed

def terminalStatuses : List String :=
  ["filled", "not_submitted", "canceled", "rejected", "marginCanceled", "vaultWithdrawalCanceled",
    "openInterestCapCanceled", "selfTradeCanceled", "reduceOnlyCanceled", "siblingFilledCanceled",
    "delistedCanceled", "liquidatedCanceled", "scheduledCancel", "tickRejected",
    "minTradeNtlRejected", "perpMarginRejected", "reduceOnlyRejected", "badAloPxRejected",
    "iocCancelRejected", "badTriggerPxRejected", "marketOrderNoLiquidityRejected",
    "positionIncreaseAtOpenInterestCapRejected", "positionFlipAtOpenInterestCapRejected",
    "tooAggressiveAtOpenInterestCapRejected", "openInterestIncreaseRejected",
    "insufficientSpotBalanceRejected", "oracleRejected", "perpMaxPositionRejected"]

def terminalStatus (status : String) : Bool := status ∈ terminalStatuses

/-- The response describes an order. -/
def describesOrder (response : Json) : Prop := (response.field "status").asStr = some "order"

instance {response : Json} : Decidable (describesOrder response) :=
  inferInstanceAs (Decidable ((response.field "status").asStr = some "order"))

/-- The row of an order in a response. -/
def row (response : Json) : Json := (response.field "order").field "order"

/-- The status of an order in a response. -/
def responseStatus (response : Json) : Option String := ((response.field "order").field "status").asStr

/-- The row names no other client id. -/
def sameCloid (row : Json) (id : String) : Prop :=
  (row.field "cloid").isNull = true ∨ (row.field "cloid").asStr.any fun v => eqIgnoreAsciiCase v id

instance {row : Json} {id : String} : Decidable (sameCloid row id) :=
  inferInstanceAs (Decidable (_ ∨ _))

/-- Take one response about an order into the ledger. -/
def observeChange (now : Nat) (id : String) (response : Json) (ledger : Ledger) :
    Except Failure Ledger := do
  let o ← context (ledger.get id) (.other "unknown local order")
  if describesOrder response then
    ensure (sameCloid (row response) id) (.other "order cloid mismatch")
    let oid ← context ((row response).field "oid").asNat (.other "order oid missing")
    ensure (∀ old ∈ o.oid, old = oid) (.other "order oid changed unexpectedly")
    let status ← context (responseStatus response) (.other "order status missing")
    ensure (o.terminal = false ∨ o.status = status) (.other "terminal order status cannot regress")
    pure (ledger.set { o with
      oid := some oid
      status := status
      terminal := terminalStatus status
      observedMs := now
      exchange := response })
  else if o.oid.isSome ∨ o.terminal then
    -- an absence from the index does not erase what is already known
    pure ledger
  else
    pure (ledger.set { o with
      status := "unknown"
      terminal := false
      observedMs := now
      exchange := response })

/-- What `observe` still requires of the response once it is recorded. -/
def observeCheck (response : Json) : Except Failure Unit := do
  ensure (describesOrder response) (Failure.other "unknown; absence/expiry is not proof of no fill")
  let status ← context (responseStatus response) (.other "order status")
  ensure (status = "open" ∨ terminalStatus status = true)
    (.other "unresolved order status; no automatic replay")

end Observed

end Journal

end LpMaker.Hyperliquid
