import Mathlib
import LpMaker.Semantics.Json
import LpMaker.Semantics.Program
import LpMaker.Semantics.Result

/-!
# The Solana journal

A signed transaction is the one record of what was submitted: it is stored before it is
broadcast, and an unknown outcome is neither signed again nor sent again. A confirmation
changes the position map and then clears the record. Every operation receives an input of the
environment, which carries the reply of the adapter or makes the operation fail; a failed write
may still have taken effect.
-/

namespace LpMaker.Solana

open Semantics

structure PositionRecord where
  address : String
  sinceMs : Nat

/-- The position of every layer. -/
abbrev Positions := AList fun _ : String => PositionRecord

/-- The transaction which was signed last, until its outcome is known. -/
structure Pending where
  prepared : Json
  layer : Option String
  operation : String
deriving DecidableEq

namespace Pending

def signature (p : Pending) : Json := p.prepared.field "signature"

def rawTransaction (p : Pending) : Json := p.prepared.field "raw_transaction"

/-- The address of the position which the transaction is about. -/
def position (p : Pending) : Option String := (p.prepared.field "position").asStr

def index (p : Pending) : Nat := (p.prepared.field "index").asNat.getD 0

def count (p : Pending) : Nat := (p.prepared.field "count").asNat.getD 0

/-- The last transaction of a removal, which closes the position. The sum wraps. -/
def removesFinally (p : Pending) : Bool :=
  p.operation = "remove" ∧ (p.index + 1) % 2 ^ 64 = p.count

end Pending

/-- Why a program of the journal stops. -/
inductive JournalFailure where
  /-- A file, or the adapter. -/
  | environment (message : String)
  /-- pending signature -/
  | noSignature
  /-- Solana transaction unresolved; keep original signature, no automatic re-sign (even after
  blockhash expiry) -/
  | unresolved (signature : String)
  /-- Solana transaction failed on chain; reconcile incomplete workflow before further entry -/
  | failedOnChain
  /-- position address -/
  | noPosition
  /-- unresolved venue operation blocks new submission -/
  | venueUnresolved
  /-- operation kind -/
  | noKind
  /-- transaction count -/
  | noCount
  /-- RPC signature mismatch; retain pending -/
  | signatureMismatch
  /-- confirmation timeout; persisted signature blocks duplicate submission -/
  | confirmationTimeout
deriving DecidableEq

/-- What may be asked of the adapter. -/
inductive Request where
  | plan (intent : Json)
  | prepare (index : Nat)
  | send (rawTransaction : Json)
  | status (signature : Json)
  | ack (index : Nat)

/-- One operation on the store or on the adapter. -/
inductive JournalOp where
  /-- The pending operation of the other venue. -/
  | readVenue
  | readPending
  | writePending (value : Option Pending)
  | updatePositions (change : Nat → Positions → Positions)
  /-- Append an event or keep a raw observation. -/
  | record
  | ask (request : Request)

/-- What an operation replies. -/
def JournalOp.Reply : JournalOp → Type
  | readVenue | ask _ => Json
  | readPending => Option Pending
  | writePending _ | updatePositions _ | record => Unit

/-- The environment at one operation: the clock, a failure or the reply, and whether a failed
write took effect. -/
structure JournalInput where
  nowMs : Nat
  outcome : Except String Json
  applied : Bool

/-- The reply, or the failure of the environment. -/
def JournalInput.reply (input : JournalInput) : Except JournalFailure Json :=
  input.outcome.mapError .environment

/-- A transaction which was handed to the network, with the record on disk at that moment. -/
structure Broadcast where
  rawTransaction : Json
  onDisk : Option Pending

/-- The stored files, together with every record which was ever written, what the adapter
answered about signatures and what was broadcast, the last first. -/
structure Journal where
  pending : Option Pending
  positions : Positions
  history : List Pending
  answers : List (Json × Json)
  sent : List Broadcast

namespace Journal

/-- A store which was never used. -/
def fresh : Journal := ⟨none, ∅, [], [], []⟩

/-- The pending file is replaced. -/
def stored (value : Option Pending) (w : Journal) : Journal :=
  { w with pending := value, history := value.toList ++ w.history }

/-- The adapter answered about a signature. -/
def answered (signature answer : Json) (w : Journal) : Journal :=
  { w with answers := (signature, answer) :: w.answers }

/-- A transaction is handed to the network, whatever comes back. -/
def broadcast (rawTransaction : Json) (w : Journal) : Journal :=
  { w with sent := ⟨rawTransaction, w.pending⟩ :: w.sent }

/-- A write to the store, which may fail before or after it took effect. -/
def write (input : JournalInput) (written w : Journal) : Except JournalFailure Unit × Journal :=
  match input.outcome with
  | .ok _ => (.ok (), written)
  | .error message => (.error (.environment message), if input.applied then written else w)

def ask (input : JournalInput) (w : Journal) : Request → Journal
  | .send rawTransaction => w.broadcast rawTransaction
  | .status signature =>
      match input.outcome with
      | .ok answer => w.answered signature answer
      | .error _ => w
  | .plan _ | .prepare _ | .ack _ => w

def step : (op : JournalOp) → JournalInput → Journal → Except JournalFailure op.Reply × Journal
  | .readVenue, input, w => (input.reply, w)
  | .readPending, input, w => (input.reply.map fun _ => w.pending, w)
  | .writePending value, input, w => write input (w.stored value) w
  | .updatePositions change, input, w =>
      write input { w with positions := change input.nowMs w.positions } w
  | .record, input, w => write input w w
  | .ask request, input, w => (input.reply, ask input w request)

def machine : Machine JournalOp JournalOp.Reply JournalFailure Journal JournalInput := ⟨step⟩

end Journal

abbrev JournalProgram := Program JournalOp JournalOp.Reply JournalFailure

namespace Journal

abbrev call (op : JournalOp) : JournalProgram op.Reply := Program.call op

abbrev readVenue : JournalProgram Json := call .readVenue
abbrev readPending : JournalProgram (Option Pending) := call .readPending
abbrev writePending (value : Option Pending) : JournalProgram Unit := call (.writePending value)
abbrev record : JournalProgram Unit := call .record
abbrev adapter (request : Request) : JournalProgram Json := call (.ask request)

/-- A computation of the program itself. -/
abbrev lift {α : Type} (result : Except JournalFailure α) : JournalProgram α :=
  Program.ofExcept result

/-- The network has decided about a transaction. -/
def resolved (status : Json) : Bool :=
  match (status.get? "status").filter (!·.isNull) with
  | none => false
  | some s =>
      s.field "confirmationStatus" = .str "confirmed" ∨
        s.field "confirmationStatus" = .str "finalized"

/-- A resolved transaction succeeded. -/
def succeeded (status : Json) : Bool := ((status.field "status").field "err").isNull

/-- The position map after a confirmed transaction of a layer. A position which is there stays
there. -/
def confirmedRows (p : Pending) (layer address : String) (nowMs : Nat) (rows : Positions) :
    Positions :=
  let rows :=
    if p.operation = "mint" ∧ layer ∉ rows then rows.insert layer ⟨address, nowMs⟩ else rows
  if p.removesFinally then rows.erase layer else rows

def applyConfirmed (p : Pending) : JournalProgram Unit :=
  match p.layer with
  | none => pure ()
  | some layer => do
    let address ← lift (context p.position .noPosition)
    call (.updatePositions (confirmedRows p layer address))

/-- Ask for the outcome of a pending transaction, and act on it. -/
def settle (p : Pending) : JournalProgram Unit := do
  let signature ← lift (context p.signature.asStr .noSignature)
  let status ← adapter (.status (.str signature))
  record
  lift (ensure (resolved status = true) (.unresolved signature))
  if succeeded status then
    applyConfirmed p
    record
    writePending none
  else
    record
    writePending none
    .throw .failedOnChain

def reconcile : JournalProgram Unit := do
  let pending ← readPending
  match pending with
  | none => pure ()
  | some p => settle p

/-- Wait for an outcome, and reconcile it. -/
def confirm (signature : Json) : Nat → JournalProgram Bool
  | 0 => pure false
  | attempts + 1 => do
    let status ← adapter (.status signature)
    if resolved status then
      reconcile
      pure true
    else confirm signature attempts

/-- Sign, store and broadcast one transaction of a plan, and wait for its outcome. -/
def transaction (kind : String) (layer : Option String) (index : Nat) : JournalProgram Unit := do
  let prepared ← adapter (.prepare index)
  let p : Pending := ⟨prepared, layer, kind⟩
  writePending (some p)
  record
  let response ← adapter (.send p.rawTransaction)
  lift (ensure (response.field "signature" = p.signature) .signatureMismatch)
  let confirmed ← confirm p.signature 40
  lift (ensure (confirmed = true) .confirmationTimeout)
  let _ ← adapter (.ack index)

def transactions (kind : String) (layer : Option String) : Nat → Nat → JournalProgram Unit
  | 0, _ => pure ()
  | remaining + 1, index => do
    transaction kind layer index
    transactions kind layer remaining (index + 1)

def execute (intent : Json) (layer : Option String) : JournalProgram Unit := do
  let venue ← readVenue
  lift (ensure (venue.isNull = true) .venueUnresolved)
  let pending ← readPending
  lift (ensure (pending = none) .venueUnresolved)
  let kind ← lift (context (intent.field "kind").asStr .noKind)
  let plan ← adapter (.plan intent)
  let count ← lift (context (plan.field "count").asNat .noCount)
  record
  transactions kind layer count 0

/-- What the trading loop starts. -/
inductive Command where
  | reconcile
  | execute (intent : Json) (layer : Option String)

def Command.program : Command → JournalProgram Unit
  | .reconcile => Journal.reconcile
  | .execute intent layer => Journal.execute intent layer

end Journal

end LpMaker.Solana
