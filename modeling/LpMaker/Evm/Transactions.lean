import LpMaker.Engine.Runner
import LpMaker.Evm.Fees
import LpMaker.Semantics.Interleaving

/-!
# Transactions of the wallet

One transaction is signed at a time: its nonce is allocated, it is stored, its nonce is
reserved, and only then it is broadcast and waited for. A worker refreshes the nonce state in
the meantime, under the lock which the nonce manager also holds while it reserves and releases.
A transaction without an outcome blocks every further one; an approval may be signed again with
higher fees and the same nonce.
-/

namespace LpMaker.Evm

open Semantics

abbrev Address := BitVec 160

abbrev Word := BitVec 256

/-- A transaction signed by `signer`. It transfers no value. -/
structure Signed where
  chainId : Nat
  signer : Address
  nonce : Nat
  gas : Nat
  target : Address
  data : List (BitVec 8)
  fees : Envelope
deriving DecidableEq

/-- What a transaction is for. -/
inductive Kind where
  | mint (layer : String)
  | burn (layer : String)
  | approve (token spender : Address) (amount : Word)
  | approveZero (token spender : Address) (amount : Word)
  | increase
  | collect
  | swap
deriving DecidableEq

structure Operation where
  kind : Kind
  quoteTimeMs : Option Nat
deriving DecidableEq

section Records

variable (Hash : Type)

/-- A signed transaction with its hash, as it is stored. -/
structure Candidate where
  hash : Hash
  raw : Signed
deriving DecidableEq

/-- `pending.json` of the wallet. The root keeps its identity; replacements share its nonce. -/
structure Pending where
  root : Candidate Hash
  nonce : Nat
  owner : Address
  preparedMs : Nat
  operation : Operation
  replacements : List (Candidate Hash)
  lastBroadcastError : Option Hash
deriving DecidableEq

/-- The one unresolved operation, of this venue or of the other. -/
inductive Unresolved where
  | evm (p : Pending Hash)
  | venue (request : Json)
deriving DecidableEq

structure Inflight where
  nonce : Nat
  hash : Hash
  preparedMs : Nat
  status : String
deriving DecidableEq

/-- `evm_nonce.json`. -/
structure NonceState where
  chainId : Nat
  owner : Address
  latest : Nat
  pending : Nat
  nextFloor : Nat
  checkedMs : Nat
  inflight : Option (Inflight Hash)
deriving DecidableEq

structure Log where
  address : Address
  topics : List Word
deriving DecidableEq

structure Receipt where
  transactionHash : Hash
  blockNumber : Nat
  blockHash : String
  status : Nat
  logs : List Log
deriving DecidableEq

end Records

/-- The NFT of every layer, `nfts.json`. -/
abbrev Registry := AList fun _ : String => String

/-- The settings of the wallet. -/
structure Wallet where
  chainId : Nat
  owner : Address
  manager : Address
  router : Address
  base : Address
  quote : Address
  maxQuoteAgeSeconds : Nat
  gasLimitBufferBps : BitVec 32
  gasFeeBufferBps : BitVec 32
  confirmations : Nat
  /-- `keccak256("Transfer(address,address,uint256)")`. -/
  transferTopic : Word

variable {Hash : Type}

/-- The hashes of an operation, the root's first. -/
def Pending.candidates (p : Pending Hash) : List (Candidate Hash) := p.root :: p.replacements

namespace NonceState

/-- A state which was never stored. -/
def initial (wallet : Wallet) : NonceState Hash :=
  ⟨wallet.chainId, wallet.owner, 0, 0, 0, 0, none⟩

def observe (s : NonceState Hash) (latest pending nowMs : Nat) :
    Except String (NonceState Hash) := do
  ensure (pending ≥ latest) "inconsistent RPC nonce snapshot"
  pure { s with
    latest := latest
    pending := pending
    nextFloor := max s.nextFloor latest
    checkedMs := nowMs }

def available (s : NonceState Hash) : Except String Nat := do
  ensure (s.inflight.isNone = true) "local transaction unresolved; reconcile before sending"
  ensure (s.pending = s.latest) "external pending transactions; nonce allocation blocked"
  ensure (s.latest ≥ s.nextFloor)
    "RPC nonce regressed or submitted nonce unresolved; do not reuse nonce"
  pure s.latest

end NonceState

/-- `checked_add(1)` of 64-bit nonces. -/
def following (nonce : Nat) : Except String Nat := do
  ensure (nonce + 1 < 2 ^ 64) "nonce overflow"
  pure (nonce + 1)

/-- The two tasks of the process. -/
inductive Thread where
  | main
  | worker
deriving DecidableEq

variable (Hash) in
/-- One operation on the lock of the nonce manager, on the store or on a node. -/
inductive TxOp where
  | lock
  | unlock
  | now
  | refreshDue
  | readPending
  | begin (value : Unresolved Hash)
  | writePending (value : Option (Unresolved Hash))
  | readNonce
  | writeNonce (state : NonceState Hash)
  | readNfts
  | writeNfts (ids : Registry)
  | readLpHistory
  | writeLpHistory
  | record
  | chainId
  | latestCount
  | pendingCount
  | receipt (hash : Hash)
  | transactionByHash (hash : Hash)
  | blockNumber
  | blockHash (number : Nat)
  | simulate
  | estimateGas
  | estimateFees
  | checkGasBudget (gas : Nat) (fees : Fees)
  | sendRawTransaction (raw : Signed)

variable (Hash) in
/-- What an operation replies. -/
abbrev TxOp.Reply : TxOp Hash → Type
  | readPending => Option (Unresolved Hash)
  | readNonce => Option (NonceState Hash)
  | readNfts => Registry
  | readLpHistory | refreshDue => Bool
  | now | chainId | latestCount | pendingCount | blockNumber | estimateGas => Nat
  | receipt _ => Option (Receipt Hash)
  | transactionByHash _ => Option Hash
  | blockHash _ => String
  | estimateFees => Replies
  | sendRawTransaction _ => Hash
  | lock | unlock | begin _ | writePending _ | writeNonce _ | writeNfts _ | writeLpHistory
  | record | simulate | checkGasBudget _ _ => Unit

variable (Hash) in
/-- The environment at one operation: a failure, whether a failed write took effect, and what a
node or the clock says. -/
structure TxInput where
  failure : Option String
  applied : Bool
  number : Nat
  flag : Bool
  receipt : Option (Receipt Hash)
  hash : Option Hash
  sent : Hash
  fees : Replies

variable (Hash) in
/-- A transaction which was handed to the network, with the record on disk at that moment. -/
structure Broadcast where
  raw : Signed
  onDisk : Option (Unresolved Hash)

/-- What the network does in the end: the transaction which takes each nonce of the wallet, with
its receipt, and the hash of every block. -/
structure Chain (Hash : Type) where
  mined : Nat → Option (Signed × Receipt Hash)
  blockHash : Nat → String

variable (Hash) in
/-- The stored files and the lock in memory, together with every operation of the wallet which
was begun and every transaction which was broadcast, the last first. -/
structure TxWorld where
  pending : Option (Unresolved Hash)
  nonce : Option (NonceState Hash)
  nfts : Registry
  lpHistory : Bool
  lock : Option Thread
  begun : List (Pending Hash)
  sent : List (Broadcast Hash)

namespace TxWorld

/-- A directory which was never used. -/
def fresh : TxWorld Hash := ⟨none, none, ∅, false, none, [], []⟩

/-- An operation is begun: it is stored. -/
def store (w : TxWorld Hash) (value : Unresolved Hash) : TxWorld Hash :=
  { w with
    pending := some value
    begun := match value with
      | .evm p => p :: w.begun
      | .venue _ => w.begun }

/-- A write to the store, which may fail before or after it took effect. -/
def write {α : Type} (input : TxInput Hash) (reply : α) (written w : TxWorld Hash) :
    Except String α × TxWorld Hash :=
  match input.failure with
  | none => (.ok reply, written)
  | some message => (.error message, if input.applied then written else w)

/-- A question, to which the store or a node replies. -/
def ask {α : Type} (input : TxInput Hash) (reply : α) (w : TxWorld Hash) :
    Except String α × TxWorld Hash :=
  match input.failure with
  | none => (.ok reply, w)
  | some message => (.error message, w)

variable [DecidableEq Hash]

/-- A node has a receipt only of what was broadcast, and a receipt in a block of the chain is the
one of the transaction which took its nonce. -/
def receiptOf (digest : Signed → Hash) (chain : Chain Hash) (w : TxWorld Hash) (hash : Hash)
    (shown : Option (Receipt Hash)) : Option (Receipt Hash) :=
  shown.filter fun r => w.sent.any fun b =>
    decide (digest b.raw = hash ∧
      (r.blockHash = chain.blockHash r.blockNumber → chain.mined b.raw.nonce = some (b.raw, r)))

def step (digest : Signed → Hash) (chain : Chain Hash) (i : Thread) :
    (op : TxOp Hash) → TxInput Hash → TxWorld Hash → Except String (op.Reply Hash) × TxWorld Hash
  | .lock, _, w => (.ok (), { w with lock := some i })
  | .unlock, _, w => (.ok (), { w with lock := none })
  | .now, input, w | .chainId, input, w | .latestCount, input, w | .pendingCount, input, w
  | .blockNumber, input, w | .estimateGas, input, w => ask input input.number w
  | .refreshDue, input, w => ask input input.flag w
  | .readPending, input, w => ask input w.pending w
  | .begin value, input, w =>
      match w.pending with
      | some _ =>
          (.error "unresolved operation: run reconcile before any new mutation", w)
      | none => write input () (w.store value) w
  | .writePending value, input, w => write input () { w with pending := value } w
  | .readNonce, input, w => ask input w.nonce w
  | .writeNonce state, input, w => write input () { w with nonce := some state } w
  | .readNfts, input, w => ask input w.nfts w
  | .writeNfts ids, input, w => write input () { w with nfts := ids } w
  | .readLpHistory, input, w => ask input w.lpHistory w
  | .writeLpHistory, input, w => write input () { w with lpHistory := true } w
  | .record, input, w => write input () w w
  | .receipt hash, input, w => ask input (receiptOf digest chain w hash input.receipt) w
  | .transactionByHash _, input, w => ask input input.hash w
  | .blockHash number, input, w => ask input (chain.blockHash number) w
  | .simulate, input, w | .checkGasBudget _ _, input, w => ask input () w
  | .estimateFees, input, w => ask input input.fees w
  | .sendRawTransaction raw, input, w =>
      ask input input.sent { w with sent := ⟨raw, w.pending⟩ :: w.sent }

end TxWorld

variable (Hash) in
abbrev TxProgram := Program (TxOp Hash) (TxOp.Reply Hash) String

namespace Tx

abbrev call (op : TxOp Hash) : TxProgram Hash (op.Reply Hash) := Program.call op

/-- A computation of the program itself. -/
abbrev lift {α : Type} (result : Except String α) : TxProgram Hash α := Program.ofExcept result

/-- Hold the lock of the nonce manager, and release it however the body ends. -/
def locked {α : Type} (body : TxProgram Hash α) : TxProgram Hash α := do
  call .lock
  let result ← body.attempt
  call .unlock
  lift result

section Nonces

variable (wallet : Wallet) [DecidableEq Hash]

def load : TxProgram Hash (NonceState Hash) := do
  let stored : Option (NonceState Hash) ← call .readNonce
  let s := stored.getD (.initial wallet)
  lift (ensure (s.chainId = wallet.chainId ∧ s.owner = wallet.owner)
    "nonce state belongs to another chain/wallet")
  pure s

/-- Recover the window between the writes of the pending file and of the nonce state. -/
def recoverPending (pending : Option (Unresolved Hash)) (s : NonceState Hash) :
    Except String (NonceState Hash) :=
  match pending with
  | some (.evm p) => do
    ensure (p.owner = wallet.owner) "pending signer mismatch"
    let next ← following p.nonce
    pure { s with
      nextFloor := max s.nextFloor next
      inflight := s.inflight <|> some ⟨p.nonce, p.root.hash, p.preparedMs, "unresolved"⟩ }
  | some (.venue _) | none => pure s

/-- The receipt of the reserved transaction is only reported. -/
def report (state : NonceState Hash) : TxProgram Hash Unit :=
  match state.inflight with
  | some op => do
    let _ ← call (.receipt op.hash)
    pure ()
  | none => pure ()

def refresh : TxProgram Hash (NonceState Hash) := locked do
  let chainId : Nat ← call .chainId
  lift (ensure (chainId = wallet.chainId) "nonce refresh chain mismatch")
  let latest : Nat ← call .latestCount
  let pending : Nat ← call .pendingCount
  let loaded ← load wallet
  let nowMs : Nat ← call .now
  let observed ← lift (loaded.observe latest pending nowMs)
  let onDisk : Option (Unresolved Hash) ← call .readPending
  let state ← lift (recoverPending wallet onDisk observed)
  report state
  call (.writeNonce state)
  pure state

/-- A refresh of which only the stored state is used. -/
def refreshed : TxProgram Hash Unit := do
  let _ ← refresh wallet
  pure ()

def next : TxProgram Hash Nat := do
  let onDisk : Option (Unresolved Hash) ← call .readPending
  lift (ensure (onDisk.isNone = true) "unresolved operation; reconcile before nonce allocation")
  let state ← refresh wallet
  lift state.available

def prepared (nonce : Nat) (hash : Hash) : TxProgram Hash Unit := locked do
  let state ← load wallet
  lift (ensure (∀ op ∈ state.inflight, op.hash = hash) "another nonce already reserved")
  let floor ← lift (following nonce)
  let nowMs : Nat ← call .now
  call (.writeNonce { state with
    nextFloor := max state.nextFloor floor
    inflight := some ⟨nonce, hash, nowMs, "prepared"⟩ })
  call .record

/-- The hashes of a pending operation. -/
def hashes (p : Pending Hash) : Except String (List Hash) := do
  let out := p.candidates.map Candidate.hash
  ensure out.Nodup "duplicate transaction hash in pending state"
  pure out

/-- The pending operation of the wallet, where the nonce state expects one. -/
def reserved (op : Inflight Hash) (hash : Hash) (pending : Option (Unresolved Hash)) :
    Except String Unit := do
  let pending ← context pending "missing pending operation"
  match pending with
  | .venue _ => .error "reserved operation mismatch"
  | .evm p => do
    ensure (p.root.hash = op.hash ∧ p.nonce = op.nonce) "reserved operation mismatch"
    let all ← hashes p
    ensure (hash ∈ all) "receipt does not match reserved nonce"

/-- A reserved transaction is the stored one. -/
def checkReserved (state : NonceState Hash) (hash : Hash) : TxProgram Hash Unit :=
  match state.inflight with
  | some op => do
    let pending : Option (Unresolved Hash) ← call .readPending
    lift (reserved op hash pending)
  | none => pure ()

def confirmed (hash : Hash) : TxProgram Hash Unit := locked do
  let state ← load wallet
  checkReserved state hash
  call (.writeNonce { state with inflight := none })
  call .record
  call .record
  call (.writePending none)

end Nonces

section Receipts

variable (wallet : Wallet) (digest : Signed → Hash) [DecidableEq Hash]

/-- A stored transaction is the one of its hash. -/
def decode (candidate : Candidate Hash) : Except String Signed := do
  ensure (candidate.hash = digest candidate.raw) "stored signed transaction hash mismatch"
  pure candidate.raw

def validateReplacement (p : Pending Hash) (root : Signed) (candidate : Candidate Hash) :
    Except String Unit := do
  let tx ← decode digest candidate
  ensure (tx.chainId = root.chainId ∧ tx.nonce = p.nonce ∧ tx.signer = wallet.owner)
    "replacement chain/nonce/signer mismatch"
  ensure (tx.target = root.target ∧ tx.data = root.data ∧ tx.gas = root.gas)
    "replacement call differs from original"

/-- Every candidate was signed by this wallet for this nonce and the same call. -/
def validatedPendingHashes (p : Pending Hash) : Except String (List Hash) := do
  ensure (p.owner = wallet.owner) "pending owner mismatch"
  let root ← decode digest p.root
  ensure (root.chainId = wallet.chainId ∧ root.nonce = p.nonce ∧ root.signer = wallet.owner)
    "signed pending chain/nonce/signer mismatch"
  let all ← hashes p
  forM p.replacements (validateReplacement wallet digest p root)
  pure all

/-- The NFT which a confirmed mint created. -/
def mintedId (r : Receipt Hash) : Except String String := do
  let log ← context (r.logs.find? fun l =>
      l.address = wallet.manager ∧ l.topics[0]? = some wallet.transferTopic ∧
        l.topics[1]? = some 0 ∧ l.topics[2]? = some (wallet.owner.setWidth 256))
    "mint receipt missing NFT Transfer"
  let id ← context log.topics[3]? "NFT id"
  pure (toString id.toNat)

def recordLpHistory : TxProgram Hash Unit := do
  let opened : Bool ← call .readLpHistory
  if opened then pure () else call .writeLpHistory

/-- The registry after a confirmed operation. -/
def recordReceipt (r : Receipt Hash) (operation : Operation) : TxProgram Hash Unit := do
  let ids : Registry ← call .readNfts
  match operation.kind with
  | .mint layer => do
    let id ← lift (mintedId wallet r)
    recordLpHistory
    call (.writeNfts (ids.insert layer id))
  | .burn layer => call (.writeNfts (ids.erase layer))
  | .approve _ _ _ | .approveZero _ _ _ | .increase | .collect | .swap => call (.writeNfts ids)

/-- Act on a receipt which has its confirmations. -/
def settle (hash : Hash) (r : Receipt Hash) (operation : Operation) :
    TxProgram Hash (Receipt Hash) := do
  let canonical : String ← call (.blockHash r.blockNumber)
  lift (ensure (canonical = r.blockHash) "receipt reorged; reconcile required")
  if r.status = 1 then
    recordReceipt wallet r operation
    confirmed wallet hash
    pure r
  else
    confirmed wallet hash
    .throw "on-chain transaction reverted"

/-- Ask once for every candidate. -/
def poll (operation : Operation) : List Hash → TxProgram Hash (Option (Receipt Hash))
  | [] => pure none
  | hash :: rest => do
    let seen : Option (Receipt Hash) ← call (.receipt hash)
    match seen with
    | none => poll operation rest
    | some r => do
      lift (ensure (r.transactionHash = hash) "receipt hash mismatch; nonce remains unresolved")
      let height : Nat ← call .blockNumber
      if height ≥ r.blockNumber + wallet.confirmations then
        let r ← settle wallet hash r operation
        pure (some r)
      else poll operation rest

def refreshWhenDue : TxProgram Hash Unit := do
  let due : Bool ← call .refreshDue
  if due then refreshed wallet else pure ()

def pollAttempts (operation : Operation) (all : List Hash) : Nat → TxProgram Hash (Receipt Hash)
  | 0 => .throw "transaction still unresolved; run reconcile"
  | attempts + 1 => do
    refreshWhenDue wallet
    let outcome ← poll wallet operation all
    match outcome with
    | some r => pure r
    | none => pollAttempts operation all attempts

/-- The candidates to ask for. -/
def awaited (hash : Hash) (pending : Option (Unresolved Hash)) : Except String (List Hash) :=
  match pending with
  | some (.evm p) => do
    let all ← validatedPendingHashes wallet digest p
    ensure (hash ∈ all) "pending hash mismatch"
    pure all
  | some (.venue _) => .error "pending operation is not EVM"
  | none => pure [hash]

def waitReceipt (hash : Hash) (operation : Operation) : TxProgram Hash (Receipt Hash) := do
  let pending : Option (Unresolved Hash) ← call .readPending
  let all ← lift (awaited wallet digest hash pending)
  pollAttempts wallet operation all 90

end Receipts

section Send

variable (wallet : Wallet) (digest : Signed → Hash) [DecidableEq Hash]

/-- The quote behind an operation is recent. -/
def freshQuote (operation : Operation) : TxProgram Hash Unit :=
  match operation.quoteTimeMs with
  | none => pure ()
  | some quoteTime => do
    let nowMs : Nat ← call .now
    lift (Runner.fresh quoteTime nowMs wallet.maxQuoteAgeSeconds)

def broadcast (hash : Hash) (raw : Signed) : TxProgram Hash Unit := do
  let result : Except String Hash ← Program.tryCall (TxOp.sendRawTransaction raw)
  match result with
  | .ok sent => do
    lift (ensure (sent = hash) "RPC returned unexpected transaction hash")
    call .record
  | .error message => do
    let pending : Option (Unresolved Hash) ← call .readPending
    let pending ← lift (context pending "missing broadcast intent")
    call (.writePending (some (match pending with
      | .evm p => .evm { p with lastBroadcastError := some hash }
      | .venue request => .venue request)))
    call .record
    .throw message

/-- The gas limit with its reserve. -/
def gasLimit (estimated : Nat) : Except String Nat := do
  let gas ← (buffered (BitVec.ofNat 128 estimated) wallet.gasLimitBufferBps).mapError
    fun _ => "gas buffer"
  ensure (gas.toNat < 2 ^ 64) "buffered gas limit overflow"
  pure gas.toNat

def signTransaction (nonce gas : Nat) (target : Address) (data : List (BitVec 8)) (fees : Fees) :
    Signed :=
  ⟨wallet.chainId, wallet.owner, nonce, gas, target, data, Evm.signTransaction fees⟩

def estimateFees : TxProgram Hash Fees := do
  let rpc : Replies ← call .estimateFees
  lift ((Fees.estimate rpc wallet.gasFeeBufferBps).mapError fun _ => "fee estimate")

def send (target : Address) (data : List (BitVec 8)) (operation : Operation) :
    TxProgram Hash (Receipt Hash) := do
  freshQuote wallet operation
  lift (ensure (target ∈ [wallet.manager, wallet.router, wallet.base, wallet.quote])
    "transaction target not allowlisted")
  let chainId : Nat ← call .chainId
  lift (ensure (chainId = wallet.chainId) "chain changed")
  let nonce ← next wallet
  call .simulate
  let estimated : Nat ← call .estimateGas
  let gas ← lift (gasLimit wallet estimated)
  let fees ← estimateFees wallet
  call (.checkGasBudget gas fees)
  freshQuote wallet operation
  let raw := signTransaction wallet nonce gas target data fees
  let nowMs : Nat ← call .now
  call (.begin (.evm ⟨⟨digest raw, raw⟩, nonce, wallet.owner, nowMs, operation, [], none⟩))
  call .record
  prepared wallet nonce (digest raw)
  broadcast (digest raw) raw
  waitReceipt wallet digest (digest raw) operation

end Send

section Recovery

variable (wallet : Wallet) (digest : Signed → Hash) [DecidableEq Hash]

def allowlisted (token spender : Address) : Except String Unit := do
  ensure (token ∈ [wallet.base, wallet.quote]) "approval token not allowlisted"
  ensure (spender ∈ [wallet.manager, wallet.router]) "approval spender not allowlisted"

/-- The token and the calldata of an approval, which is the only kind whose fees may be raised. -/
def approval (approveCall : Address → Word → List (BitVec 8)) (operation : Operation) :
    Except String (Address × List (BitVec 8)) :=
  match operation.kind with
  | .approve token spender amount => do
    allowlisted wallet token spender
    pure (token, approveCall spender amount)
  | .approveZero token spender amount => do
    allowlisted wallet token spender
    ensure (amount = 0) "approve_zero amount mismatch"
    pure (token, approveCall spender amount)
  | .mint _ | .burn _ | .increase | .collect | .swap =>
      .error "fee recovery only supports ERC20 approve; retain other operations"

/-- A stored candidate is this approval, with the nonce and the gas limit of the operation. -/
def validateApproval (p : Pending Hash) (token : Address) (data : List (BitVec 8)) (gas : Nat)
    (tx : Signed) : Except String Unit := do
  ensure (tx.chainId = wallet.chainId ∧ tx.nonce = p.nonce) "signed approval chain/nonce mismatch"
  ensure (tx.signer = wallet.owner) "signed approval signer mismatch"
  ensure (tx.target = token ∧ tx.data = data) "signed approval differs from recorded operation"
  ensure (tx.gas = gas) "replacement gas limit mismatch"

/-- The newest candidate, when all are valid. -/
def latestApproval (p : Pending Hash) (token : Address) (data : List (BitVec 8)) :
    Except String Signed := do
  let original ← decode digest p.root
  validateApproval wallet p token data original.gas original
  p.replacements.foldlM (fun _ candidate => do
    let tx ← decode digest candidate
    validateApproval wallet p token data original.gas tx
    pure tx) original

/-- Whether a node knows one of the candidates, and a candidate which is already mined. -/
def lookUp : List Hash → Bool → TxProgram Hash (Option Hash × Bool)
  | [], known => pure (none, known)
  | hash :: rest, known => do
    let receipt : Option (Receipt Hash) ← call (.receipt hash)
    if receipt.isSome then pure (some hash, known)
    else do
      let found : Option Hash ← call (.transactionByHash hash)
      match found with
      | some other => do
        lift (ensure (other = hash) "transaction lookup hash mismatch")
        lookUp rest true
      | none => lookUp rest known

/-- The nonce of the approval is still the next one. -/
def replaceable (p : Pending Hash) (state : NonceState Hash) (known : Bool) (count : Nat) :
    Except String Unit := do
  ensure (state.latest = p.nonce)
    "approval nonce already consumed or RPC behind; retain pending and reconcile receipts"
  let next ← following p.nonce
  ensure (state.nextFloor = next ∧
    state.inflight.any fun op => op.hash = p.root.hash ∧ op.nonce = p.nonce)
    "nonce reservation mismatch"
  ensure (state.pending = p.nonce ∨ (known = true ∧ state.pending = next))
    "unknown external pending transaction; no fee replacement"
  ensure (count ≤ 8) "approval fee replacement limit reached; retain state for manual review"

/-- Sign the replacement of a pending approval: higher fees, everything else alike. -/
def signReplacement (p : Pending Hash) (token : Address) (data : List (BitVec 8))
    (latest : Signed) (all : List Hash) : TxProgram Hash Signed := do
  call .simulate
  let estimated : Nat ← call .estimateGas
  lift (ensure (estimated ≤ p.root.raw.gas) "original approval gas limit no longer sufficient")
  let fees ← estimateFees wallet
  let fees ← lift ((fees.replacement latest.fees.maxFeePerGas
    (latest.fees.maxPriorityFeePerGas.getD latest.fees.maxFeePerGas)).mapError fun _ =>
      "replacement fee")
  call (.checkGasBudget p.root.raw.gas fees)
  let raw := signTransaction wallet p.nonce p.root.raw.gas token data fees
  lift (ensure (digest raw ∉ all) "replacement did not change transaction hash")
  pure raw

def retryApproval (approveCall : Address → Word → List (BitVec 8)) (expected : Hash) :
    TxProgram Hash (Receipt Hash) := do
  let pending : Option (Unresolved Hash) ← call .readPending
  let p ← lift (match pending with
    | some (.evm p) => .ok p
    | some (.venue _) => .error "pending operation is not EVM"
    | none => .error "no pending EVM approval")
  lift (ensure (p.root.hash = expected) "expected original hash differs from pending operation")
  lift (ensure (p.owner = wallet.owner) "pending owner mismatch")
  let (token, data) ← lift (approval wallet approveCall p.operation)
  let latest ← lift (latestApproval wallet digest p token data)
  let all ← lift (hashes p)
  let chainId : Nat ← call .chainId
  lift (ensure (chainId = wallet.chainId) "recovery chain mismatch")
  let (mined, known) ← lookUp all false
  if mined.isSome then waitReceipt wallet digest expected p.operation
  else do
    let state ← refresh wallet
    lift (replaceable p state known all.length)
    let raw ← signReplacement wallet digest p token data latest all
    call (.writePending (some (.evm
      { p with replacements := p.replacements ++ [⟨digest raw, raw⟩] })))
    call .record
    broadcast (digest raw) raw
    waitReceipt wallet digest expected p.operation

/-- Resolve whatever is pending. What the other venue checks is its own. -/
def reconcile : TxProgram Hash Unit := do
  let pending : Option (Unresolved Hash) ← call .readPending
  match pending with
  | none => pure ()
  | some (.evm p) => do
    lift (ensure (p.owner = wallet.owner) "pending operation belongs to another signer")
    let _ ← waitReceipt wallet digest p.root.hash p.operation
    pure ()
  | some (.venue _) => do
    call .record
    call (.writePending none)

/-- One operation of the other venue. -/
def exchange (request : Json) : TxProgram Hash Unit := do
  call (.begin (.venue request))
  call .record
  call .record
  call (.writePending none)

end Recovery

/-- What the process starts. -/
inductive Command (Hash : Type) where
  | send (target : Address) (data : List (BitVec 8)) (operation : Operation)
  | retryApproval (expected : Hash)
  | reconcile
  | refresh
  | exchange (request : Json)

variable [DecidableEq Hash]

/-- The main task takes one command after the other, the worker only refreshes. -/
def program (wallet : Wallet) (digest : Signed → Hash)
    (approveCall : Address → Word → List (BitVec 8)) :
    Thread → Command Hash → TxProgram Hash Unit
  | .main, .send target data operation => do
    let _ ← send wallet digest target data operation
    pure ()
  | .main, .retryApproval expected => do
    let _ ← retryApproval wallet digest approveCall expected
    pure ()
  | .main, .reconcile => reconcile wallet digest
  | .main, .exchange request => exchange request
  | .main, .refresh | .worker, _ => refreshed wallet

/-- The process: an operation which takes the lock waits until it is free, and a restart loses
the lock. -/
def system (wallet : Wallet) (digest : Signed → Hash)
    (approveCall : Address → Word → List (BitVec 8)) (chain : Chain Hash) :
    Concurrent Thread (TxOp Hash) (TxOp.Reply Hash) String (TxWorld Hash) (TxInput Hash)
      (Command Hash) where
  ready := fun _ op w => match op with
    | .lock => w.lock.isNone
    | _ => true
  step := TxWorld.step digest chain
  program := program wallet digest approveCall
  restart := fun w => { w with lock := none }

end Tx

end LpMaker.Evm
