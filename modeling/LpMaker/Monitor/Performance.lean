import Mathlib
import LpMaker.Numeric.F64
import LpMaker.Semantics.Json
import LpMaker.Semantics.Result

/-!
# Rolling fee APR

For every position the monitor keeps samples of the unclaimed fees and of the principal at
confirmed blocks. A sample which does not continue the previous ones starts them over, and
samples older than the window are dropped.
-/

namespace LpMaker.Performance

/-- `WINDOW_MS`. -/
def windowMs : Nat := 3600000

/-- The bound of `validate` on the samples of a position. -/
def sampleBound : Nat := 3602

structure Sample (F : Type) where
  timeMs : Nat
  block : Nat
  blockHash : String
  revision : String
  feeBase : F
  feeQuote : F
  principalQuote : F
deriving DecidableEq

structure Holding (F : Type) where
  sinceMs : Nat
  sinceSource : String
  samples : List (Sample F)
  resetReason : Option String
deriving DecidableEq

/-- The holdings by their token id. -/
abbrev Holdings (F : Type) := AList fun _ : String => Holding F

structure History (F : Type) where
  identity : Json
  positions : Holdings F

/-- `History::default`. -/
def History.default {F : Type} : History F := ⟨.null, ∅⟩

/-- Mint times from confirmed receipts, all of them after the epoch. -/
structure Starts where
  times : AList fun _ : String => Nat
  positive : ∀ key time, times.lookup key = some time → 0 < time

namespace Starts

/-- `Starts::default`. -/
def empty : Starts := ⟨∅, fun _ _ found => nomatch found⟩

/-- `Starts::key`. -/
def key (manager owner id : String) : String :=
  manager.toLower ++ ":" ++ owner.toLower ++ ":" ++ id

def get (starts : Starts) (identity : Json) (id : String) : Option Nat := do
  let manager ← (identity.field "manager").asStr
  let owner ← (identity.field "owner").asStr
  starts.times.lookup (key manager owner id)

end Starts

section Validation

variable {F : Type} [F64 F]

/-- The observations of a sample are usable. -/
def Sample.Valid (s : Sample F) : Prop :=
  s.timeMs > 0 ∧ s.blockHash ≠ "" ∧ s.revision ≠ "" ∧
    ∀ v ∈ [s.feeBase, s.feeQuote, s.principalQuote], F64.isFinite v ∧ v ≥ 0

instance (s : Sample F) : Decidable s.Valid := by
  unfold Sample.Valid
  infer_instance

/-- A sample continues the one before it. -/
def Sample.Follows (p s : Sample F) : Prop :=
  s.timeMs > p.timeMs ∧ s.block > p.block ∧ s.revision = p.revision ∧
    s.feeBase ≥ p.feeBase ∧ s.feeQuote ≥ p.feeQuote

instance (p s : Sample F) : Decidable (p.Follows s) := by
  unfold Sample.Follows
  infer_instance

/-- Check samples after a previous one. -/
def checkSamples : Option (Sample F) → List (Sample F) → Except String Unit
  | _, [] => .ok ()
  | previous, s :: rest => do
      ensure s.Valid "invalid APR sample"
      ensure (∀ p ∈ previous, p.Follows s) "non-contiguous APR samples"
      checkSamples (some s) rest

def Holding.validate (h : Holding F) : Except String Unit := do
  ensure (h.sinceMs > 0 ∧ h.samples.length ≤ sampleBound) "invalid holding history"
  checkSamples none h.samples

def History.validate (history : History F) : Except String Unit :=
  history.positions.entries.forM fun entry => entry.2.validate

end Validation

/-- The report of a rate. Its window and the text on its basis are constant. -/
structure RateReport (F : Type) where
  observedSeconds : Nat
  complete : Bool
  fromMs : Nat
  asOfMs : Nat
  fees : Option F
  averagePrincipal : Option F
  aprPct : Option F
  status : String

/-- What `decorate` writes to a position of the snapshot. -/
structure PositionReport (F : Type) where
  token : String
  sinceMs : Nat
  source : String
  seconds : Nat
  feeApr : RateReport F
  lastResetReason : Option String

section Rates

variable {F : Type} [F64 F]

/-- The fees and the capital time of one segment after `start`. -/
def segment (start : Nat) (price : F) (a b : Sample F) : F × F :=
  let left := max a.timeMs start
  let dt : F := ((b.timeMs - left : Nat) : F)
  let fraction := dt / ((b.timeMs - a.timeMs : Nat) : F)
  let leftCapital := b.principalQuote + (a.principalQuote - b.principalQuote) * fraction
  (((b.feeBase - a.feeBase) * price + b.feeQuote - a.feeQuote) * fraction,
    (leftCapital + b.principalQuote) * 0.5 * dt)

/-- Add a segment, unless it ends before `start`. -/
def addSegment (start : Nat) (price : F) (sums : F × F) (pair : Sample F × Sample F) : F × F :=
  if pair.2.timeMs ≤ start then sums else sums + segment start price pair.1 pair.2

/-- The fees and the capital time of the samples after `start`. -/
def integrate (samples : List (Sample F)) (start : Nat) (price : F) : F × F :=
  (samples.zip samples.tail).foldl (addSegment start price) (0, 0)

/-- `YEAR_MS`. -/
def yearMs : F := 365 * 24 * 3600000

def rate (start stop : Nat) (fees capitalMs : F) : RateReport F :=
  let elapsed := stop - start
  let valid : Bool := elapsed ≥ 60000 ∧ capitalMs > 0 ∧ F64.isFinite capitalMs ∧
    F64.isFinite fees ∧ fees ≥ 0
  let percent := fees / capitalMs * yearMs * 100
  let apr := if F64.isFinite percent && valid then some percent else none
  { observedSeconds := elapsed / 1000
    complete := elapsed ≥ windowMs
    fromMs := start
    asOfMs := stop
    fees := if valid then some fees else none
    averagePrincipal := if valid then some (capitalMs / (elapsed : F)) else none
    aprPct := apr
    status := if apr.isNone then "collecting" else if elapsed < windowMs then "partial"
      else "ready" }

def decorate (token : String) (holding : Holding F) (time : Nat) (price : F) :
    PositionReport F :=
  let start := max ((holding.samples.head?.map Sample.timeMs).getD time) (time - windowMs)
  let (fee, capital) := integrate holding.samples start price
  { token := token
    sinceMs := holding.sinceMs
    source := holding.sinceSource
    seconds := (time - holding.sinceMs) / 1000
    feeApr := rate start time fee capital
    lastResetReason := holding.resetReason }

/-- The rate of all positions over their common window. -/
def aggregate (positions : Holdings F) (time : Nat) (price : F) : RateReport F :=
  let fronts := positions.entries.filterMap fun entry => entry.2.samples.head?.map Sample.timeMs
  let start := max (fronts.max?.getD time) (time - windowMs)
  let sums := positions.entries.foldl
    (fun sums entry => sums + integrate entry.2.samples start price) (0, 0)
  rate start time sums.1 sums.2

end Rates

/-- What a call of `observe` gets. -/
structure Call where
  snapshot : Json
  now : Nat
  maxGapMs : Nat
  starts : Starts

/-- The confirmed block of a snapshot. -/
structure Reading (F : Type) where
  time : Nat
  price : F
  block : Nat
  hash : String
  maxGapMs : Nat
  starts : Starts

namespace Holding

variable {F : Type} [F64 F]

/-- A new holding starts at its mint, where that is known. -/
def opened (start : Option Nat) (time : Nat) : Holding F where
  sinceMs := start.getD time
  sinceSource := if start.isSome then "confirmed_mint" else "first_observation"
  samples := []
  resetReason := none

/-- A mint before the first observation is the start of the holding. -/
def backdate (start : Option Nat) (holding : Holding F) : Holding F :=
  match start.filter (· < holding.sinceMs) with
  | some start => { holding with sinceMs := start, sinceSource := "confirmed_mint" }
  | none => holding

/-- Why a sample does not continue the last one. -/
def resetReason? (maxGapMs : Nat) (old sample : Sample F) : Option String :=
  if sample.timeMs ≤ old.timeMs ∨ sample.block ≤ old.block then some "chain_changed"
  else if sample.timeMs - old.timeMs > maxGapMs then some "observation_gap"
  else if sample.revision ≠ old.revision then some "position_operated"
  else if sample.feeBase < old.feeBase ∨ sample.feeQuote < old.feeQuote then
    some "fee_counter_decreased"
  else none

/-- Drop samples before the window, but keep one at its boundary. -/
def prune (cutoff : Nat) : List (Sample F) → List (Sample F)
  | first :: second :: third :: rest =>
      if second.timeMs ≤ cutoff then prune cutoff (second :: third :: rest)
      else first :: second :: third :: rest
  | samples => samples

/-- Add a sample at the end. -/
def push (sample : Sample F) (holding : Holding F) : Holding F :=
  { holding with samples := prune (sample.timeMs - windowMs) (holding.samples ++ [sample]) }

/-- Add a sample after the last one, or start over with it. A repeated block adds nothing. -/
def record (maxGapMs : Nat) (sample : Sample F) (holding : Holding F) : Holding F :=
  match holding.samples.getLast? with
  | none => holding.push sample
  | some old =>
      if old.block = sample.block ∧ old.blockHash = sample.blockHash then holding
      else
        match resetReason? maxGapMs old sample with
        | some reason =>
            { holding with samples := [], resetReason := some reason }.push sample
        | none => holding.push sample

end Holding

section Observe

variable {F : Type} [F64 F] (asF64 : Json → Option F)

/-- `finite`. -/
def finite (v : Json) : Except String F := do
  let n ← context (asF64 v) "missing fee/principal observation"
  ensure (F64.isFinite n ∧ n ≥ 0) "invalid fee/principal observation"
  pure n

/-- The time, the price and the identity of a fresh snapshot. -/
def readHeader (call : Call) : Except String (Nat × F × Json) := do
  let pool := call.snapshot.field "pool"
  let time ← context (pool.field "time_ms").asNat "pool timestamp"
  ensure (time > 0 ∧ time ≤ call.now + 5000 ∧ call.now - time ≤ call.maxGapMs)
    "APR snapshot stale"
  let price ← finite asF64 (pool.field "price")
  ensure (price > 0) "invalid APR price"
  let identity := call.snapshot.field "accounting_identity"
  ensure ((identity.field "owner").asStr.isSome) "APR owner missing"
  pure (time, price, identity)

/-- The block and the positions of a snapshot. -/
def readBlock (snapshot : Json) : Except String (Nat × String × List Json) := do
  let pool := snapshot.field "pool"
  let block ← context (pool.field "block").asNat "pool block"
  let hash ← context (pool.field "block_hash").asStr "pool block hash"
  let positions ← context (snapshot.field "positions").asArray "positions missing"
  pure (block, hash, positions)

/-- The sample of a position, whose id was not seen before in the snapshot. -/
def readSample (reading : Reading F) (ids : List String) (p : Json) :
    Except String (String × Sample F) := do
  let id ← context (p.field "token_id").asStr "position id"
  ensure (id ∉ ids) "duplicate APR position"
  let revision ← context (p.field "accounting_revision").asStr "position accounting revision"
  let feeBase ← finite asF64 (p.field "unclaimed_base")
  let feeQuote ← finite asF64 (p.field "unclaimed_quote")
  let principal ← finite asF64 (p.field "principal_value_usdg")
  pure (id, ⟨reading.time, reading.block, reading.hash, revision, feeBase, feeQuote, principal⟩)

/-- Holdings of another identity are forgotten. -/
def History.adopt (identity : Json) (history : History F) : History F :=
  if history.identity ≠ identity then ⟨identity, ∅⟩ else history

/-- Change every holding. -/
def Holdings.mapHoldings (f : Holding F → Holding F) (positions : Holdings F) : Holdings F where
  entries := positions.entries.map fun entry => ⟨entry.1, f entry.2⟩
  nodupKeys := by
    have keys : (positions.entries.map fun entry : (_ : String) × Holding F =>
        (⟨entry.1, f entry.2⟩ : (_ : String) × Holding F)).keys = positions.entries.keys := by
      simp [List.keys]
    rw [List.NodupKeys, keys]
    exact positions.nodupKeys

/-- Keep the holdings with these ids. -/
def Holdings.retain (ids : List String) (positions : Holdings F) : Holdings F where
  entries := positions.entries.filter fun entry => entry.1 ∈ ids
  nodupKeys := positions.nodupKeys.sublist List.filter_sublist

/-- After a reorganization the samples start over. -/
def History.reorganize (snapshot : Json) (history : History F) : History F :=
  if snapshot.field "accounting_reorg" = .bool true then
    { history with positions := Holdings.mapHoldings (fun h =>
        { h with samples := [], resetReason := some "chain_changed" }) history.positions }
  else history

/-- The loop over the positions: the history, the ids seen and the reports. -/
structure Pass (F : Type) where
  history : History F
  ids : List String
  reports : List (PositionReport F)

/-- Record the sample of a position. -/
def Pass.record (reading : Reading F) (id : String) (sample : Sample F) (pass : Pass F) :
    Pass F :=
  let start := (reading.starts.get pass.history.identity id).filter (· ≤ reading.time)
  let holding := (pass.history.positions.lookup id).getD (.opened start reading.time)
  let holding := (holding.backdate start).record reading.maxGapMs sample
  { history := { pass.history with positions := pass.history.positions.insert id holding }
    ids := id :: pass.ids
    reports := pass.reports ++ [decorate id holding reading.time reading.price] }

/-- Record the positions up to the first one which cannot be read. -/
def observePositions (reading : Reading F) : List Json → Pass F → Pass F × Except String Unit
  | [], pass => (pass, .ok ())
  | p :: rest, pass =>
      match readSample asF64 reading pass.ids p with
      | .error failure => (pass, .error failure)
      | .ok (id, sample) => observePositions reading rest (pass.record reading id sample)

/-- What a call of `observe` writes to the snapshot, and how it ends. -/
structure Observed (F : Type) where
  reports : List (PositionReport F)
  feeApr : Option (RateReport F)
  result : Except String Unit

/-- Update the history with the positions of a confirmed block. After an error it keeps what was
recorded before. -/
def observe (call : Call) (history : History F) : History F × Observed F :=
  let snapshot := call.snapshot
  if snapshot.field "mode" = .str "paper" ∨ snapshot.field "positions_observed" ≠ .bool true then
    (history, ⟨[], none, .ok ()⟩)
  else
    match readHeader asF64 call with
    | .error failure => (history, ⟨[], none, .error failure⟩)
    | .ok (time, price, identity) =>
        let history := (history.adopt identity).reorganize snapshot
        match readBlock snapshot with
        | .error failure => (history, ⟨[], none, .error failure⟩)
        | .ok (block, hash, positions) =>
            let reading := ⟨time, price, block, hash, call.maxGapMs, call.starts⟩
            match observePositions asF64 reading positions ⟨history, [], []⟩ with
            | (pass, .error failure) => (pass.history, ⟨pass.reports, none, .error failure⟩)
            | (pass, .ok ()) =>
                let positions := Holdings.retain pass.ids pass.history.positions
                ({ pass.history with positions := positions },
                  ⟨pass.reports, some (aggregate positions time price), .ok ()⟩)

end Observe

end LpMaker.Performance
