import Mathlib

/-!
# The shared gate of an RPC endpoint

All clients of an endpoint send through one gate, which spaces the requests and records the
back-off after a limit reply. Tasks run concurrently: every lock and every suspension of the
source is a step of its own, and a task may be cancelled at any of them. Times are in
nanoseconds.
-/

namespace LpMaker.Evm

def seconds (count : ℕ) : ℕ := count * 1000000000

/-- `u32::saturating_add(1)`. -/
def saturatingSucc32 (count : ℕ) : ℕ := min (count + 1) (2 ^ 32 - 1)

/-- The state of the gate. -/
structure Gate where
  spacing : ℕ
  next : ℕ
  cooldown : Option ℕ
  failures : ℕ
  healthySince : Option ℕ

namespace Gate

def new (spacing now : ℕ) : Gate := ⟨spacing, now, none, 0, none⟩

/-- Clients of one endpoint share the longer spacing. -/
def share (spacing : ℕ) (gate : Gate) : Gate :=
  { gate with spacing := max gate.spacing spacing }

/-- No back-off is running. -/
def Clear (now : ℕ) (gate : Gate) : Prop := ∀ deadline ∈ gate.cooldown, deadline ≤ now

/-- Reserve the time of a request. -/
def reserve (now : ℕ) (gate : Gate) : Gate := { gate with next := now + gate.spacing }

/-- The back-off after this many limit replies. -/
def backoff (failures : ℕ) : ℕ := seconds (min (30 * 2 ^ min failures 4) 300)

/-- The deadline after a limit reply. -/
def deadline (now : ℕ) (retryAfter : Option ℕ) (gate : Gate) : ℕ :=
  now + max (backoff gate.failures) (retryAfter.getD 0)

def limited (now : ℕ) (retryAfter : Option ℕ) (gate : Gate) : Gate :=
  { gate with
    failures := saturatingSucc32 gate.failures
    healthySince := none
    cooldown := some (gate.deadline now retryAfter) }

/-- One success does not clear the count, so that a limiting node is not probed every time
after the shortest wait. -/
def succeeded (now : ℕ) (gate : Gate) : Gate :=
  let healthy := gate.healthySince.getD now
  { gate with
    cooldown := none
    healthySince := some healthy
    failures := if now - healthy ≥ seconds 60 then 0 else gate.failures }

end Gate

/-- `rpc_rate_limit`. -/
def rpcRateLimit (code : ℤ) (message : String) : Bool :=
  code = 429 ||
    ((-32099 ≤ code ∧ code ≤ -32000 ∨ code = -32603) &&
      ["rate limit", "too many requests", "request limit exceeded", "requests per second",
        "rps limit"].any fun needle => needle.toList <:+: message.toLower.toList)

/-- How the transport answers a request. -/
inductive Reply where
  /-- HTTP 429 with its `Retry-After`. -/
  | tooManyRequests (retryAfter : Option ℕ)
  | rpcError (code : ℤ) (message : String)
  | result
  /-- A transport failure, a timeout or an invalid response. -/
  | failure

/-- What happened at the gate. -/
inductive GateEvent where
  /-- The next slot was reserved and, without a suspension, the request sent. -/
  | dispatched (at_ spacing : ℕ)
  | limited (at_ : ℕ) (retryAfter : Option ℕ) (deadline : ℕ)
  | succeeded (at_ : ℕ)

/-- What a reply does to the gate. -/
inductive Effect where
  | limit (retryAfter : Option ℕ)
  | success
  | nothing

def Reply.effect : Reply → Effect
  | tooManyRequests retryAfter => .limit retryAfter
  | rpcError code message => if rpcRateLimit code message then .limit none else .nothing
  | result => .success
  | failure => .nothing

/-- How far a task has come in `request`. -/
inductive Stage where
  | idle
  /-- Waits for the permit, after the first look at the back-off. -/
  | queued
  | held
  /-- After the second look at the back-off. -/
  | admitted
  | sleeping (next : ℕ)
  /-- After the last look at the back-off. -/
  | cleared
  | flying
  /-- The reply has been settled; the permit is dropped on return. -/
  | settled
deriving DecidableEq

/-- The task has the permit. -/
def Stage.Holds : Stage → Prop
  | idle | queued => False
  | _ => True

instance : DecidablePred Stage.Holds := fun stage => by
  cases stage <;> unfold Stage.Holds <;> infer_instance

/-- The gate with the tasks around it. The log has the latest event first. -/
structure GateSystem (Task : Type) where
  now : ℕ
  gate : Gate
  /-- The one permit of the semaphore is free. -/
  free : Bool
  stage : Task → Stage
  log : List GateEvent

namespace GateSystem

variable {Task : Type} [DecidableEq Task]

def moveTo (task : Task) (stage : Stage) (s : GateSystem Task) : GateSystem Task :=
  { s with stage := Function.update s.stage task stage }

/-- Return, with an error or not, or be cancelled. -/
def leave (task : Task) (s : GateSystem Task) : GateSystem Task :=
  { s.moveTo task .idle with free := s.free || decide (s.stage task).Holds }

def settle (effect : Effect) (s : GateSystem Task) : GateSystem Task :=
  match effect with
  | .limit retryAfter =>
      { s with
        gate := s.gate.limited s.now retryAfter
        log := .limited s.now retryAfter (s.gate.deadline s.now retryAfter) :: s.log }
  | .success => { s with gate := s.gate.succeeded s.now, log := .succeeded s.now :: s.log }
  | .nothing => s

def dispatch (s : GateSystem Task) : GateSystem Task :=
  { s with
    gate := s.gate.reserve s.now
    log := .dispatched s.now s.gate.spacing :: s.log }

/-- One step of one task, of the clock, or of a client which joins the endpoint. -/
inductive Step (s : GateSystem Task) : GateSystem Task → Prop where
  | advance {time : ℕ} (later : s.now ≤ time) : Step s { s with now := time }
  | share (spacing : ℕ) : Step s { s with gate := s.gate.share spacing }
  | enqueue {task : Task} (here : s.stage task = .idle) (clear : s.gate.Clear s.now) :
      Step s (s.moveTo task .queued)
  | take {task : Task} (here : s.stage task = .queued) (free : s.free = true) :
      Step s { s.moveTo task .held with free := false }
  | pass {task : Task} (here : s.stage task = .held) (clear : s.gate.Clear s.now) :
      Step s (s.moveTo task .admitted)
  | sleep {task : Task} (here : s.stage task = .admitted) :
      Step s (s.moveTo task (.sleeping s.gate.next))
  | wake {task : Task} {next : ℕ} (here : s.stage task = .sleeping next)
      (due : next ≤ s.now) (clear : s.gate.Clear s.now) : Step s (s.moveTo task .cleared)
  | dispatch {task : Task} (here : s.stage task = .cleared) :
      Step s (s.dispatch.moveTo task .flying)
  | reply {task : Task} (here : s.stage task = .flying) (reply : Reply) :
      Step s ((s.settle reply.effect).moveTo task .settled)
  | leave (task : Task) : Step s (s.leave task)

/-- A new gate without tasks. -/
def start (spacing now : ℕ) : GateSystem Task := ⟨now, .new spacing now, true, fun _ => .idle, []⟩

/-- Any interleaving of steps. -/
abbrev Steps : GateSystem Task → GateSystem Task → Prop := Relation.ReflTransGen Step

end GateSystem

end LpMaker.Evm
