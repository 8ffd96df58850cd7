import LpMaker.Evm.RpcGate

/-!
# The gate respects every back-off

What the gate promises is stated over the log of its events. The permit makes the invariant
work: no other task can be past the queue, so between the last look at the back-off and the
reply nothing else is sent or settled.
-/

namespace LpMaker.Evm

/-- The back-off deadlines recorded so far. -/
def deadlines : List GateEvent → List ℕ
  | [] => []
  | .limited _ _ deadline :: earlier => deadline :: deadlines earlier
  | _ :: earlier => deadlines earlier

/-- The time of the last dispatch, with the spacing in force. -/
def lastDispatch : List GateEvent → Option (ℕ × ℕ)
  | [] => none
  | .dispatched at_ spacing :: _ => some (at_, spacing)
  | _ :: earlier => lastDispatch earlier

/-- The first success since the last limit reply. -/
def firstSuccess : List GateEvent → Option ℕ
  | [] => none
  | .limited _ _ _ :: _ => none
  | .succeeded at_ :: earlier => some ((firstSuccess earlier).getD at_)
  | .dispatched _ _ :: earlier => firstSuccess earlier

/-- A success resets the count a minute after the first one since the last limit reply. -/
def Resets (at_ : ℕ) (earlier : List GateEvent) : Prop :=
  ∃ first ∈ firstSuccess earlier, first + seconds 60 ≤ at_

instance (at_ : ℕ) (earlier : List GateEvent) : Decidable (Resets at_ earlier) := by
  unfold Resets
  infer_instance

/-- The limit replies since the last reset. -/
def limits : List GateEvent → ℕ
  | [] => 0
  | .limited _ _ _ :: earlier => limits earlier + 1
  | .succeeded at_ :: earlier => if Resets at_ earlier then 0 else limits earlier
  | .dispatched _ _ :: earlier => limits earlier

/-- What an event must do, after the earlier ones. -/
def GateEvent.Respects (earlier : List GateEvent) : GateEvent → Prop
  | dispatched at_ _ =>
      (∀ deadline ∈ deadlines earlier, deadline ≤ at_) ∧
        ∀ previous ∈ lastDispatch earlier, previous.1 + previous.2 ≤ at_
  | limited at_ retryAfter deadline =>
      deadline =
        at_ + max (seconds (min (30 * 2 ^ min (limits earlier) 4) 300)) (retryAfter.getD 0)
  | succeeded _ => True

/-- Every event did what it must. -/
def Respected : List GateEvent → Prop
  | [] => True
  | event :: earlier => event.Respects earlier ∧ Respected earlier

theorem Respected.of_suffix {event : GateEvent} {earlier log : List GateEvent}
    (respected : Respected log) (suffix : event :: earlier <:+ log) : event.Respects earlier := by
  induction log with
  | nil => simp at suffix
  | cons latest rest ih =>
      rcases List.suffix_cons_iff.1 suffix with here | there
      · cases here
        exact respected.1
      · exact ih respected.2 there

theorem Gate.clear_new (spacing now time : ℕ) : (Gate.new spacing now).Clear time := by
  simp [Gate.Clear, Gate.new]

theorem Gate.Clear.later {gate : Gate} {now time : ℕ} (clear : gate.Clear now)
    (later : now ≤ time) : gate.Clear time :=
  fun deadline recorded => (clear deadline recorded).trans later

/-- What the stage of a task says about the gate. -/
def Stage.Fits (now : ℕ) (gate : Gate) : Stage → Prop
  | sleeping next => gate.next = next
  | cleared => gate.Clear now ∧ gate.next ≤ now
  | flying => gate.Clear now
  | _ => True

theorem Stage.Fits.of_not_holds {now : ℕ} {gate : Gate} {stage : Stage}
    (outside : ¬ stage.Holds) : stage.Fits now gate := by
  cases stage with
  | idle | queued => trivial
  | _ => exact absurd trivial outside

theorem Stage.Fits.later {now time : ℕ} {gate : Gate} {stage : Stage}
    (fits : stage.Fits now gate) (later : now ≤ time) : stage.Fits time gate := by
  cases stage with
  | cleared => exact ⟨fits.1.later later, fits.2.trans later⟩
  | flying => exact Gate.Clear.later fits later
  | _ => exact fits

theorem Stage.Fits.share {now spacing : ℕ} {gate : Gate} {stage : Stage}
    (fits : stage.Fits now gate) : stage.Fits now (gate.share spacing) := by
  cases stage with
  | _ => exact fits

/-- The gate knows what the log says. -/
structure Gate.Knows (now : ℕ) (log : List GateEvent) (gate : Gate) : Prop where
  /-- A running back-off is as long as any recorded one. -/
  pending : ∀ deadline ∈ deadlines log, now < deadline →
    ∃ cooldown ∈ gate.cooldown, deadline ≤ cooldown
  next : ∀ previous ∈ lastDispatch log, gate.next = previous.1 + previous.2
  healthy : gate.healthySince = firstSuccess log
  failures : gate.failures = min (limits log) (2 ^ 32 - 1)

namespace Gate.Knows

variable {now : ℕ} {log : List GateEvent} {gate : Gate}

theorem later {time : ℕ} (knows : gate.Knows now log) (later : now ≤ time) :
    gate.Knows time log where
  __ := knows
  pending deadline recorded ahead := knows.pending deadline recorded (later.trans_lt ahead)

theorem share {spacing : ℕ} (knows : gate.Knows now log) : (gate.share spacing).Knows now log :=
  ⟨knows.pending, knows.next, knows.healthy, knows.failures⟩

/-- Past the look at the back-off, every recorded deadline has passed. -/
theorem passed (knows : gate.Knows now log) (clear : gate.Clear now) :
    ∀ deadline ∈ deadlines log, deadline ≤ now := by
  intro deadline recorded
  by_contra ahead
  obtain ⟨cooldown, running, le⟩ := knows.pending deadline recorded (not_le.1 ahead)
  exact ahead (le.trans (clear cooldown running))

theorem dispatch (knows : gate.Knows now log) :
    (gate.reserve now).Knows now (.dispatched now gate.spacing :: log) where
  pending := knows.pending
  next previous last := by
    cases last
    rfl
  healthy := knows.healthy
  failures := knows.failures

theorem limited (knows : gate.Knows now log) (clear : gate.Clear now) (retryAfter : Option ℕ) :
    (gate.limited now retryAfter).Knows now
      (.limited now retryAfter (gate.deadline now retryAfter) :: log) where
  pending deadline recorded ahead := by
    rcases List.mem_cons.1 recorded with rfl | before
    · exact ⟨_, rfl, le_rfl⟩
    · exact absurd (knows.passed clear deadline before) (not_le.2 ahead)
  next := knows.next
  healthy := rfl
  failures := by
    have failures := knows.failures
    simp only [Gate.limited, saturatingSucc32, limits]
    omega

theorem succeeded (knows : gate.Knows now log) (clear : gate.Clear now) :
    (gate.succeeded now).Knows now (.succeeded now :: log) where
  pending deadline recorded ahead :=
    absurd (knows.passed clear deadline recorded) (not_le.2 ahead)
  next := knows.next
  healthy := by simp only [Gate.succeeded, firstSuccess, knows.healthy]
  failures := by
    have reset : now - (firstSuccess log).getD now ≥ seconds 60 ↔ Resets now log := by
      unfold Resets seconds
      cases firstSuccess log with
      | none => simp
      | some first =>
          simp only [Option.getD_some, Option.mem_some_iff, exists_eq_left']
          omega
    simp only [Gate.succeeded, limits, knows.healthy, reset]
    split_ifs
    · rfl
    · exact knows.failures

theorem deadline_eq (knows : gate.Knows now log) (retryAfter : Option ℕ) :
    GateEvent.Respects log (.limited now retryAfter (gate.deadline now retryAfter)) := by
  have cap : min gate.failures 4 = min (limits log) 4 := by
    have failures := knows.failures
    omega
  simp only [GateEvent.Respects, Gate.deadline, Gate.backoff, cap]

end Gate.Knows

namespace GateSystem

variable {Task : Type}

/-- At most one task is past the queue, and what it saw of the gate still holds. -/
structure Exclusive (s : GateSystem Task) : Prop where
  alone : ∀ one other, (s.stage one).Holds → (s.stage other).Holds → one = other
  taken : ∀ task, (s.stage task).Holds → s.free = false
  fits : ∀ task, (s.stage task).Fits s.now s.gate

structure Invariant (s : GateSystem Task) : Prop where
  exclusive : s.Exclusive
  knows : s.gate.Knows s.now s.log
  respected : Respected s.log

namespace Exclusive

variable [DecidableEq Task] {s : GateSystem Task}

/-- The task with the permit, or one still outside, moves; the gate may change under the
one with the permit only. -/
theorem move (exclusive : s.Exclusive) {task : Task} {stage : Stage} {gate : Gate}
    {log : List GateEvent}
    (holds : stage.Holds → (s.stage task).Holds) (fits : stage.Fits s.now gate)
    (own : (s.stage task).Holds ∨ gate = s.gate) :
    Exclusive { s.moveTo task stage with gate := gate, log := log } := by
  have held : ∀ other, (Function.update s.stage task stage other).Holds →
      (s.stage other).Holds := by
    intro other now
    rcases eq_or_ne other task with rfl | apart
    · exact holds (by simpa using now)
    · simpa [apart] using now
  refine ⟨fun one other first second => exclusive.alone one other (held one first)
    (held other second), fun other now => exclusive.taken other (held other now), ?_⟩
  intro other
  rcases eq_or_ne other task with rfl | apart
  · simpa [moveTo] using fits
  · simp only [moveTo, Function.update_of_ne apart]
    rcases own with own | rfl
    · exact .of_not_holds fun second => apart (exclusive.alone other task second own)
    · exact exclusive.fits other

theorem take (exclusive : s.Exclusive) {task : Task} (free : s.free = true) :
    Exclusive { s.moveTo task .held with free := false } := by
  have outside : ∀ other, ¬ (s.stage other).Holds := by
    intro other holds
    simp [exclusive.taken other holds] at free
  have only : ∀ other, (Function.update s.stage task .held other).Holds → other = task := by
    intro other holds
    by_contra apart
    exact outside other (by simpa [apart] using holds)
  refine ⟨fun one other first second => (only one first).trans (only other second).symm,
    fun _ _ => rfl, ?_⟩
  intro other
  rcases eq_or_ne other task with rfl | apart
  · simp [moveTo, Stage.Fits]
  · simpa [moveTo, apart] using exclusive.fits other

theorem leave (exclusive : s.Exclusive) (task : Task) : (s.leave task).Exclusive := by
  have moved : (s.moveTo task .idle).Exclusive :=
    exclusive.move (fun holds => holds.elim) trivial (.inr rfl)
  refine ⟨moved.alone, ?_, moved.fits⟩
  intro other holds
  have apart : other ≠ task := by
    rintro rfl
    simp [GateSystem.leave, moveTo, Stage.Holds] at holds
  have second : (s.stage other).Holds := by
    simpa [GateSystem.leave, moveTo, apart] using holds
  have first : ¬ (s.stage task).Holds :=
    fun first => apart (exclusive.alone other task second first)
  simp [GateSystem.leave, exclusive.taken other second, first]

end Exclusive

theorem Invariant.start (spacing now : ℕ) : (start spacing now : GateSystem Task).Invariant where
  exclusive := ⟨fun _ _ holds => holds.elim, fun _ holds => holds.elim, fun _ => trivial⟩
  knows := ⟨nofun, nofun, rfl, rfl⟩
  respected := trivial

variable [DecidableEq Task] {s t : GateSystem Task}

theorem Invariant.step (invariant : s.Invariant) (step : Step s t) : t.Invariant := by
  obtain ⟨exclusive, knows, respected⟩ := invariant
  cases step with
  | advance later =>
      exact ⟨⟨exclusive.alone, exclusive.taken, fun task => (exclusive.fits task).later later⟩,
        knows.later later, respected⟩
  | share spacing =>
      exact ⟨⟨exclusive.alone, exclusive.taken, fun task => (exclusive.fits task).share⟩,
        knows.share, respected⟩
  | enqueue here clear =>
      exact ⟨exclusive.move (fun holds => holds.elim) trivial (.inr rfl), knows, respected⟩
  | take here free => exact ⟨exclusive.take free, knows, respected⟩
  | pass here clear =>
      exact ⟨exclusive.move (fun _ => here ▸ trivial) trivial (.inr rfl), knows, respected⟩
  | sleep here =>
      exact ⟨exclusive.move (fun _ => here ▸ trivial) rfl (.inr rfl), knows, respected⟩
  | @wake task next here due clear =>
      have slept : s.gate.next = next := by simpa [here, Stage.Fits] using exclusive.fits task
      exact ⟨exclusive.move (fun _ => here ▸ trivial) ⟨clear, slept.trans_le due⟩ (.inr rfl),
        knows, respected⟩
  | @dispatch task here =>
      have holds : (s.stage task).Holds := here ▸ trivial
      have seen : s.gate.Clear s.now ∧ s.gate.next ≤ s.now := by
        simpa [here, Stage.Fits] using exclusive.fits task
      refine ⟨exclusive.move (fun _ => holds) seen.1 (.inl holds), knows.dispatch, ?_, respected⟩
      refine ⟨knows.passed seen.1, ?_⟩
      intro previous last
      exact (knows.next previous last).symm.trans_le seen.2
  | @reply task here reply =>
      have holds : (s.stage task).Holds := here ▸ trivial
      have clear : s.gate.Clear s.now := by simpa [here, Stage.Fits] using exclusive.fits task
      cases effect : reply.effect with
      | limit retryAfter =>
          exact ⟨exclusive.move (fun _ => holds) trivial (.inl holds),
            knows.limited clear retryAfter, knows.deadline_eq retryAfter, respected⟩
      | success =>
          exact ⟨exclusive.move (fun _ => holds) trivial (.inl holds), knows.succeeded clear,
            trivial, respected⟩
      | nothing =>
          exact ⟨exclusive.move (fun _ => holds) trivial (.inr rfl), knows, respected⟩
  | leave task => exact ⟨exclusive.leave task, knows, respected⟩

theorem Invariant.steps (invariant : s.Invariant) (steps : Steps s t) : t.Invariant := by
  induction steps with
  | refl => exact invariant
  | tail _ step ih => exact ih.step step

/-- A request that finds the gate free, clear and due goes through without a wait. -/
theorem steps_request (task : Task) (here : s.stage task = .idle) (free : s.free = true)
    (clear : s.gate.Clear s.now) (due : s.gate.next ≤ s.now) (reply : Reply) :
    Steps s (s.dispatch.settle reply.effect) := by
  have enqueued : Steps s (s.moveTo task .queued) := .single (.enqueue here clear)
  have taken := enqueued.tail (.take (Function.update_self ..) free)
  have passed := taken.tail (.pass (Function.update_self ..) clear)
  have slept := passed.tail (.sleep (Function.update_self ..))
  have woken := slept.tail (.wake (Function.update_self ..) due clear)
  have sent := woken.tail (.dispatch (Function.update_self ..))
  have returned := (sent.tail (.reply (Function.update_self ..) reply)).tail (.leave task)
  have idle : s.stage = Function.update s.stage task .idle := by
    rw [← here, Function.update_eq_self]
  convert returned using 1
  cases reply.effect <;> simp [settle, dispatch, leave, moveTo, Stage.Holds, free, ← idle]

end GateSystem

/-- However the tasks interleave: every dispatch waits for the recorded deadlines and for the
spacing of the dispatch before it, every deadline is the larger of the back-off for its count
and the wait the server asks for, and no deadline is shortened before it passes. -/
theorem GateSystem.rpc_gate_respects_backoff {Task : Type} [DecidableEq Task]
    {spacing now : ℕ} {s : GateSystem Task} (steps : Steps (start spacing now) s) :
    (∀ event earlier, event :: earlier <:+ s.log → event.Respects earlier) ∧
      ∀ deadline ∈ deadlines s.log, s.now < deadline →
        ∃ cooldown ∈ s.gate.cooldown, deadline ≤ cooldown := by
  have invariant : s.Invariant := (Invariant.start spacing now).steps steps
  exact ⟨fun event earlier suffix => invariant.respected.of_suffix suffix,
    invariant.knows.pending⟩

/-- A node that asks for 45 seconds is left alone for 45 seconds. -/
theorem GateSystem.rpc_gate_respects_backoff_retried :
    ∃ s : GateSystem Unit,
      s.log = [.succeeded (seconds 45), .dispatched (seconds 45) 2,
        .limited 0 (some (seconds 45)) (seconds 45), .dispatched 0 2] ∧
      (∀ event earlier, event :: earlier <:+ s.log → event.Respects earlier) ∧
        ∀ deadline ∈ deadlines s.log, s.now < deadline →
          ∃ cooldown ∈ s.gate.cooldown, deadline ≤ cooldown := by
  have limited : Steps (start 2 0 : GateSystem Unit) _ :=
    steps_request () rfl rfl (Gate.clear_new 2 0 0) le_rfl
      (.tooManyRequests (some (seconds 45)))
  have waited := limited.tail (.advance (Nat.zero_le (seconds 45)))
  refine ⟨_, rfl, rpc_gate_respects_backoff (waited.trans (steps_request () rfl rfl
    ?clear ?due .result))⟩
  case clear =>
    intro deadline recorded
    cases recorded
    decide
  case due => decide

end LpMaker.Evm
