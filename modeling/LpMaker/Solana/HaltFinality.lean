import LpMaker.Solana.Simulation
import LpMaker.Strategy.Halt

/-!
# Halts of the research simulator

The evaluator never leaves a halt, and nothing else in a bar moves the phase, except the pause
for a data gap: it replaces the halt, and the evaluation after it sees a running strategy.
-/

namespace LpMaker.Research

open Semantics

variable {F : Type} [F64 F] [FloorRing F] {setup : Setup F} {row : Row F} {h : Candle F}
  {sim next : Sim F} {d : Decision F}

/-- A computation succeeds with a value of the property. -/
def Succeeds {α : Type} (result : Except String α) (P : α → Prop) : Prop :=
  ∃ value, result = .ok value ∧ P value

instance {α : Type} (result : Except String α) (P : α → Prop) [DecidablePred P] :
    Decidable (Succeeds result P) :=
  match result with
  | .ok value => decidable_of_iff (P value)
      ⟨fun holds => ⟨value, rfl, holds⟩, fun ⟨_, same, holds⟩ => by cases same; exact holds⟩
  | .error _ => isFalse fun ⟨_, same, _⟩ => by cases same

/-- An evaluation of the bar ended in a halt. -/
def Halts (bar : BarRun F) : Prop :=
  Succeeds bar.opened (fun opened => opened.1.state.phase = .halted) ∨
    Succeeds bar.after fun next => next.state.phase = .halted

instance (bar : BarRun F) : Decidable (Halts bar) := by
  unfold Halts; infer_instance

/-- The bar opens no liquidity and ends in a halt, as far as it gets. -/
structure StaysHalted (bar : BarRun F) : Prop where
  closed : ∀ opened, bar.opened = .ok opened → opened.2.lp.opens = false
  decided : ∀ opened, bar.opened = .ok opened → opened.1.state.phase = .halted
  after : ∀ next, bar.after = .ok next → next.state.phase = .halted

section Phases

omit [F64 F] [FloorRing F] in
@[simp] theorem rejectWhen_state (rejected : Bool) (reason : String) :
    (sim.rejectWhen rejected reason).state = sim.state := by
  unfold Sim.rejectWhen
  split_ifs <;> rfl

omit [FloorRing F] in
@[simp] theorem guardOpen_state : (sim.guardOpen setup h).state = sim.state := by
  unfold Sim.guardOpen
  dsimp only
  split_ifs
  · exact rejectWhen_state _ _
  · rfl

omit [FloorRing F] in
@[simp] theorem guardEntry_state : (sim.guardEntry setup h).state = sim.state := by
  unfold Sim.guardEntry
  dsimp only
  split_ifs
  · simp only [rejectWhen_state]
  · rfl

omit [FloorRing F] in
/-- The decision at the opening is the evaluator's on the same state. -/
theorem evaluateOpen_guarded :
    Strategy.Guarded sim.state (sim.evaluateOpen setup row h).1.state
      (sim.evaluateOpen setup row h).2 := by
  unfold Sim.evaluateOpen
  dsimp only
  split_ifs <;> exact Regime.evaluateWithSignals_guarded

@[simp] theorem hedgeEntry_state : (sim.hedgeEntry setup row h d).state = sim.state := by
  unfold Sim.hedgeEntry
  split_ifs <;> rfl

theorem executeOpen_phase (executed : sim.executeOpen setup row h d = .ok next) :
    next.state.phase = sim.state.phase := by
  unfold Sim.executeOpen at executed
  simp only [bind_eq_ok, pure_eq_ok] at executed
  obtain ⟨paper, -, rfl⟩ := executed
  simp [Sim.chargeSwaps]

/-- The stress path over the low keeps a halt. -/
theorem stress_halted (halted : sim.state.phase = .halted)
    (stressed : sim.stress setup row h = .ok next) : next.state.phase = .halted := by
  unfold Sim.stress at stressed
  split_ifs at stressed with stresses
  · have evaluated : (sim.evaluateLow setup row h).1.state.phase = .halted :=
      Regime.evaluateWithSignals_guarded.keeps.halt halted
    generalize sim.evaluateLow setup row h = low at stressed evaluated
    simp only [bind_eq_ok, pure_eq_ok] at stressed
    obtain ⟨left, exits, rfl⟩ := stressed
    unfold Sim.exitLow at exits
    split_ifs at exits with leaves
    · simp only [bind_eq_ok, pure_eq_ok] at exits
      obtain ⟨paper, -, rfl⟩ := exits
      exact evaluated
    · cases exits
      exact evaluated
  · cases stressed
    exact halted

/-- After its decision a bar keeps a halt. -/
theorem follow_halted (halted : sim.state.phase = .halted)
    (followed : sim.follow setup row d = .ok next) : next.state.phase = .halted := by
  unfold Sim.follow at followed
  simp only [bind_eq_ok, pure_eq_ok] at followed
  obtain ⟨h, -, executed, execution, stressed, stress, rfl⟩ := followed
  have entered : executed.state.phase = .halted := (executeOpen_phase execution).trans halted
  have guarded : (executed.guardEntry setup h).state.phase = .halted := by
    rw [guardEntry_state, entered]
  have stays : stressed.state.phase = .halted := stress_halted guarded stress
  exact stays

/-- Without a gap a bar decides on the phase it was entered in. -/
theorem decide_guarded {opened : Sim F × Decision F}
    (continuous : row.afterGap setup.stepMs = false)
    (decided : sim.decide_ setup row = .ok opened) :
    Strategy.Guarded sim.state opened.1.state opened.2 := by
  unfold Sim.decide_ at decided
  simp only [bind_eq_ok, pure_eq_ok] at decided
  obtain ⟨h, -, rate, -, left, leaves, rfl⟩ := decided
  simp only [Sim.leaveForGap, continuous, Bool.false_eq_true, if_false, pure_eq_ok] at leaves
  subst leaves
  have same : ((sim.markOpen setup row h rate).guardOpen setup h).state = sim.state :=
    guardOpen_state
  have evaluated := @evaluateOpen_guarded F _ setup row h
    ((sim.markOpen setup row h rate).guardOpen setup h)
  rwa [same] at evaluated

end Phases

section Bars

/-- A bar in which an evaluation halts ends in a halt. -/
theorem after_of_halts (halts : Halts ((player setup).play sim row))
    (finished : ((player setup).play sim row).after = .ok next) :
    next.state.phase = .halted := by
  rcases halts with ⟨opened, decided, halted⟩ | ⟨other, same, halted⟩
  · obtain ⟨opened', again, followed⟩ := Player.play_after_eq_ok.mp finished
    obtain rfl : opened = opened' := Except.ok.inj (decided.symm.trans again)
    exact follow_halted halted followed
  · obtain rfl : next = other := Except.ok.inj (finished.symm.trans same)
    exact halted

/-- A bar entered in a halt without a gap stays halted. -/
theorem bar_staysHalted (halted : sim.state.phase = .halted)
    (continuous : row.afterGap setup.stepMs = false) :
    StaysHalted ((player setup).play sim row) := by
  have stays : ∀ opened, sim.decide_ setup row = .ok opened →
      opened.1.state.phase = .halted := by
    intro opened decided
    exact (decide_guarded continuous decided).keeps.halt halted
  refine ⟨?_, stays, ?_⟩
  · intro opened decided
    exact (decide_guarded continuous decided).closed (stays opened decided)
  · intro next finished
    obtain ⟨opened, decided, followed⟩ := Player.play_after_eq_ok.mp finished
    exact follow_halted (stays opened decided) followed

/-- A halt is kept over the bars as long as no gap meets it. -/
theorem bars_stayHalted {rows : List (Row F)} (halted : sim.state.phase = .halted)
    (continuous : ∀ bar ∈ (player setup).playAll sim rows, bar.before.state.phase = .halted →
      bar.row.afterGap setup.stepMs = false) :
    ∀ bar ∈ (player setup).playAll sim rows, StaysHalted bar := by
  refine Player.forall_mem_playAll (fun sim => sim.state.phase = .halted) _ halted continuous ?_
  intro sim row halted continuous
  have stays : StaysHalted ((player setup).play sim row) :=
    bar_staysHalted halted (continuous halted)
  exact ⟨stays, stays.after⟩

end Bars

section Replay

variable {c : Config F} {data : Data F} {signals : List (Option (Regime.Signals F))}
  {start end_ : Nat} {apr costMultiplier : F} {curve : Bool} {account : Option F}

omit [FloorRing F] in
theorem begin_stepMs
    (begun : begin_ c data signals start end_ apr costMultiplier curve account =
      .ok (setup, sim)) : setup.stepMs = data.stepMs := by
  unfold begin_ at begun
  simp only [bind_eq_ok, pure_eq_ok, Prod.mk.injEq] at begun
  obtain ⟨_, -, _, -, _, -, _, -, _, -, rfl, -⟩ := begun
  rfl

/-- Once an evaluation of a replay has halted, no later bar opens liquidity or leaves the halt,
as long as no bar entered in the halt comes after a gap. -/
theorem halt_final {before rest : List (BarRun F)} {bar : BarRun F}
    (split : replay c data signals start end_ apr costMultiplier curve account =
      before ++ bar :: rest)
    (halts : Halts bar)
    (continuous : ∀ later ∈ rest, later.before.state.phase = .halted →
      later.row.afterGap data.stepMs = false) :
    ∀ later ∈ rest, StaysHalted later := by
  unfold replay at split
  cases begun : begin_ c data signals start end_ apr costMultiplier curve account with
  | error _ => simp [begun] at split
  | ok opening =>
      obtain ⟨setup, sim⟩ := opening
      rw [← begin_stepMs begun] at continuous
      simp only [begun] at split
      obtain ⟨sim, row, rows, rfl, rfl | ⟨next, finished, rfl⟩⟩ :=
        Player.playAll_split split
      · intro later mem
        cases mem
      · exact bars_stayHalted (after_of_halts halts finished) continuous

end Replay

end LpMaker.Research

namespace LpMaker.Shipped

open Research

/-- The shipped regime, confirmed by one hour. -/
def researchConfig : Research.Config ℚ where
  strategy := solanaStrategy
  leverage := 3
  regime := { solanaRegime with entryConfirmHours := 1 }

/-- A five-minute bar at one price. -/
def fiveMinutes (timestamp : Nat) (price : ℚ) : Bar ℚ :=
  ⟨timestamp, price, price, price, price⟩

/-- The price falls by a fifth, and comes back at `last`. -/
def fallAndReturn (last : Nat) : Data ℚ where
  stepMs := 300000
  intrabarStress := true
  pool := [fiveMinutes 3600 100, fiveMinutes 3900 80, fiveMinutes last 100]
  hedge := [3600, 3900, last].map fun timestamp =>
    let price : ℚ := if timestamp = 3900 then 80 else 100
    ⟨timestamp * 1000, timestamp * 1000 + 299999, price, price, price, price⟩
  funding := fun _ => some 0

/-- Only the third bar has signals, and they confirm an entry. -/
def entrySignals (last : Nat) : List (Option (Regime.Signals ℚ)) :=
  [none, none, some ⟨true, false, 100, last * 1000 / hourMs * hourMs - 1, ""⟩]

/-- The replay of an account whose reserve holds native coins. -/
def replayReserve (last : Nat) : List (BarRun ℚ) :=
  replay researchConfig (fallAndReturn last) (entrySignals last) 0 86400000 0.4 1 false
    (some 0.6)

/-- The fall halts the strategy. After a gap the reserve is worth its price again, and the bar
deploys. -/
theorem deployed_after_halt :
    researchConfig.regime.validate = .ok () ∧
      ((replayReserve 7200)[1]?.any fun bar => Halts bar) ∧
      ((replayReserve 7200)[2]?.any fun bar => bar.before.state.phase = .halted ∧
        Succeeds bar.opened fun opened =>
          opened.1.state.phase = .active ∧ opened.2.lp.isDeploy = true) := by
  decide +kernel

/-- Without the gap the same prices and signals stay halted. -/
theorem halt_final_of_next_bar :
    (replayReserve 4200).length = 3 ∧
      ∀ later ∈ (replayReserve 4200).drop 2, StaysHalted later := by
  have length : (replayReserve 4200).length = 3 := by decide +kernel
  have halts : (replayReserve 4200)[1]?.any (fun bar => Halts bar) = true := by decide +kernel
  have split := List.take_append_drop 1 (replayReserve 4200)
  rw [List.drop_eq_getElem_cons (by omega)] at split
  rw [List.getElem?_eq_getElem (by omega), Option.any_some, decide_eq_true_eq] at halts
  exact ⟨length, halt_final split.symm halts (by decide +kernel)⟩

end LpMaker.Shipped
