import LpMaker.Engine.Lifecycle
import LpMaker.Shipped
import LpMaker.Strategy.Halt

/-!
# A halt is absorbing

Every operation of the runners keeps the equity peak and a halt, and from a halt no
operation decides to open a position. Because lineages are kept by saving and loading,
the same holds from a saved copy, whatever happened after it was saved.
-/

namespace LpMaker

open Semantics Strategy

variable {F : Type} [F64 F]

/-- Every evaluation is guarded. -/
theorem Evaluation.run_guarded {evaluation : Evaluation F} {s t : Strategy F} {d : Decision F}
    (evaluated : evaluation.run s = .ok (t, d)) : Guarded s t d := by
  cases evaluation with
  | legacy c f => exact evaluateInner_guarded (Except.ok.inj evaluated)
  | withContinuity c f => exact evaluateWithContinuity_guarded (Except.ok.inj evaluated)
  | regime rc c f =>
      have guarded : Guarded s (Regime.evaluate rc c f s).1 (Regime.evaluate rc c f s).2 :=
        Regime.evaluate_guarded
      rw [Except.ok.inj evaluated] at guarded
      exact guarded
  | rearmed binding now store c f =>
      obtain ⟨⟨t, d, written⟩, rearmed, same⟩ := bind_eq_ok.mp evaluated
      cases same
      rcases EntryRearm.evaluate_eq_ok rearmed with ordinary | ⟨paused, -, rfl, lp⟩
      · exact evaluateWithContinuity_guarded ordinary
      · -- The trial differs from the state in its entry history only.
        obtain ⟨⟨peak, -⟩, closed⟩ := evaluateWithContinuity_guarded
          (c := c.strategy) (f := f) (s := { s with entryHistory := .initial }) rfl
        refine ⟨⟨peak, fun halted => ?_⟩, fun halted => lp ▸ closed halted⟩
        rw [paused] at halted
        cases halted

/-- What every operation guarantees for its transition. -/
structure Operation.Guarded (s t : Strategy F) (decided : Option (Decision F)) : Prop where
  keeps : KeepsHalt s t
  closed : t.phase = .halted → ∀ d ∈ decided, d.lp.opens = false

theorem pauseIncompleteInventory_keeps (actualLayers : List String) (c : Config F)
    (paused invalidated : Nat) (s : Strategy F) :
    KeepsHalt s (Recovery.pauseIncompleteInventory actualLayers c paused invalidated s).1 := by
  unfold Recovery.pauseIncompleteInventory
  split_ifs with running
  · refine ⟨le_rfl, fun halted => ?_⟩
    rw [halted] at running
    rcases running.1 with active | recovering
    · cases active
    · cases recovering
  · exact .refl s

theorem finishWorkflowRecovery_keeps (paused invalidated : Nat) (s : Strategy F) :
    KeepsHalt s (Recovery.finishWorkflowRecovery paused invalidated s) := by
  constructor
  · simp
  · intro halted
    rw [Recovery.finishWorkflowRecovery_phase, if_pos halted]

/-- Every operation keeps the peak and the halt, and decides no opening from a halt. -/
theorem Operation.apply_guarded {lineage : StrategyLineage F} (valid : lineage.Valid Applies)
    {operation : Operation F} {after : Strategy F} {decided : Option (Decision F)}
    (applies : operation.Applies lineage after decided) :
    Operation.Guarded lineage.state after decided := by
  cases operation with
  | evaluate evaluation =>
      obtain ⟨⟨t, d⟩, evaluated, same⟩ := bind_eq_ok.mp applies
      cases same
      have guarded := Evaluation.run_guarded evaluated
      exact ⟨guarded.keeps, fun halted d' mem => Option.some.inj mem ▸ guarded.closed halted⟩
  | deferEntry =>
      obtain ⟨earlier, evaluation, d, deploys, extended, rfl, rfl⟩ := deferLast_eq_ok applies
      rw [extended] at valid
      obtain ⟨⟨t, d'⟩, evaluated, same⟩ := bind_eq_ok.mp valid.2
      have guarded : Strategy.Guarded earlier.state lineage.state d := by
        cases same
        exact Evaluation.run_guarded evaluated
      have opens : d.lp.opens = true := by
        cases intent : d.lp with
        | deploy _ => rfl
        | hold | exitToQuote | recenter _ => rw [intent] at deploys; cases deploys
      -- A deployment comes from a running strategy, so restoring its phase undoes no halt.
      have running : lineage.state.phase ≠ .halted := fun halted => by
        rw [guarded.closed halted] at opens
        cases opens
      have ran : earlier.state.phase ≠ .halted := fun halted =>
        running (guarded.keeps.halt halted)
      refine ⟨⟨by simp, fun halted => absurd halted running⟩, fun _ d' mem => ?_⟩
      obtain rfl := Option.some.inj mem
      exact deferEntry_opens ..
  | observeLp hasPositions =>
      cases applies
      exact ⟨⟨by simp, by simp⟩, fun _ _ mem => nomatch mem⟩
  | finishWorkflowRecovery paused invalidated =>
      cases applies
      exact ⟨finishWorkflowRecovery_keeps .., fun _ _ mem => nomatch mem⟩
  | pauseIncompleteInventory actualLayers c paused invalidated =>
      cases applies
      exact ⟨pauseIncompleteInventory_keeps .., fun _ _ mem => nomatch mem⟩
  | prepareObservationRevalidation =>
      cases applies
      exact ⟨⟨le_rfl, id⟩, fun _ _ mem => nomatch mem⟩
  | invalidateObservationStreaks now =>
      cases applies
      exact ⟨⟨le_rfl, id⟩, fun _ _ mem => nomatch mem⟩
  | restoreEntryHistory store =>
      obtain ⟨t, restored, same⟩ := bind_eq_ok.mp applies
      cases same
      obtain ⟨_, rfl⟩ := Recovery.restoreEntryHistory_frame restored
      exact ⟨⟨le_rfl, id⟩, fun _ _ mem => nomatch mem⟩
  | confirmFirstEntry store portfolio =>
      obtain ⟨⟨t, _⟩, confirmed, same⟩ := bind_eq_ok.mp applies
      cases same
      obtain ⟨_, rfl⟩ := Recovery.confirmFirstEntry_frame confirmed
      exact ⟨⟨le_rfl, id⟩, fun _ _ mem => nomatch mem⟩

/-- Within one lineage the peak never decreases, a halt stays, and no operation after a halt
decides to open a position. -/
theorem halted_lineage {lineage : StrategyLineage F} (valid : lineage.Valid Operation.Applies) :
    (lineage.states.Pairwise fun later earlier =>
        earlier.peakEquity ≤ later.peakEquity ∧
          (earlier.phase = .halted → later.phase = .halted)) ∧
      ∀ taken ∈ lineage.path, taken.before.phase = .halted →
        taken.after.phase = .halted ∧
          ∀ d ∈ taken.output, d.lp = .exitToQuote ∨ d.lp = .hold := by
  constructor
  · have pairwise : lineage.states.Pairwise fun later earlier => KeepsHalt earlier later :=
      valid.pairwise_states KeepsHalt.trans
        fun _ _ _ _ valid applies => (Operation.apply_guarded valid applies).keeps
    exact pairwise.imp fun keeps => ⟨keeps.peak, keeps.halt⟩
  · refine valid.forall_mem_path fun earlier operation after decided valid applies halted => ?_
    have guarded := Operation.apply_guarded valid applies
    refine ⟨guarded.keeps.halt halted, fun d mem => ?_⟩
    have closed := guarded.closed (guarded.keeps.halt halted) d mem
    cases intent : d.lp with
    | hold => exact .inr rfl
    | exitToQuote => exact .inl rfl
    | deploy _ => rw [intent] at closed; cases closed
    | recenter _ => rw [intent] at closed; cases closed

/-- Whatever the runners do, from any state on: along the lineage of the state in memory,
which includes the past of the checkpoint it was loaded from, the equity peak never
decreases and a halt stays; no decision after a halt opens a position; and once a halted
state has been saved, the strategy is halted after every later restart. -/
theorem halt_absorbing (start : Strategy F) (process : StrategyProcess F)
    (reached : Process.Steps Operation.Applies (.fresh start) process) :
    (process.current.states.Pairwise fun later earlier =>
        earlier.peakEquity ≤ later.peakEquity ∧
          (earlier.phase = .halted → later.phase = .halted)) ∧
      (∀ taken ∈ process.current.path, taken.before.phase = .halted →
        taken.after.phase = .halted ∧
          ∀ d ∈ taken.output, d.lp = .exitToQuote ∨ d.lp = .hold) ∧
      ∀ copy ∈ process.saved,
        copy.states.Sublist process.current.states ∧
          ∀ later, Process.Steps Operation.Applies process later →
            copy.state.peakEquity ≤ later.current.state.peakEquity ∧
              (copy.state.phase = .halted → later.current.state.phase = .halted) := by
  have sound := Process.sound_of_steps reached
  obtain ⟨pairwise, closed⟩ := halted_lineage sound.valid
  refine ⟨pairwise, closed, fun copy held => ⟨(sound.saved copy held).2.states_sublist, ?_⟩⟩
  intro later steps
  have continues := (sound.continues_saved steps held).2
  have valid := (sound.of_steps steps).valid
  constructor
  · exact continues.keeps (fun s => copy.state.peakEquity ≤ s.peakEquity) valid
      (fun _ _ _ _ valid applies below =>
        below.trans (Operation.apply_guarded valid applies).keeps.peak) le_rfl
  · exact continues.keeps (fun s => s.phase = .halted) valid
      fun _ _ _ _ valid applies halted =>
        (Operation.apply_guarded valid applies).keeps.halt halted

/-- A deployment is deferred and saved, a drawdown halts the strategy and is saved, and after
a restart the workflow recovery and a calm frame leave it halted. -/
def haltThenRestart : List (Process.Command (Operation ℚ)) :=
  let c := Shipped.robinhood.strategy
  let calm := Shipped.frame 190 1000 100 100 100 (Shipped.flatPortfolio 6000 2500 1500)
  let loss := Shipped.frame 190 16000 100 100 100 (Shipped.flatPortfolio 5000 2500 1500)
  [.act (.evaluate (.withContinuity c calm)), .act .deferEntry, .save,
    .act (.evaluate (.legacy c loss)), .save, .load, .act .prepareObservationRevalidation,
    .act (.finishWorkflowRecovery 684020000 684020000), .act (.evaluate (.withContinuity c calm))]

def haltedAfterRestart : StrategyProcess ℚ :=
  ((Process.fresh .default).exec Operation.apply haltThenRestart).get (by decide +kernel)

theorem halt_absorbing_on_shipped :
    haltedAfterRestart.current.state.phase = .halted ∧
      (haltedAfterRestart.current.states.Pairwise fun later earlier =>
        earlier.peakEquity ≤ later.peakEquity ∧
          (earlier.phase = .halted → later.phase = .halted)) ∧
      (∀ taken ∈ haltedAfterRestart.current.path, taken.before.phase = .halted →
        taken.after.phase = .halted ∧
          ∀ d ∈ taken.output, d.lp = .exitToQuote ∨ d.lp = .hold) ∧
      ∀ copy ∈ haltedAfterRestart.saved,
        copy.states.Sublist haltedAfterRestart.current.states ∧
          ∀ later, Process.Steps Operation.Applies haltedAfterRestart later →
            copy.state.peakEquity ≤ later.current.state.peakEquity ∧
              (copy.state.phase = .halted → later.current.state.phase = .halted) :=
  ⟨by decide +kernel, halt_absorbing .default haltedAfterRestart
    (Process.steps_of_exec (Option.some_get _).symm)⟩

end LpMaker
