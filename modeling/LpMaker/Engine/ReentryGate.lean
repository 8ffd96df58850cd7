import LpMaker.Engine.Lifecycle
import LpMaker.Shipped
import LpMaker.Strategy.ProgressLog

/-!
# The re-entry gate

A paused legacy strategy which may have opened positions before deploys again only after
its cooldown and after the required number of consecutive healthy bars. The bars are
read off the log of the lineage, so what a load discards is not counted and what a
checkpoint carries is counted once.
-/

namespace LpMaker

open Semantics Semantics.Tally Strategy

variable {F : Type} [F64 F]

namespace Operation

/-- The progress events of one operation on state `s`, the latest first. -/
def progressLog (c : StrategyConfig F) (s : Strategy F) :
    Operation F → List (Tally (Credit F))
  | evaluate evaluation => evaluationLog c evaluation.frame s
  | finishWorkflowRecovery _ _ | invalidateObservationStreaks _ => [.clear]
  | pauseIncompleteInventory actualLayers config paused invalidated =>
      if (Recovery.pauseIncompleteInventory actualLayers config paused invalidated s).2 then
        [.clear]
      else []
  | deferEntry | observeLp _ | prepareObservationRevalidation | restoreEntryHistory _
  | confirmFirstEntry _ _ => []

/-- An operation of the EVM runner with configuration `c`, on hour-aligned bars. -/
def BelongsTo (c : Config F) : Operation F → Prop
  | evaluate (.withContinuity strategy f) => strategy = c.strategy ∧ HourAligned f.candles
  | evaluate (.rearmed _ _ _ config f) => config = c ∧ HourAligned f.candles
  | evaluate (.legacy _ _) | evaluate (.regime _ _ _) => False
  | _ => True

/-- A step of the EVM runner. -/
def Runs (c : Config F) (lineage : StrategyLineage F) (operation : Operation F)
    (after : Strategy F) (decided : Option (Decision F)) : Prop :=
  operation.Applies lineage after decided ∧ operation.BelongsTo c

end Operation

/-- The progress events of a lineage, the latest first. -/
def lineageLog (c : StrategyConfig F) : StrategyLineage F → List (Tally (Credit F))
  | .start _ => []
  | .extend earlier operation _ _ =>
      operation.progressLog c earlier.state ++ lineageLog c earlier

/-- An armed permit waives the waiting of this evaluation. -/
def Evaluation.Waives : Evaluation F → Prop
  | .rearmed _ _ store _ _ => ∃ permit ∈ store.permit, permit.status = .armed
  | _ => False

section Resume

variable {c : StrategyConfig F} {f : MarketFrame F} {m : Metrics F} {s t : Strategy F}
  {d : Decision F}

omit [F64 F] in
/-- What starting a frame does to a waiting strategy. -/
theorem startFrame_of_waiting (waiting : s.phase = .paused ∨ s.phase = .warmup) :
    (s.startFrame f).phase = .paused ∧
        (s.phase = .paused → (s.startFrame f).pauseSince = s.pauseSince) ∨
      s.phase = .warmup ∧ (s.startFrame f).phase = .warmup ∧
        (f.portfolio.positions = [] → (s.startFrame f).entryHistory = .initial) := by
  unfold startFrame enterFromWarmup
  rw [observeLp_phase]
  rcases waiting with paused | warmup
  · left
    simp [paused]
  · by_cases enters : s.phase = .warmup ∧
        (s.observeLp (!f.portfolio.positions.isEmpty)).entryHistory ≠ .initial ∧
        f.portfolio.positions = []
    · left
      rw [if_pos enters]
      exact ⟨rfl, fun paused => absurd (warmup.symm.trans paused) nofun⟩
    · right
      rw [if_neg enters]
      refine ⟨warmup, by simp [warmup], fun flat => ?_⟩
      by_contra known
      exact enters ⟨warmup, known, flat⟩

@[simp] theorem accountEquity_pauseSince : (s.accountEquity c f).pauseSince = s.pauseSince := by
  unfold accountEquity haltWhen
  dsimp only
  split_ifs <;> rfl

/-- The observation of the market keeps the entry history, and the phase unless it pauses. -/
theorem observeMarket_history :
    (s.observeMarket c f true m).1.entryHistory = s.entryHistory ∧
      ((s.observeMarket c f true m).1.phase = s.phase ∨
        (s.observeMarket c f true m).1.phase = .paused) := by
  by_cases safe : marketRisks c f m = []
  · obtain ⟨_, _, _, observed⟩ := observeMarket_of_safe (s := s) true safe
    rw [observed]
    exact ⟨rfl, .inl rfl⟩
  · obtain ⟨_, _, _, observed⟩ := observeMarket_of_risk (s := s) true safe
    rw [observed]
    exact ⟨rfl, .inr rfl⟩

/-- A waiting strategy with a known history deploys only after the confirmed hours and the
cooldown. -/
theorem evaluateInner_resumes (evaluated : s.evaluateInner c f true = (t, d))
    (waiting : s.phase = .paused ∨ s.phase = .warmup) (known : t.entryHistory ≠ .initial)
    (deploys : d.lp.isDeploy = true) :
    c.resumeHealthyHours ≤ t.healthyHours ∧
      c.cooldownHours * hourMs ≤ f.nowMs - t.pauseSince ∧
      (s.phase = .paused → t.pauseSince = s.pauseSince) := by
  cases evaluateInner_step evaluated with
  | unusable _ holds => rw [holds] at deploys; cases deploys
  | noIndicators _ _ _ holds => rw [holds] at deploys; cases deploys
  | halted _ _ exits => rw [exits] at deploys; cases deploys
  | @market _ running m _ _ _ decided =>
      set accounted := (s.startFrame f).accountEquity c f with accountedEq
      have samePhase : accounted.phase = (s.startFrame f).phase :=
        (accountEquity_phase (s := s.startFrame f) (c := c) (f := f)).resolve_left running
      obtain ⟨sameHistory, phase⟩ := observeMarket_history (c := c) (f := f) (m := m)
        (s := accounted)
      cases decideMarket_step decided with
      | wait _ exits => rw [exits] at deploys; cases deploys
      | decide advanced settled =>
          obtain ⟨_, _, settledState⟩ := settle_frame settled
          rcases settle_lp settled with kept | ⟨-, _, recentres, -⟩
          · rw [kept] at deploys
            cases advanced with
            | firstEntry _ first => rw [settledState] at known; exact absurd first known
            | resume paused _ confirmed =>
                simp only [canResume, Bool.and_eq_true, decide_eq_true_eq] at confirmed
                rw [settledState]
                refine ⟨confirmed.1.2, confirmed.2, fun wasPaused => ?_⟩
                rcases startFrame_of_waiting (f := f) waiting with ⟨starts, since⟩ | ⟨warm, -⟩
                · have unchanged := (observeMarket_of_paused (c := c) (f := f) true m
                    (samePhase.trans starts)).2.2
                  rw [accountedEq, accountEquity_pauseSince] at unchanged
                  exact unchanged.trans (since wasPaused)
                · rw [wasPaused] at warm
                  cases warm
            | warm warmup flat =>
                have stillWarm : (s.startFrame f).phase = .warmup := by
                  rcases phase with same | paused
                  · rw [← samePhase, ← same, warmup]
                  · rw [warmup] at paused
                    cases paused
                rcases startFrame_of_waiting (f := f) waiting with ⟨starts, -⟩ | ⟨-, -, first⟩
                · rw [starts] at stillWarm
                  cases stillWarm
                · refine absurd ?_ known
                  rw [settledState]
                  exact sameHistory.trans ((accountEquity_entryHistory ..).trans (first flat))
            | scale recovering =>
                have stillRecovering : (s.startFrame f).phase = .recovering := by
                  rcases phase with same | paused
                  · rw [← samePhase, ← same, recovering]
                  · rw [recovering] at paused
                    cases paused
                rcases startFrame_of_waiting (f := f) waiting with ⟨starts, -⟩ | ⟨-, warm, -⟩
                · rw [starts] at stillRecovering
                  cases stillRecovering
                · rw [warm] at stillRecovering
                  cases stillRecovering
            | adopt | keep => cases deploys
          · rw [recentres] at deploys
            cases deploys

end Resume

section Lineages

variable {c : Config F} {lineage : StrategyLineage F} {s t : Strategy F} {d : Decision F}

/-- The log invariant reads three fields only. -/
theorem Strategy.Logged.congr {log : List (Tally (Credit F))} {strategy : StrategyConfig F}
    (logged : Logged strategy log s) (hour : t.lastHour = s.lastHour)
    (hours : t.healthyHours = s.healthyHours)
    (progress : t.recoveryProgress = s.recoveryProgress) : Logged strategy log t := by
  refine ⟨hour ▸ logged.recorded, logged.credited, ?_⟩
  rw [hours, Unverified, progress]
  exact logged.covered

/-- Clearing the count keeps the invariant with a cleared log. -/
theorem Strategy.Logged.invalidate {log : List (Tally (Credit F))} {strategy : StrategyConfig F}
    (logged : Logged strategy log s) (hour : t.lastHour = s.lastHour)
    (hours : t.healthyHours = 0) : Logged strategy (.clear :: log) t :=
  ⟨logged.recorded.clear hour.ge, logged.credited, .inl (hours.trans_le (Nat.zero_le _))⟩

/-- An evaluation of the runner keeps the log invariant. When it deploys without a permit, the
evaluation was the ordinary one. -/
theorem Evaluation.run_logged (legacy : c.strategy.ethPersistent = none)
    {evaluation : Evaluation F} (belongs : (Operation.evaluate evaluation).BelongsTo c)
    {log : List (Tally (Credit F))} (logged : Logged c.strategy log s)
    (evaluated : evaluation.run s = .ok (t, d)) :
    Logged c.strategy (evaluationLog c.strategy evaluation.frame s ++ log) t ∧
      (¬evaluation.Waives → s.evaluateInner c.strategy evaluation.frame true = (t, d)) := by
  have ordinary (s : Strategy F) (f : MarketFrame F) :
      s.evaluateWithContinuity c.strategy f = s.evaluateInner c.strategy f true := by
    rw [evaluateWithContinuity, legacy]
  cases evaluation with
  | legacy _ _ => cases belongs
  | regime _ _ _ => cases belongs
  | withContinuity strategy f =>
      obtain ⟨rfl, aligned⟩ := belongs
      have inner := (ordinary s f).symm.trans (Except.ok.inj evaluated)
      exact ⟨(logged.evaluateInner aligned inner).1, fun _ => inner⟩
  | rearmed binding now store config f =>
      obtain ⟨rfl, aligned⟩ := belongs
      obtain ⟨⟨t', d', written⟩, rearmed, same⟩ := bind_eq_ok.mp evaluated
      cases same
      refine ⟨?_, fun unwaived => ?_⟩
      · rcases EntryRearm.evaluate_eq_ok rearmed with inner | ⟨-, -, rfl, -⟩
        · rw [ordinary] at inner
          exact (logged.evaluateInner aligned inner).1
        · -- The trial starts from the same counters and puts only the history back.
          have trial : Logged config.strategy log { s with entryHistory := .initial } :=
            logged.congr rfl rfl rfl
          obtain ⟨u, decision, inner⟩ : ∃ u decision,
              ({ s with entryHistory := .initial } : Strategy F).evaluateInner
                config.strategy f true = (u, decision) := ⟨_, _, rfl⟩
          have restored : (EntryRearm.evaluateTrial config.strategy f s).1 =
              { u with entryHistory := s.entryHistory } := by
            simp only [EntryRearm.evaluateTrial, ordinary, inner]
          have evaluatedTrial := (trial.evaluateInner aligned inner).1
          rw [evaluationLog_history] at evaluatedTrial
          show Logged _ _ (EntryRearm.evaluateTrial config.strategy f s).1
          rw [restored]
          exact evaluatedTrial.congr rfl rfl rfl
      · rw [← ordinary]
        exact EntryRearm.evaluate_of_unarmed
          (fun permit mem armed => unwaived ⟨permit, mem, armed⟩) rearmed

theorem Operation.run_of_applies {evaluation : Evaluation F}
    (applies : (Operation.evaluate evaluation).Applies lineage t (some d)) :
    evaluation.run lineage.state = .ok (t, d) := by
  obtain ⟨⟨_, _⟩, evaluated, same⟩ := bind_eq_ok.mp applies
  cases same
  exact evaluated

/-- Every operation of the runner keeps the log invariant. -/
theorem Operation.apply_logged (legacy : c.strategy.ethPersistent = none)
    {operation : Operation F} {decided : Option (Decision F)}
    (runs : operation.Runs c lineage t decided)
    (logged : Logged c.strategy (lineageLog c.strategy lineage) lineage.state) :
    Logged c.strategy
      (operation.progressLog c.strategy lineage.state ++ lineageLog c.strategy lineage) t := by
  obtain ⟨applies, belongs⟩ := runs
  cases operation with
  | evaluate evaluation =>
      obtain ⟨⟨_, _⟩, evaluated, same⟩ := bind_eq_ok.mp applies
      cases same
      exact (Evaluation.run_logged legacy belongs logged evaluated).1
  | deferEntry =>
      obtain ⟨_, _, _, -, -, rfl, -⟩ := deferLast_eq_ok applies
      refine logged.congr ?_ ?_ ?_ <;> · unfold LpMaker.deferEntry; dsimp only; split_ifs <;> rfl
  | observeLp hasPositions =>
      cases applies
      exact logged.congr (by simp) (by simp) (by simp)
  | finishWorkflowRecovery paused invalidated =>
      cases applies
      refine logged.invalidate ?_ rfl
      unfold Recovery.finishWorkflowRecovery
      dsimp only
      split_ifs <;> rfl
  | pauseIncompleteInventory actualLayers config paused invalidated =>
      cases applies
      simp only [progressLog]
      rcases Recovery.pauseIncompleteInventory_cases lineage.state actualLayers config
        paused invalidated with complete | ⟨t, pauses, hour, hours⟩
      · rw [complete]
        exact logged
      · rw [pauses]
        exact logged.invalidate hour hours
  | prepareObservationRevalidation =>
      cases applies
      exact ⟨logged.recorded, logged.credited, logged.covered.imp id fun missing =>
        ⟨rfl, missing.2⟩⟩
  | invalidateObservationStreaks now =>
      cases applies
      exact logged.invalidate rfl rfl
  | restoreEntryHistory store =>
      obtain ⟨_, restored, same⟩ := bind_eq_ok.mp applies
      cases same
      obtain ⟨_, rfl⟩ := Recovery.restoreEntryHistory_frame restored
      exact logged.congr rfl rfl rfl
  | confirmFirstEntry store portfolio =>
      obtain ⟨⟨_, _⟩, confirmed, same⟩ := bind_eq_ok.mp applies
      cases same
      obtain ⟨_, rfl⟩ := Recovery.confirmFirstEntry_frame confirmed
      exact logged.congr rfl rfl rfl

/-- The first state of a lineage. -/
def startState : StrategyLineage F → Strategy F
  | .start s => s
  | .extend earlier _ _ _ => startState earlier

/-- Every lineage of the runner which starts without credited hours satisfies the log
invariant. -/
theorem logged_lineage (legacy : c.strategy.ethPersistent = none)
    (valid : lineage.Valid (Operation.Runs c))
    (verified : (startState lineage).healthyHours = 0 ∨ Unverified (startState lineage)) :
    Logged c.strategy (lineageLog c.strategy lineage) lineage.state := by
  induction lineage with
  | start s =>
      exact ⟨.nil, nofun, verified.imp (fun none => none.trans_le (Nat.zero_le _)) id⟩
  | extend earlier operation after decided inductionHypothesis =>
      exact Operation.apply_logged legacy valid.2 (inductionHypothesis valid.1 verified)

/-- Whatever a process reaches has the start state of the process. -/
theorem startState_of_steps {start : Strategy F} {process : StrategyProcess F}
    (reached : Process.Steps (Operation.Runs c) (.fresh start) process) :
    startState process.current = start ∧ ∀ copy ∈ process.saved, startState copy = start := by
  induction reached with
  | refl => exact ⟨rfl, nofun⟩
  | tail _ last inductionHypothesis =>
      obtain ⟨current, saved⟩ := inductionHypothesis
      cases last with
      | act _ => exact ⟨current, saved⟩
      | save =>
          refine ⟨current, fun copy held => ?_⟩
          obtain rfl := Option.mem_some.mp held
          exact current
      | load held => exact ⟨saved _ held, saved⟩

end Lineages

/-- The re-entry gate of the legacy profile with continuity, in every run of the runner on
hour-aligned bars that starts from a state without credited hours or from a checkpoint
without a recorded observation.

No bar is credited twice in the past of any state, and every credited bar was credited by a
usable frame without blockers. Whenever an evaluation without a permit takes a waiting
strategy with a known history to a deployment, the cooldown since the pause has elapsed and
the latest events of the log, after the last risk or reset, are at least
`resume_healthy_hours` credits of consecutive bars. -/
theorem reentry_gate (c : Config F) (legacy : c.strategy.ethPersistent = none)
    (start : Strategy F) (verified : start.healthyHours = 0 ∨ Unverified start)
    (process : StrategyProcess F)
    (reached : Process.Steps (Operation.Runs c) (.fresh start) process) :
    ((credits (lineageLog c.strategy process.current)).Pairwise fun later earlier =>
        earlier.bar < later.bar) ∧
      (∀ credit ∈ credits (lineageLog c.strategy process.current),
        Credited c.strategy credit) ∧
      ∀ earlier evaluation after d,
        process.current = .extend earlier (.evaluate evaluation) after (some d) →
        ¬evaluation.Waives →
        earlier.state.phase = .paused ∨ earlier.state.phase = .warmup →
        after.entryHistory ≠ .initial →
        d.lp.isDeploy = true →
        c.strategy.cooldownHours * hourMs ≤ evaluation.frame.nowMs - after.pauseSince ∧
          (earlier.state.phase = .paused → after.pauseSince = earlier.state.pauseSince) ∧
          c.strategy.resumeHealthyHours ≤
            (streak (lineageLog c.strategy process.current)).length ∧
          (streak (lineageLog c.strategy process.current)).IsChain fun later earlier =>
            later.bar = earlier.bar + hourMs := by
  have sound := Process.sound_of_steps reached
  have begins := (startState_of_steps reached).1
  have logged := logged_lineage legacy sound.valid (begins.symm ▸ verified)
  refine ⟨logged.recorded.increasing, logged.credited, ?_⟩
  intro earlier evaluation after d extended unwaived waiting known deploys
  have valid := sound.valid
  rw [extended] at valid logged begins ⊢
  have evaluated := Operation.run_of_applies valid.2.1
  have before : Logged c.strategy (lineageLog c.strategy earlier) earlier.state :=
    logged_lineage legacy valid.1 (begins.symm ▸ verified)
  have inner := (Evaluation.run_logged legacy valid.2.2 before evaluated).2 unwaived
  obtain ⟨hours, cooled, since⟩ := evaluateInner_resumes inner waiting known deploys
  have aligned : HourAligned evaluation.frame.candles := by
    have belongs := valid.2.2
    cases evaluation with
    | legacy _ _ => cases belongs
    | regime _ _ _ => cases belongs
    | withContinuity _ _ => exact belongs.2
    | rearmed _ _ _ _ _ => exact belongs.2
  have within := (before.evaluateInner aligned inner).2 deploys
  exact ⟨cooled, since, hours.trans within, logged.recorded.consecutive⟩

/-- A strategy with a known history waits flat for six hourly bars, restarts within the grace
period, and deploys a quarter of its budget at the next bar. -/
def waitAndResume : List (Process.Command (Operation ℚ)) :=
  let flat := Shipped.flatPortfolio 6000 2500 1500
  let observe (hours offset : Nat) : Process.Command (Operation ℚ) :=
    .act (.evaluate (.withContinuity Shipped.robinhood.strategy
      (Shipped.frame hours offset 100 100 100 flat)))
  ((List.range 6).map fun hour => observe (180 + hour) 1000) ++
    [.save, .load, .act .prepareObservationRevalidation, observe 185 61000, observe 186 1000]

def resumed : StrategyProcess ℚ :=
  ((Process.fresh (Strategy.default.observeLp true)).exec Operation.apply waitAndResume).get
    (by decide +kernel)

theorem hourAligned_hourlyCandles (price : ℚ) (count : Nat) :
    HourAligned (Shipped.hourlyCandles price count) := by
  intro bar mem
  obtain ⟨hour, -, rfl⟩ := List.mem_map.mp mem
  exact ⟨Nat.mul_mod_left hour hourMs, rfl⟩

theorem waitAndResume_belongs (operation : Operation ℚ)
    (mem : .act operation ∈ waitAndResume) : operation.BelongsTo Shipped.robinhood := by
  have observes (hours offset : Nat) :
      (Operation.evaluate (.withContinuity Shipped.robinhood.strategy
        (Shipped.frame hours offset 100 100 100
          (Shipped.flatPortfolio 6000 2500 1500)))).BelongsTo Shipped.robinhood :=
    ⟨rfl, hourAligned_hourlyCandles 100 hours⟩
  rcases List.mem_append.mp mem with first | last
  · obtain ⟨hour, -, same⟩ := List.mem_map.mp first
    cases same
    exact observes _ _
  · simp only [List.mem_cons, reduceCtorEq, Process.Command.act.injEq, List.not_mem_nil,
      or_false, false_or] at last
    rcases last with rfl | rfl | rfl
    · trivial
    · exact observes _ _
    · exact observes _ _

theorem reentry_gate_on_shipped :
    (resumed.current.path.head?.bind fun taken => taken.output).map Decision.lp =
        some (.deploy 0.25) ∧
      ((credits (lineageLog Shipped.robinhood.strategy resumed.current)).Pairwise
        fun later earlier => earlier.bar < later.bar) ∧
      (∀ credit ∈ credits (lineageLog Shipped.robinhood.strategy resumed.current),
        Credited Shipped.robinhood.strategy credit) ∧
      ∀ earlier evaluation after d,
        resumed.current = .extend earlier (.evaluate evaluation) after (some d) →
        ¬evaluation.Waives →
        earlier.state.phase = .paused ∨ earlier.state.phase = .warmup →
        after.entryHistory ≠ .initial →
        d.lp.isDeploy = true →
        Shipped.robinhood.strategy.cooldownHours * hourMs ≤
            evaluation.frame.nowMs - after.pauseSince ∧
          (earlier.state.phase = .paused → after.pauseSince = earlier.state.pauseSince) ∧
          Shipped.robinhood.strategy.resumeHealthyHours ≤
            (streak (lineageLog Shipped.robinhood.strategy resumed.current)).length ∧
          (streak (lineageLog Shipped.robinhood.strategy resumed.current)).IsChain
            fun later earlier => later.bar = earlier.bar + hourMs :=
  ⟨by decide +kernel, reentry_gate Shipped.robinhood rfl (Strategy.default.observeLp true)
    (.inl rfl) resumed
    (Process.steps_of_exec_allowed waitAndResume_belongs (Option.some_get _).symm)⟩

end LpMaker
