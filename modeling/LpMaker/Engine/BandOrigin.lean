import LpMaker.Engine.EntrySoundness

/-!
# The origin of the band's risk accounting

The band profile measures its drawdown from the first trusted observation of the account.
Every operation of a band run keeps a recorded origin, except that deferring an entry
returns to the persistent state before the deferred evaluation. When that evaluation was
the one which recorded the origin, the record is lost.
-/

namespace LpMaker

open Semantics Band

variable {F : Type} [F64 F]

section Evaluators

variable {profile : PersistentConfig F} {band : BandConfig F} {c : StrategyConfig F}
  {f : MarketFrame F} {x : Feature F} {s : Strategy F}

/-- No decision touches the recorded origin. -/
theorem Band.act_origin (o : Observation F) :
    (act profile band c f x o).2.2.1.accountOriginEquity = o.bs.accountOriginEquity := by
  unfold act
  by_cases leaves : o.leaves
  · rw [if_pos leaves]
  rw [if_neg leaves]
  by_cases held : f.portfolio.positions ≠ []
  · rw [if_pos held]
    unfold holdPosition
    dsimp only
    split_ifs <;> rfl
  · rw [if_neg held]
    unfold enterOrWait
    dsimp only
    split_ifs <;> rfl

/-- A usable frame records the origin, unless there is one. -/
theorem Band.evaluate_origin :
    origin (evaluate profile band c f x s).1 =
      some ((origin s).getD (f.portfolio.equity f.pool.price)) :=
  (act_origin _).trans (observe_accounted profile band c f x s).bandOrigin

theorem managedEquity_origin_of_banded (banded : Bool) (raw : F) :
    origin (if banded then managedEquity s c raw else (s, raw)).1 = origin s ∨
      origin (if banded then managedEquity s c raw else (s, raw)).1 =
        some ((origin s).getD raw) := by
  cases banded
  · exact .inl rfl
  · exact .inr (managedEquity_origin s c raw)

/-- Without a usable history the origin is recorded where the drawdown can be checked. -/
theorem Persistent.onBrokenHistory_origin {e : String} :
    origin (Persistent.onBrokenHistory c f e s).1 = origin s ∨
      origin (Persistent.onBrokenHistory c f e s).1 =
        some ((origin s).getD (f.portfolio.equity f.pool.price)) := by
  have managed := managedEquity_origin_of_banded (c := c) (s := { s with healthyHours := 0 })
    c.band.isSome (f.portfolio.equity f.pool.price)
  unfold Persistent.onBrokenHistory
  dsimp only
  generalize (if c.band.isSome = true then _ else _ : Strategy F × F) = managed at managed ⊢
  split_ifs
  · exact managed
  · exact managed
  · exact .inl rfl

/-- What any evaluation does to the origin: nothing, or record it as a usable frame does. -/
theorem Persistent.evaluate_origin (banded : profile.band = some band) :
    origin (Persistent.evaluate profile c f s).1 = origin s ∨
      origin (Persistent.evaluate profile c f s).1 =
        some ((origin s).getD (f.portfolio.equity f.pool.price)) := by
  unfold Persistent.evaluate
  cases Feature.latest f.candles f.nowMs with
  | error e => exact Persistent.onBrokenHistory_origin
  | ok x =>
      simp only [Persistent.evaluateFeature, banded]
      split_ifs
      · exact .inl rfl
      · exact .inr Band.evaluate_origin

end Evaluators

/-- A recorded origin is still recorded. -/
def OriginKept (s t : Strategy F) : Prop := ∀ value, origin s = some value → origin t = some value

omit [F64 F] in
theorem OriginKept.of_evaluated {s t : Strategy F} {raw : F}
    (evaluated : origin t = origin s ∨ origin t = some ((origin s).getD raw)) :
    OriginKept s t := by
  intro value recorded
  rcases evaluated with kept | stored
  · rw [kept, recorded]
  · rw [stored, recorded]
    rfl

theorem Strategy.evaluateWithContinuity_origin {c : StrategyConfig F} {band : BandConfig F}
    {f : MarketFrame F} {s : Strategy F} (banded : c.band = some band) :
    origin (s.evaluateWithContinuity c f).1 = origin s ∨
      origin (s.evaluateWithContinuity c f).1 =
        some ((origin s).getD (f.portfolio.equity f.pool.price)) := by
  obtain ⟨profile, configured, profileBand⟩ := Option.bind_eq_some_iff.mp banded
  simp only [Strategy.evaluateWithContinuity, configured]
  exact Persistent.evaluate_origin profileBand

namespace Operation

/-- An operation of a runner with the band configuration `c`. -/
def OfBand (c : Config F) : Operation F → Prop
  | evaluate (.withContinuity strategy _) => strategy = c.strategy
  | evaluate (.rearmed _ _ _ config _) => config = c
  | evaluate (.legacy _ _) | evaluate (.regime _ _ _) => False
  | _ => True

/-- The deferred evaluation did not record the origin itself. -/
def defersRecorded (lineage : StrategyLineage F) : Operation F → Bool
  | deferEntry =>
      match lineage with
      | .extend earlier _ _ _ => (origin earlier.state).isSome
      | .start _ => true
  | _ => true

/-- A step of a band run which defers no recording evaluation. -/
structure BandStep (c : Config F) (lineage : StrategyLineage F) (operation : Operation F)
    (after : Strategy F) (decided : Option (Decision F)) : Prop where
  applies : operation.Applies lineage after decided
  ofBand : operation.OfBand c
  recorded : operation.defersRecorded lineage = true

theorem run_originKept {c : Config F} {band : BandConfig F} {evaluation : Evaluation F}
    {s t : Strategy F} {d : Decision F} (banded : c.strategy.band = some band)
    (ofBand : (evaluate evaluation).OfBand c) (ran : evaluation.run s = .ok (t, d)) :
    OriginKept s t := by
  cases evaluation with
  | legacy _ _ => cases ofBand
  | regime _ _ _ => cases ofBand
  | withContinuity strategy f =>
      obtain rfl : strategy = c.strategy := ofBand
      have evaluated := Strategy.evaluateWithContinuity_origin (f := f) (s := s) banded
      rw [Except.ok.inj ran] at evaluated
      exact .of_evaluated evaluated
  | rearmed binding now store config f =>
      obtain rfl : config = c := ofBand
      obtain ⟨⟨_, _, _⟩, rearmed, same⟩ := bind_eq_ok.mp ran
      cases same
      rcases EntryRearm.evaluate_eq_ok rearmed with ordinary | ⟨-, -, rfl, -⟩
      · have evaluated := Strategy.evaluateWithContinuity_origin (f := f) (s := s) banded
        rw [ordinary] at evaluated
        exact .of_evaluated evaluated
      · exact .of_evaluated (Strategy.evaluateWithContinuity_origin (f := f)
          (s := { s with entryHistory := .initial }) banded)

theorem deferEntry_origin (previous : Strategy F) (portfolio : Portfolio F) (s : Strategy F)
    (d : Decision F) : origin (LpMaker.deferEntry previous portfolio s d).1 = origin previous := by
  unfold LpMaker.deferEntry
  dsimp only
  split_ifs <;> rfl

/-- Every step keeps a recorded origin. -/
theorem BandStep.originKept {c : Config F} {band : BandConfig F} {lineage : StrategyLineage F}
    {operation : Operation F} {after : Strategy F} {decided : Option (Decision F)}
    (banded : c.strategy.band = some band) (valid : lineage.Valid (BandStep c))
    (step : BandStep c lineage operation after decided) : OriginKept lineage.state after := by
  obtain ⟨applies, ofBand, recorded⟩ := step
  cases operation with
  | evaluate evaluation =>
      obtain ⟨⟨_, _⟩, ran, same⟩ := bind_eq_ok.mp applies
      cases same
      exact run_originKept banded ofBand ran
  | deferEntry =>
      obtain ⟨earlier, evaluation, d, -, extended, rfl, -⟩ := deferLast_eq_ok applies
      intro value held
      rw [deferEntry_origin]
      -- The deferred evaluation kept what was recorded before it.
      rw [extended] at recorded valid
      obtain ⟨before, stored⟩ := Option.isSome_iff_exists.mp recorded
      obtain ⟨⟨_, _⟩, ran, same⟩ := bind_eq_ok.mp valid.2.applies
      obtain ⟨rfl, -⟩ := Prod.mk.inj (Except.ok.inj same)
      have kept := run_originKept banded valid.2.ofBand ran before stored
      rw [stored, ← kept, held]
  | observeLp hasPositions =>
      cases applies
      intro value held
      rwa [origin, Strategy.observeLp_ethPersistent]
  | finishWorkflowRecovery paused invalidated =>
      cases applies
      intro value held
      unfold Recovery.finishWorkflowRecovery
      dsimp only
      split_ifs <;> exact held
  | pauseIncompleteInventory actualLayers config paused invalidated =>
      cases applies
      intro value held
      unfold Recovery.pauseIncompleteInventory
      split_ifs <;> exact held
  | prepareObservationRevalidation | invalidateObservationStreaks _ =>
      cases applies
      exact fun _ held => held
  | restoreEntryHistory store =>
      obtain ⟨_, restored, same⟩ := bind_eq_ok.mp applies
      cases same
      obtain ⟨_, rfl⟩ := Recovery.restoreEntryHistory_frame restored
      exact fun _ held => held
  | confirmFirstEntry store portfolio =>
      obtain ⟨⟨_, _⟩, confirmed, same⟩ := bind_eq_ok.mp applies
      cases same
      obtain ⟨_, rfl⟩ := Recovery.confirmFirstEntry_frame confirmed
      exact fun _ held => held

end Operation

/-- In every band run that never defers the evaluation which recorded the origin: along the
lineage of the state in memory a recorded origin stays the same, every evaluation of a
usable frame has recorded one, and an origin that has been saved is the origin after every
later step and restart. -/
theorem origin_write_once (c : Config F) (banded : c.strategy.band.isSome)
    (start : Strategy F) (process : StrategyProcess F)
    (reached : Process.Steps (Operation.BandStep c) (.fresh start) process) :
    (process.current.states.Pairwise fun later earlier => OriginKept earlier later) ∧
      (∀ taken ∈ process.current.path, ∀ f,
        taken.input = .evaluate (.withContinuity c.strategy f) →
        (∃ x, Feature.latest f.candles f.nowMs = .ok x ∧ x.unusable c.strategy f = false) →
        origin taken.after =
          some ((origin taken.before).getD (f.portfolio.equity f.pool.price))) ∧
      ∀ copy ∈ process.saved, ∀ later, Process.Steps (Operation.BandStep c) process later →
        OriginKept copy.state later.current.state := by
  obtain ⟨band, banded⟩ := Option.isSome_iff_exists.mp banded
  have sound := Process.sound_of_steps reached
  refine ⟨?_, ?_, ?_⟩
  · exact sound.valid.pairwise_states (fun first second value held => second value (first value held))
      fun _ _ _ _ valid step => step.originKept banded valid
  · refine sound.valid.forall_mem_path ?_
    rintro earlier operation after decided - step f rfl ⟨x, latest, usable⟩
    obtain ⟨⟨_, _⟩, ran, same⟩ := bind_eq_ok.mp step.applies
    cases same
    obtain ⟨profile, configured, profileBand⟩ := Option.bind_eq_some_iff.mp banded
    have evaluated : earlier.state.evaluateWithContinuity c.strategy f =
        Band.evaluate profile band c.strategy f x earlier.state := by
      simp [Strategy.evaluateWithContinuity, configured, Persistent.evaluate, latest,
        Persistent.evaluateFeature, usable, profileBand]
    have recorded : origin (earlier.state.evaluateWithContinuity c.strategy f).1 =
        some ((origin earlier.state).getD (f.portfolio.equity f.pool.price)) := by
      rw [evaluated]
      exact Band.evaluate_origin
    rwa [Except.ok.inj ran] at recorded
  · intro copy held later steps value recorded
    exact (sound.continues_saved steps held).2.keeps (fun s => origin s = some value)
      (sound.of_steps steps).valid
      (fun _ _ _ _ valid step kept => step.originKept banded valid value kept) recorded

section Shipped

/-- An evaluation of the shipped band profile at hour 73, with the whole account in cash. -/
def bandFrame (offset : Nat) (hedgePrice wallet : ℚ) : Operation ℚ :=
  .evaluate (.withContinuity Shipped.ethBandPaper.strategy
    (Shipped.frame 73 offset 100 100 hedgePrice (Shipped.flatPortfolio wallet 60 20)))

/-- The first evaluation records the origin and deploys, and its entry is deferred. The next
one records the account again, after a loss. -/
def deferRecording : List (Process.Command (Operation ℚ)) :=
  [.act (bandFrame 1000 100 120), .act .deferEntry, .act (bandFrame 16000 100 115)]

/-- The origin is recorded while the basis keeps the strategy out, and the entry deferred
later keeps it through a restart. -/
def deferRecorded : List (Process.Command (Operation ℚ)) :=
  [.act (bandFrame 1000 90 120), .act (.observeLp false), .act (bandFrame 16000 100 115),
    .act .deferEntry, .save, .load, .act (bandFrame 31000 100 115)]

theorem bandCommands_ofBand (operation : Operation ℚ)
    (mem : .act operation ∈ deferRecording ∨ .act operation ∈ deferRecorded) :
    operation.OfBand Shipped.ethBandPaper := by
  simp only [deferRecording, deferRecorded, List.mem_cons, reduceCtorEq,
    Process.Command.act.injEq, List.not_mem_nil, or_false, false_or] at mem
  rcases mem with (rfl | rfl | rfl) | (rfl | rfl | rfl | rfl | rfl) <;> trivial

/-- Deferring the recording evaluation loses the origin, and the loss becomes the new base. -/
theorem origin_rebased :
    ¬∀ process : StrategyProcess ℚ,
      Process.Steps (fun lineage operation after decided =>
          operation.Applies lineage after decided ∧ operation.OfBand Shipped.ethBandPaper)
        (.fresh .default) process →
      process.current.states.Pairwise fun later earlier => OriginKept earlier later := by
  intro kept
  set process := ((Process.fresh Strategy.default).exec Operation.apply deferRecording).get
    (by decide +kernel) with processEq
  have pairwise := kept process (Process.steps_of_exec_allowed
    (fun operation mem => bandCommands_ofBand operation (.inl mem)) (Option.some_get _).symm)
  have origins : process.current.states.map origin = [some 195, none, some 200, none] := by
    decide +kernel
  have values : (process.current.states.map origin).Pairwise
      fun later earlier => ∀ value, earlier = some value → later = some value :=
    List.pairwise_map.mpr pairwise
  rw [origins] at values
  have lost := (List.pairwise_cons.mp (List.pairwise_cons.mp values).2).1 (some 200) (by simp)
  cases lost 200 rfl

/-- Operations which refuse to defer a recording evaluation. -/
def applyRecorded (lineage : StrategyLineage ℚ) (operation : Operation ℚ) :
    Except String (Strategy ℚ × Option (Decision ℚ)) :=
  if operation.defersRecorded lineage then operation.apply lineage
  else .error "the deferred evaluation recorded the origin"

def deferredAndRestarted : StrategyProcess ℚ :=
  ((Process.fresh Strategy.default).exec applyRecorded deferRecorded).get (by decide +kernel)

theorem deferredAndRestarted_steps :
    Process.Steps (Operation.BandStep Shipped.ethBandPaper) (.fresh .default)
      deferredAndRestarted := by
  have executed : (Process.fresh Strategy.default).exec applyRecorded deferRecorded =
      some deferredAndRestarted := (Option.some_get _).symm
  refine (Process.steps_of_exec_allowed
    (fun operation mem => bandCommands_ofBand operation (.inr mem)) executed).mono_step
    fun lineage operation after decided taken => ?_
  obtain ⟨applied, ofBand⟩ := taken
  unfold applyRecorded at applied
  split_ifs at applied with recorded
  exact ⟨applied, ofBand, recorded⟩

theorem origin_write_once_on_shipped :
    deferredAndRestarted.current.states.map origin =
        [some 200, some 200, some 200, some 200, some 200, none] ∧
      (deferredAndRestarted.current.states.Pairwise
        fun later earlier => OriginKept earlier later) ∧
      (∀ taken ∈ deferredAndRestarted.current.path, ∀ f,
        taken.input = .evaluate (.withContinuity Shipped.ethBandPaper.strategy f) →
        (∃ x, Feature.latest f.candles f.nowMs = .ok x ∧
          x.unusable Shipped.ethBandPaper.strategy f = false) →
        origin taken.after =
          some ((origin taken.before).getD (f.portfolio.equity f.pool.price))) ∧
      ∀ copy ∈ deferredAndRestarted.saved, ∀ later,
        Process.Steps (Operation.BandStep Shipped.ethBandPaper) deferredAndRestarted later →
        OriginKept copy.state later.current.state :=
  ⟨by decide +kernel,
    origin_write_once Shipped.ethBandPaper rfl .default _ deferredAndRestarted_steps⟩

end Shipped

end LpMaker
