import LpMaker.Strategy.Cooldown
import LpMaker.Strategy.IndicatorSafety

/-!
# The machine words of the evaluators

Each definition evaluates the 64-bit arithmetic of one stage of an evaluator in the order of the
source, with the conditions under which the source evaluates it. The values of the stages are
those of the evaluators themselves, so that a check which passes leaves them as they are.
-/

namespace LpMaker.Arithmetic

open Fault

/-- The arithmetic of a stage. It returns nothing, or stops at a fault. -/
abbrev Check := Faulty String Unit

def pass : Check := .ok ()

/-- An operation whose result is known. -/
def perform (operation : Faulty String Nat) : Check := operation >>= fun _ => pass

/-- Evaluate the stage only under the condition. -/
def when (condition : Prop) [Decidable condition] (check : Check) : Check :=
  if condition then check else pass

/-- A configured number of seconds or hours, in milliseconds. -/
def duration (amount unit : Nat) : Check := perform (mul 64 amount unit)

/-- The end of a configured duration. -/
def deadline (start amount unit : Nat) : Check := do
  let length ← mul 64 amount unit
  perform (add 64 start length)

/-- The number of the decision bar at a time. -/
def bucket (seconds now : Nat) : Check := do
  let width ← mul 64 seconds 1000
  perform (div now width)

/-- The comparison with the bar after the last one. -/
def nextBar (number last : Nat) : Check :=
  when (number > last ∧ last > 0) (perform (add 64 last 1))

variable {F : Type} [F64 F]

section Legacy

open Strategy

def recheckProgress (f : MarketFrame F) (m : Metrics F) (s : Strategy F) : Check :=
  let p := s.recoveryProgress
  when (p.pendingRevalidation ∧ s.healthyHours ≠ 0 ∧ p.observedMs ≠ 0 ∧ p.anchor.isSome ∧
      p.observedMs ≤ f.nowMs) do
    let gap ← sub f.nowMs p.observedMs
    when (gap ≤ recheckGraceMs ∧ s.lastHour ≤ m.lastCloseMs)
      (perform (sub m.lastCloseMs s.lastHour))

/-- The distance of a new hour from the last one. -/
def countHour (time : Nat) (s : Strategy F) : Check :=
  when (time > s.lastHour ∧ s.lastHour > 0) (perform (sub time s.lastHour))

/-- The risks, the completed hour and the report. -/
def observeMarket (c : StrategyConfig F) (f : MarketFrame F) (continuity : Bool) (m : Metrics F)
    (s : Strategy F) : Check := do
  when (marketRisks c f m = [] ∧ continuity) (recheckProgress f m s)
  countHour m.lastCloseMs (s.applyRisk c f continuity m).1
  when continuity (duration c.cooldownHours 3600000)

/-- The elapsed cooldown of a paused strategy, or the elapsed step of a recovering one. -/
def advance (c : StrategyConfig F) (continuity unsafeMarket healthy : Bool) (s : Strategy F) :
    Check :=
  if s.phase = .paused then
    when (!unsafeMarket ∧ (!continuity ∨ healthy) ∧ s.healthyHours ≥ c.resumeHealthyHours)
      (duration c.cooldownHours 3600000)
  else
    when (s.phase = .recovering ∧ (!continuity ∨ healthy) ∧
      s.healthyHours ≥ c.resumeHealthyHours) (duration c.recoveryStepHours 3600000)

def enterBar (c : StrategyConfig F) (f : MarketFrame F) (s : Strategy F) : Check := do
  bucket c.decisionBarSeconds f.nowMs
  nextBar (f.nowMs / (c.decisionBarSeconds * 1000)) s.lastDecisionBar

def decideMarket (c : StrategyConfig F) (f : MarketFrame F) (continuity : Bool) (m : Metrics F)
    (s : Strategy F) : Check := do
  let risks := marketRisks c f m
  let healthy := (Progress.blockers c f m risks).isEmpty
  observeMarket c f continuity m s
  let observed := (s.observeMarket c f continuity m).1
  advance c continuity (!risks.isEmpty) healthy observed
  let advanced := observed.advance c f continuity (!risks.isEmpty) healthy
  match advanced.2 with
  | none => duration c.cooldownHours 3600000
  | some _ => enterBar c f advanced.1

/-- One evaluation of the legacy profile. -/
def evaluateInner (c : StrategyConfig F) (f : MarketFrame F) (continuity : Bool)
    (s : Strategy F) : Check := do
  duration c.maxDataAgeSeconds 1000
  let s := s.startFrame f
  when ((stale c f || !validFrame f) = false) do
    let s := s.accountEquity c f
    when (s.phase ≠ .halted) <|
      match Indicators.Guarded.calculate f.candles c f.nowMs with
      | .error .panic => .error .panic
      | .error (.failed _) => pass
      | .ok m => decideMarket c f continuity m s

end Legacy

section Profiles

/-- `latest_feature`, where a fault of the machine stops it. -/
def latestFeature (candles : List (Candle F)) (now : Nat) : Faulty String (Feature F) := do
  let a := Indicators.completed candles now
  ensure (a.length ≥ 73) (.failed "need 73 completed hourly candles")
  let start ← sub a.length 73
  let a ← slice a start a.length
  forM a fun x =>
    ensure (Indicators.validBar x ∧ x.openMs ≤ x.closeMs ∧ x.closeMs - x.openMs = hourMs - 1)
      (.failed "invalid hourly candle")
  forM (Indicators.windows a) fun w => do
    let expected ← add 64 w.1.openMs hourMs
    ensure (w.2.openMs = expected) (.failed "hourly gap/duplicate/out-of-order")
  let last ← index a 72
  ensure (now - last.closeMs ≤ hourMs + 60000) (.failed "stale candle history")
  pure (Feature.at_ a 72)

/-- The frame or the feature is unusable whatever the age of the data may be. -/
def broken (f : MarketFrame F) (x : Feature F) : Bool :=
  ([f.pool.price, f.hedgePrice, f.portfolio.equity f.pool.price, f.portfolio.base,
      f.portfolio.shortBase, x.close, x.r1, x.r6, x.r24, x.r72, x.vol6].any
        fun v => !F64.isFinite v)
    || f.pool.price ≤ 0 || f.hedgePrice ≤ 0 || x.close ≤ 0
    || f.pool.timeMs > f.nowMs || f.hedgeTimeMs > f.nowMs || x.time ≥ f.nowMs
    || f.nowMs - x.time > hourMs + 60000

/-- The age of the data is compared last. -/
def unusable (c : StrategyConfig F) (f : MarketFrame F) (x : Feature F) : Check :=
  when (broken f x = false) (duration c.maxDataAgeSeconds 1000)

/-- A pause set elsewhere starts a new cooldown. -/
def anchorPause (c : StrategyConfig F) (s : Strategy F) (st : PersistentState F) : Check :=
  when (s.phase = .paused ∧ st.pauseAnchorMs ≠ s.pauseSince)
    (deadline s.pauseSince c.cooldownHours hourMs)

def forgetAfterGap (c : StrategyConfig F) (f : MarketFrame F) (st : PersistentState F) : Check :=
  when (st.lastObservedMs ≤ f.nowMs ∧ st.lastObservedMs > 0) do
    perform (sub f.nowMs st.lastObservedMs)
    duration c.maxDataAgeSeconds 1000

def awaitCooldown (c : StrategyConfig F) (f : MarketFrame F) (s : Strategy F) : Check :=
  when (s.phase = .warmup ∧ s.entryHistory ≠ .initial)
    (deadline f.nowMs c.cooldownHours hourMs)

/-- The wait of an exit, which a halt and a flat pause skip. -/
def leave (f : MarketFrame F) (amount unit : Nat) (s : Strategy F) : Check :=
  when (s.phase ≠ .halted ∧ (s.phase ≠ .paused ∨ f.portfolio.positions ≠ []))
    (deadline f.nowMs amount unit)

def adjustHedge (profile : PersistentConfig F) : Check := duration profile.hedgeIntervalHours hourMs

/-- The age of the data in the drawdown check of a broken history. -/
def onBrokenHistory (c : StrategyConfig F) (f : MarketFrame F) : Check :=
  when (([f.pool.price, f.hedgePrice, f.portfolio.equity f.pool.price].all
        fun v => F64.isFinite v) ∧ f.pool.price > 0 ∧ f.hedgePrice > 0 ∧
      f.pool.timeMs ≤ f.nowMs ∧ f.hedgeTimeMs ≤ f.nowMs) do
    perform (sub f.nowMs f.pool.timeMs)
    duration c.maxDataAgeSeconds 1000
    when (f.nowMs - f.pool.timeMs ≤ c.maxDataAgeSeconds * 1000)
      (perform (sub f.nowMs f.hedgeTimeMs))

namespace Band

open LpMaker.Band (Observation)

def holdPosition (profile : PersistentConfig F) (band : BandConfig F) (f : MarketFrame F)
    (o : Observation F) : Check := do
  when o.outside (duration band.minimumHoldingHours hourMs)
  when (o.outside = false ∨ f.nowMs - o.bs.enteredMs < band.minimumHoldingHours * hourMs)
    (adjustHedge profile)

/-- The arithmetic of an observation, up to the number of the bar. -/
def observe (c : StrategyConfig F) (f : MarketFrame F) (x : Feature F) (s : Strategy F) :
    Check := do
  let managed := LpMaker.Band.managedEquity s c (f.portfolio.equity f.pool.price)
  let s := managed.1.observeLp (!f.portfolio.positions.isEmpty)
  let st := s.ethPersistent.getD .default
  anchorPause c s st
  let anchored := LpMaker.Band.anchorPause c s st
  forgetAfterGap c f anchored.2
  countHour x.time anchored.1
  bucket c.decisionBarSeconds f.nowMs
  when (f.portfolio.positions ≠ [])
    (nextBar (f.nowMs / (c.decisionBarSeconds * 1000)) anchored.1.lastDecisionBar)

def act (profile : PersistentConfig F) (band : BandConfig F) (c : StrategyConfig F)
    (f : MarketFrame F) (o : Observation F) : Check :=
  if o.leaves then leave f c.cooldownHours hourMs o.s
  else if f.portfolio.positions ≠ [] then holdPosition profile band f o
  else awaitCooldown c f o.s

/-- One evaluation of the band. -/
def evaluate (profile : PersistentConfig F) (band : BandConfig F) (c : StrategyConfig F)
    (f : MarketFrame F) (x : Feature F) (s : Strategy F) : Check := do
  observe c f x s
  act profile band c f (LpMaker.Band.observe profile band c f x s)

end Band

namespace Persistent

open LpMaker.Persistent (Observation)

/-- The bar is numbered again when it is a new one. -/
def newBar (c : StrategyConfig F) (f : MarketFrame F) (s : Strategy F) : Check :=
  when (f.portfolio.positions ≠ []) do
    let seconds ← div f.nowMs c.decisionBarSeconds
    let number ← div seconds 1000
    when (number > s.lastDecisionBar) do
      bucket c.decisionBarSeconds f.nowMs
      nextBar (f.nowMs / (c.decisionBarSeconds * 1000)) s.lastDecisionBar

def observe (c : StrategyConfig F) (f : MarketFrame F) (x : Feature F) (s : Strategy F) :
    Check := do
  let s := s.observeLp (!f.portfolio.positions.isEmpty)
  let st := s.ethPersistent.getD .default
  anchorPause c s st
  let anchored := LpMaker.Persistent.anchorPause c s st
  forgetAfterGap c f anchored.2
  countHour x.time anchored.1
  newBar c f anchored.1

/-- A mere breakout waits for one decision bar only. -/
def exit (c : StrategyConfig F) (f : MarketFrame F) (o : Observation F) : Check :=
  if o.outside ∧ o.danger.isNone then leave f c.decisionBarSeconds 1000 o.s
  else leave f c.cooldownHours hourMs o.s

def enterOrWait (c : StrategyConfig F) (f : MarketFrame F) (o : Observation F) : Check := do
  awaitCooldown c f o.s
  let awaited := Strategy.awaitCooldown c f o.s o.st
  let s := awaited.1
  let st := awaited.2
  when (st.reentryNotBeforeMs = 0) (deadline s.pauseSince c.cooldownHours hourMs)
  when (s.entryHistory = .initial ∨
      (f.nowMs ≥ LpMaker.Persistent.reentryDeadline c s st ∧
        s.healthyHours ≥ c.resumeHealthyHours))
    (bucket c.decisionBarSeconds f.nowMs)

def act (profile : PersistentConfig F) (c : StrategyConfig F) (f : MarketFrame F)
    (o : Observation F) : Check :=
  if o.leaves then exit c f o
  else if f.portfolio.positions = [] then enterOrWait c f o
  else adjustHedge profile

def evaluateFeature (profile : PersistentConfig F) (c : StrategyConfig F) (f : MarketFrame F)
    (x : Feature F) (s : Strategy F) : Check := do
  unusable c f x
  when (x.unusable c f = false) <|
    match profile.band with
    | some band => Band.evaluate profile band c f x s
    | none => do
        observe c f x s
        act profile c f (LpMaker.Persistent.observe profile c f x s)

/-- One evaluation of the persistent profiles. -/
def evaluate (profile : PersistentConfig F) (c : StrategyConfig F) (f : MarketFrame F)
    (s : Strategy F) : Check :=
  match latestFeature f.candles f.nowMs with
  | .error .panic => .error .panic
  | .error (.failed _) => onBrokenHistory c f
  | .ok x => evaluateFeature profile c f x s

end Persistent

end Profiles

section Operations

variable {amount unit start seconds now number last : Nat}

theorem when_pass {condition : Prop} [Decidable condition] {check : Check}
    (passes : condition → check = pass) : when condition check = pass := by
  unfold when
  split_ifs with holds
  · exact passes holds
  · rfl

theorem seq_pass {first rest : Check} (here : first = pass) (later : rest = pass) :
    (do first; rest) = pass := by
  rw [here, later]
  rfl

theorem perform_sub {a b : Nat} (ordered : b ≤ a) : perform (sub a b) = pass := by
  rw [perform, sub_of_le ordered, ok_bind]

theorem perform_add {a b : Nat} (fits : a + b < 2 ^ 64) : perform (add 64 a b) = pass := by
  rw [perform, add_of_lt fits, ok_bind]

theorem duration_pass (fits : amount * unit < 2 ^ 64) : duration amount unit = pass := by
  rw [duration, perform, mul_of_lt fits, ok_bind]

theorem deadline_pass (fits : start + amount * unit < 2 ^ 64) :
    deadline start amount unit = pass := by
  rw [deadline, mul_of_lt (by omega), ok_bind]
  exact perform_add fits

theorem bucket_pass (positive : 0 < seconds) (fits : seconds * 1000 < 2 ^ 64) :
    bucket seconds now = pass := by
  rw [bucket, mul_of_lt fits, ok_bind, perform, div_of_ne (by omega), ok_bind]

theorem nextBar_pass (fits : number < 2 ^ 64) : nextBar number last = pass :=
  when_pass fun ⟨later, _⟩ => perform_add (by omega)

end Operations

/-- The times which an evaluation reads are those of a 64-bit clock, and neither the frame nor the
pause is later than the latest time. -/
structure Representable (latest : Nat) (f : MarketFrame F) (s : Strategy F) : Prop where
  now_le : f.nowMs ≤ latest
  pause_le : s.pauseSince ≤ latest
  pool_lt : f.pool.timeMs < 2 ^ 64
  hedge_lt : f.hedgeTimeMs < 2 ^ 64
  bars_lt : ∀ bar ∈ f.candles, bar.openMs < 2 ^ 64 ∧ bar.closeMs < 2 ^ 64

/-- The configured durations fit in a word, and so do the ends of the waits of a profile which
begin at the latest time. The wait for one bar follows a bar which has passed. -/
def DurationsFit (c : StrategyConfig F) (latest : Nat) : Prop :=
  c.maxDataAgeSeconds * 1000 < 2 ^ 64 ∧ c.decisionBarSeconds * 1000 < 2 ^ 64 ∧
    match c.ethPersistent with
    | none => c.cooldownHours * 3600000 < 2 ^ 64 ∧ c.recoveryStepHours * 3600000 < 2 ^ 64
    | some profile => latest + c.cooldownHours * hourMs < 2 ^ 64 ∧
        (profile.band = none → c.decisionBarSeconds * 1000 ≤ latest →
          latest + c.decisionBarSeconds * 1000 < 2 ^ 64)

/-- No fault stops the evaluators of a configuration up to the latest time. -/
structure NeverFaults (c : StrategyConfig F) (latest : Nat) : Prop where
  legacy : c.ethPersistent = none → ∀ (f : MarketFrame F) (s : Strategy F) (continuity : Bool),
    Representable latest f s → evaluateInner c f continuity s = pass
  profile : ∀ profile, c.ethPersistent = some profile →
    ∀ (f : MarketFrame F) (s : Strategy F), Representable latest f s →
      Persistent.evaluate profile c f s = pass

variable {c : StrategyConfig F} {f : MarketFrame F} {s : Strategy F} {x : Feature F}
  {latest : Nat}

omit [F64 F] in
theorem countHour_pass {time : Nat} : countHour time s = pass :=
  when_pass fun ⟨later, _⟩ => perform_sub later.le

section Legacy

variable {continuity : Bool} {m : Metrics F}

omit [F64 F] in
theorem recheckProgress_pass : recheckProgress f m s = pass := by
  refine when_pass fun ⟨_, _, _, _, observed⟩ => ?_
  rw [sub_of_le observed, ok_bind]
  exact when_pass fun ⟨_, completed⟩ => perform_sub completed

variable (cooldown : c.cooldownHours * 3600000 < 2 ^ 64)
  (step : c.recoveryStepHours * 3600000 < 2 ^ 64) (bar : c.decisionBarSeconds * 1000 < 2 ^ 64)
  (positive : 0 < c.decisionBarSeconds) (word : f.nowMs < 2 ^ 64)

include cooldown in
theorem observeMarket_pass : observeMarket c f continuity m s = pass := by
  refine seq_pass (when_pass fun _ => recheckProgress_pass) ?_
  exact seq_pass countHour_pass (when_pass fun _ => duration_pass cooldown)

omit [F64 F] in
include cooldown step in
theorem advance_pass {unsafeMarket healthy : Bool} :
    advance c continuity unsafeMarket healthy s = pass := by
  unfold advance
  split_ifs
  · exact when_pass fun _ => duration_pass cooldown
  · exact when_pass fun _ => duration_pass step

omit [F64 F] in
include bar positive word in
theorem enterBar_pass : enterBar c f s = pass :=
  seq_pass (bucket_pass positive bar) (nextBar_pass ((Nat.div_le_self _ _).trans_lt word))

include cooldown step bar positive word in
theorem decideMarket_pass : decideMarket c f continuity m s = pass := by
  refine seq_pass (observeMarket_pass cooldown) (seq_pass (advance_pass cooldown step) ?_)
  dsimp only
  split
  · exact duration_pass cooldown
  · exact enterBar_pass bar positive word

include cooldown step bar positive word in
theorem evaluateInner_pass (fit : Indicators.WindowsFit c)
    (age : c.maxDataAgeSeconds * 1000 < 2 ^ 64) : evaluateInner c f continuity s = pass := by
  refine seq_pass (duration_pass age) (when_pass fun _ => when_pass fun _ => ?_)
  rw [Indicators.calculate_agrees fit word]
  cases Indicators.calculate f.candles c f.nowMs with
  | error e => rfl
  | ok m => exact decideMarket_pass cooldown step bar positive word

end Legacy

section Profiles

variable {profile : PersistentConfig F} {band : BandConfig F} {st : PersistentState F}

/-- A loop of checks with one error is one check of them all. -/
theorem forM_ensure {α : Type} {xs : List α} {condition : α → Prop} [DecidablePred condition]
    {error : String} {check : α → Check}
    (each : ∀ x ∈ xs, check x = ensure (condition x) (.failed error)) :
    forM xs check = returned (ensure (∀ x ∈ xs, condition x) error) := by
  induction xs with
  | nil => rfl
  | cons x xs inductionHypothesis =>
      rw [List.forM_cons, each x List.mem_cons_self,
        inductionHypothesis fun y mem => each y (List.mem_cons_of_mem _ mem)]
      by_cases holds : condition x
      · simp only [List.forall_mem_cons, holds, true_and]
        rfl
      · simp only [List.forall_mem_cons, holds, false_and]
        rfl

theorem latestFeature_agrees {candles : List (Candle F)} {now : Nat} (word : now < 2 ^ 64) :
    latestFeature candles now = returned (Feature.latest candles now) := by
  unfold latestFeature Feature.latest
  simp only [List.forM_eq_forM]
  refine bind_agrees ensure_agrees fun _ enough => ?_
  rw [ensure_eq_ok] at enough
  rw [sub_of_le enough, ok_bind, slice_length (Nat.sub_le _ _), ok_bind]
  have size : (Indicators.lastN (Indicators.completed candles now) 73).length = 73 :=
    Indicators.length_lastN enough
  have closed : ∀ r ∈ Indicators.lastN (Indicators.completed candles now) 73, r.closeMs < now :=
    fun r mem => (Indicators.mem_completed.mp (Indicators.mem_of_mem_lastN mem)).2
  have same : (Indicators.completed candles now).drop
      ((Indicators.completed candles now).length - 73) =
    Indicators.lastN (Indicators.completed candles now) 73 := rfl
  rw [same]
  generalize Indicators.lastN (Indicators.completed candles now) 73 = rows at size closed ⊢
  refine bind_agrees (forM_agrees fun r mem => ensure_agrees) fun _ bars => ?_
  simp only [forM_eq_ok, ensure_eq_ok] at bars
  refine bind_agrees (forM_ensure fun pair mem => ?_) fun _ _ => ?_
  · have first := (Indicators.mem_of_mem_windows mem).1
    have before := closed pair.1 first
    have hour := (bars pair.1 first).2
    unfold hourMs at hour ⊢
    rw [add_of_lt (by omega), ok_bind]
  rw [index_of_lt (by omega) Indicators.emptyCandle, ok_bind]
  exact bind_agrees ensure_agrees fun _ _ => rfl

variable (age : c.maxDataAgeSeconds * 1000 < 2 ^ 64) (bar : c.decisionBarSeconds * 1000 < 2 ^ 64)
  (positive : 0 < c.decisionBarSeconds) (wait : latest + c.cooldownHours * hourMs < 2 ^ 64)
  (now : f.nowMs ≤ latest) (pause : s.pauseSince ≤ latest) (word : latest < 2 ^ 64)
  (interval : profile.hedgeIntervalHours ≤ 24)

omit [F64 F] in
include wait pause in
theorem anchorPause_pass : anchorPause c s st = pass :=
  when_pass fun _ => deadline_pass (by omega)

omit [F64 F] in
include age in
theorem forgetAfterGap_pass : forgetAfterGap c f st = pass :=
  when_pass fun ⟨seen, _⟩ => seq_pass (perform_sub seen) (duration_pass age)

omit [F64 F] in
include wait now in
theorem awaitCooldown_pass : awaitCooldown c f s = pass :=
  when_pass fun _ => deadline_pass (by omega)

omit [F64 F] in
theorem leave_pass {amount unit : Nat} (fits : f.nowMs + amount * unit < 2 ^ 64) :
    leave f amount unit s = pass :=
  when_pass fun _ => deadline_pass fits

omit [F64 F] in
include interval in
theorem adjustHedge_pass : adjustHedge profile = pass :=
  duration_pass (by unfold hourMs; omega)

include age in
theorem onBrokenHistory_pass : onBrokenHistory c f = pass := by
  refine when_pass fun ⟨_, _, _, pool, hedge⟩ => ?_
  exact seq_pass (perform_sub pool) (seq_pass (duration_pass age)
    (when_pass fun _ => perform_sub hedge))

namespace Band

open LpMaker.Band (Observation)

omit [F64 F] in
include interval in
theorem holdPosition_pass {o : Observation F} (holding : band.minimumHoldingHours ≤ 720) :
    holdPosition profile band f o = pass := by
  refine seq_pass (when_pass fun _ => duration_pass ?_)
    (when_pass fun _ => adjustHedge_pass interval)
  unfold hourMs
  omega

include age bar positive wait now pause word in
theorem observe_pass : observe c f x s = pass := by
  have kept : ((LpMaker.Band.managedEquity s c (f.portfolio.equity f.pool.price)).1.observeLp
      (!f.portfolio.positions.isEmpty)).pauseSince ≤ latest := by
    rw [Strategy.observeLp_pauseSince]
    exact pause
  refine seq_pass (anchorPause_pass wait kept) (seq_pass (forgetAfterGap_pass age)
    (seq_pass countHour_pass (seq_pass (bucket_pass positive bar) (when_pass fun _ => ?_))))
  exact nextBar_pass ((Nat.div_le_self _ _).trans_lt (now.trans_lt word))

omit [F64 F] in
include wait now interval in
theorem act_pass {o : Observation F} (holding : band.minimumHoldingHours ≤ 720) :
    act profile band c f o = pass := by
  unfold act
  split_ifs
  · exact leave_pass (by omega)
  · exact holdPosition_pass interval holding
  · exact awaitCooldown_pass wait now

end Band

namespace Persistent

open LpMaker.Persistent (Observation)

omit [F64 F] in
include bar positive now word in
theorem newBar_pass : newBar c f s = pass := by
  refine when_pass fun _ => ?_
  rw [div_of_ne positive.ne', ok_bind, div_of_ne (by norm_num), ok_bind]
  refine when_pass fun _ => seq_pass (bucket_pass positive bar) ?_
  exact nextBar_pass ((Nat.div_le_self _ _).trans_lt (now.trans_lt word))

omit [F64 F] in
include age bar positive wait now pause word in
theorem observe_pass : observe c f x s = pass := by
  have kept : (s.observeLp (!f.portfolio.positions.isEmpty)).pauseSince ≤ latest := by
    rw [Strategy.observeLp_pauseSince]
    exact pause
  exact seq_pass (anchorPause_pass wait kept) (seq_pass (forgetAfterGap_pass age)
    (seq_pass countHour_pass (newBar_pass bar positive now word)))

theorem observe_pauseSince :
    (LpMaker.Persistent.observe profile c f x s).s.pauseSince = s.pauseSince := by
  have anchored : (LpMaker.Persistent.anchorPause c (s.observeLp (!f.portfolio.positions.isEmpty))
      ((s.observeLp (!f.portfolio.positions.isEmpty)).ethPersistent.getD .default)).1.pauseSince =
      s.pauseSince := by
    unfold LpMaker.Persistent.anchorPause
    split_ifs <;> exact Strategy.observeLp_pauseSince ..
  simp only [LpMaker.Persistent.observe, Strategy.observeBreakouts_pauseSince,
    Strategy.countHealthyHour_pauseSince, Strategy.haltWhen_pauseSince]
  exact Strategy.forgetAfterGap_pauseSince.trans anchored

omit [F64 F] in
theorem newBar_of_confirmed {newBar : Bool} {side : LpPosition F → Int}
    (confirmed : (s.observeBreakouts c f newBar side).2 = true) : newBar = true := by
  unfold Strategy.observeBreakouts at confirmed
  cases newBar with
  | true => rfl
  | false =>
      rw [Bool.and_false, if_neg Bool.false_ne_true] at confirmed
      exact confirmed

/-- A breakout is only confirmed after a whole bar. -/
theorem bar_le_of_outside
    (outside : (LpMaker.Persistent.observe profile c f x s).outside = true) :
    c.decisionBarSeconds * 1000 ≤ f.nowMs := by
  have opened := of_decide_eq_true (newBar_of_confirmed outside)
  rw [Nat.div_div_eq_div_mul] at opened
  refine Nat.le_of_not_lt fun short => ?_
  rw [Nat.div_eq_of_lt short] at opened
  exact absurd opened (Nat.not_lt_zero _)

omit [F64 F] in
include bar positive wait now in
theorem enterOrWait_pass {o : Observation F} (pause : o.s.pauseSince ≤ latest) :
    enterOrWait c f o = pass := by
  have kept : (Strategy.awaitCooldown c f o.s o.st).1.pauseSince ≤ latest := by
    unfold Strategy.awaitCooldown
    split_ifs
    · exact now
    · exact pause
  refine seq_pass (awaitCooldown_pass wait now) (seq_pass (when_pass fun _ => ?_)
    (when_pass fun _ => bucket_pass positive bar))
  exact deadline_pass (by omega)

omit [F64 F] in
include bar positive wait now interval in
theorem act_pass {o : Observation F} (pause : o.s.pauseSince ≤ latest)
    (barEnd : o.outside = true → f.nowMs + c.decisionBarSeconds * 1000 < 2 ^ 64) :
    act profile c f o = pass := by
  unfold act exit
  split_ifs with _ left
  · exact leave_pass (barEnd left.1)
  · exact leave_pass (by omega)
  · exact enterOrWait_pass bar positive wait now pause
  · exact adjustHedge_pass interval

include age bar positive wait now pause word interval in
theorem evaluateFeature_pass
    (holding : ∀ band, profile.band = some band → band.minimumHoldingHours ≤ 720)
    (barEnd : profile.band = none → c.decisionBarSeconds * 1000 ≤ latest →
      latest + c.decisionBarSeconds * 1000 < 2 ^ 64) :
    evaluateFeature profile c f x s = pass := by
  refine seq_pass (when_pass fun _ => duration_pass age) (when_pass fun _ => ?_)
  cases banded : profile.band with
  | some band =>
      exact seq_pass (Band.observe_pass age bar positive wait now pause word)
        (Band.act_pass wait now interval (holding band banded))
  | none =>
      refine seq_pass (observe_pass age bar positive wait now pause word)
        (act_pass bar positive wait now interval (observe_pauseSince.trans_le pause) ?_)
      intro outside
      have passed := bar_le_of_outside outside
      have fits := barEnd banded (passed.trans now)
      omega

include age bar positive wait now pause word interval in
theorem evaluate_pass
    (holding : ∀ band, profile.band = some band → band.minimumHoldingHours ≤ 720)
    (barEnd : profile.band = none → c.decisionBarSeconds * 1000 ≤ latest →
      latest + c.decisionBarSeconds * 1000 < 2 ^ 64) :
    evaluate profile c f s = pass := by
  unfold evaluate
  rw [latestFeature_agrees (now.trans_lt word)]
  cases Feature.latest f.candles f.nowMs with
  | error e => exact onBrokenHistory_pass age
  | ok x => exact evaluateFeature_pass age bar positive wait now pause word interval holding barEnd

end Persistent

end Profiles

section Configured

variable {parsers : Parsers} {config : Config F}

/-- What a validated configuration says about the durations of its profile. -/
structure ProfileBounds (profile : PersistentConfig F) (c : StrategyConfig F) : Prop where
  interval_le : profile.hedgeIntervalHours ≤ 24
  cooldown_pos : 0 < c.cooldownHours
  cooldown_le : c.cooldownHours ≤ 168
  holding_le : ∀ band, profile.band = some band → band.minimumHoldingHours ≤ 720

theorem profileBounds (valid : config.validate parsers = .ok ())
    {profile : PersistentConfig F} (configured : config.strategy.ethPersistent = some profile) :
    ProfileBounds profile config.strategy := by
  have checked := Config.persistent_validate valid configured
  simp only [PersistentConfig.validate, check_bind_eq_ok, ensure_eq_ok] at checked
  obtain ⟨-, -, -, -, ⟨-, -, interval, cooldown⟩, banded⟩ := checked
  refine ⟨interval.2, cooldown.1, cooldown.2, fun band present => ?_⟩
  rw [present] at banded
  simp only [BandConfig.validate, check_bind_eq_ok, ensure_eq_ok] at banded
  exact banded.2.2.2.1.1.2

/-- Durations which fit never overflow. -/
theorem neverFaults_of_fit (valid : config.validate parsers = .ok ()) (word : latest < 2 ^ 64)
    (fit : DurationsFit config.strategy latest) : NeverFaults config.strategy latest := by
  obtain ⟨age, bar, rest⟩ := fit
  have positive := (Config.strategyAccepted valid).decisionBarSeconds_pos
  constructor
  · intro absent f s continuity times
    rw [absent] at rest
    exact evaluateInner_pass rest.1 rest.2 bar positive (times.now_le.trans_lt word)
      (Indicators.windowsFit valid) age
  · intro profile present f s times
    rw [present] at rest
    have bounds := profileBounds valid present
    exact Persistent.evaluate_pass age bar positive rest.1 times.now_le times.pause_le word
      bounds.interval_le bounds.holding_le rest.2

end Configured

end LpMaker.Arithmetic
