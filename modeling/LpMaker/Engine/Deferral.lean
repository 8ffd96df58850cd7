import LpMaker.Engine.EntrySoundness

/-!
# Deferred entries and the healthy hours

A deferred entry returns to the persistent state before the deferred evaluation, including
its observation time. While the next frames are still close to that observation, every
further evaluation deploys again and no healthy hour is lost. Later on the evaluator takes
the deferrals themselves for an observation gap.
-/

namespace LpMaker

open Semantics

variable {F : Type} [F64 F]

/-- A frame with the feature of its last completed hour. -/
structure HourlyFrame (F : Type) where
  frame : MarketFrame F
  feature : Feature F

namespace HourlyFrame

variable (profile : PersistentConfig F) (c : StrategyConfig F)

/-- A flat frame which would count a healthy hour and shows no danger. -/
structure Quiet (g : HourlyFrame F) : Prop where
  latest : Feature.latest g.frame.candles g.frame.nowMs = .ok g.feature
  usable : g.feature.unusable c g.frame = false
  flat : g.frame.portfolio.positions = []
  recovered : (profile.guard c).recovered g.feature g.frame.pool.price = true
  calm : (profile.guard c).dangerOrBasis c g.frame g.feature = none

/-- The next frame is later, within the allowed age, and continues the hourly features. -/
structure Follows (g next : HourlyFrame F) : Prop where
  later : g.frame.nowMs < next.frame.nowMs
  within : next.frame.nowMs - g.frame.nowMs ≤ c.maxDataAgeSeconds * 1000
  hour : next.feature.time = g.feature.time ∨ next.feature.time = g.feature.time + hourMs

end HourlyFrame

namespace Strategy

/-- The clocks of the persistent profiles. -/
def clocks (s : Strategy F) : PersistentState F := s.ethPersistent.getD .default

/-- The frame stays above the drawdown limit of the peak it updates. -/
def Solvent (c : StrategyConfig F) (f : MarketFrame F) (s : Strategy F) : Prop :=
  max (max s.peakEquity (riskEquity c f s)) c.totalCapital * (1 - c.maxDrawdown) <
    riskEquity c f s

/-- A pause which the clocks know of. -/
def Anchored (s : Strategy F) : Prop := s.phase = .paused → s.clocks.pauseAnchorMs = s.pauseSince

/-- The recorded observation is close enough to the frame, and a pause is a known one. -/
structure Continued (c : StrategyConfig F) (f : MarketFrame F) (s : Strategy F) : Prop where
  past : s.clocks.lastObservedMs ≤ f.nowMs
  near : 0 < s.clocks.lastObservedMs →
    f.nowMs - s.clocks.lastObservedMs ≤ c.maxDataAgeSeconds * 1000
  anchored : s.Anchored

/-- The healthy hours after a quiet frame. -/
def creditedHours (x : Feature F) (s : Strategy F) : Nat :=
  if x.time > s.lastHour then saturatingSucc s.healthyHours else s.healthyHours

/-- Evaluate a frame and defer the decision. -/
def deferring (c : StrategyConfig F) (f : MarketFrame F) (s : Strategy F) :
    Strategy F × Decision F :=
  let evaluated := s.evaluateWithContinuity c f
  ((deferEntry s f.portfolio evaluated.1 evaluated.2).1, evaluated.2)

section Count

variable {guard : Guard F} {x : Feature F} {p : F} {s : Strategy F}

variable (guard x p s) in
/-- Counting an hour touches the last hour and the healthy hours only. -/
theorem countHealthyHour_frame (danger : Option String) :
    ∃ hours, s.countHealthyHour guard danger x p =
      { s with lastHour := max s.lastHour x.time, healthyHours := hours } ∧
      (s.healthyHours < 2 ^ 32 → hours < 2 ^ 32) := by
  have counted : ∃ hours, s.countFeatureHour guard x p =
      { s with lastHour := max s.lastHour x.time, healthyHours := hours } ∧
      (s.healthyHours < 2 ^ 32 → hours < 2 ^ 32) := by
    unfold countFeatureHour
    by_cases newer : x.time > s.lastHour
    · rw [if_pos newer, max_eq_right newer.le]
      dsimp only
      split_ifs
      · exact ⟨_, rfl, fun _ => by unfold saturatingSucc; omega⟩
      · exact ⟨_, rfl, fun _ => by omega⟩
      · exact ⟨_, rfl, fun _ => by unfold saturatingSucc; omega⟩
      · exact ⟨_, rfl, fun _ => by omega⟩
    · rw [if_neg newer, max_eq_left (not_lt.mp newer)]
      exact ⟨_, rfl, id⟩
  obtain ⟨hours, same, fits⟩ := counted
  unfold countHealthyHour
  dsimp only
  split_ifs
  · exact ⟨0, by rw [same], fun _ => by omega⟩
  · exact ⟨hours, same, fits⟩

/-- A healthy hour next to the last one is credited. -/
theorem countHealthyHour_quiet (recovered : guard.recovered x p = true)
    (hour : x.time = s.lastHour ∨ x.time = s.lastHour + hourMs) :
    s.countHealthyHour guard none x p =
      { s with lastHour := x.time, healthyHours := creditedHours x s } := by
  unfold countHealthyHour countFeatureHour creditedHours
  rcases hour with same | next
  · simp [same]
  · have newer : x.time > s.lastHour := by
      rw [next]
      exact Nat.lt_add_of_pos_right (by decide)
    have adjacent : x.time - s.lastHour = hourMs := by omega
    simp [newer, adjacent, recovered]

omit [F64 F] in
theorem healthyHours_le_creditedHours (fits : s.healthyHours < 2 ^ 32) :
    s.healthyHours ≤ creditedHours x s := by
  unfold creditedHours saturatingSucc
  split_ifs
  · omega
  · exact le_rfl

end Count

/-- Account a frame, from the observation gap to the hour credit. -/
def account (guard : Guard F) (danger : Option String) (c : StrategyConfig F)
    (f : MarketFrame F) (x : Feature F) (equity : F) (breached : Prop) [Decidable breached]
    (st : PersistentState F) (s : Strategy F) : Strategy F :=
  Strategy.countHealthyHour guard danger x f.pool.price
    (((s.forgetAfterGap c f st).trackPeak equity c).haltWhen breached)

section Account

variable {c : StrategyConfig F} {f : MarketFrame F} {x : Feature F} {s : Strategy F}
  {st : PersistentState F} {guard : Guard F} {equity : F} {breached : Prop}
  [Decidable breached]

variable (guard c f x equity breached st s) in
/-- Accounting a frame keeps the history, the clocks and the pause. -/
theorem account_frame (danger : Option String) :
    ∃ peak phase hours layers, account guard danger c f x equity breached st s =
        { s with
          peakEquity := peak
          phase := phase
          lastHour := max s.lastHour x.time
          healthyHours := hours
          layers := layers } ∧
      (phase = s.phase ∨ phase = .halted) ∧ (s.healthyHours < 2 ^ 32 → hours < 2 ^ 32) := by
  obtain ⟨gapHours, layers, gapped, gapFits⟩ : ∃ hours layers, s.forgetAfterGap c f st =
      { s with healthyHours := hours, layers := layers } ∧
        (s.healthyHours < 2 ^ 32 → hours < 2 ^ 32) := by
    unfold forgetAfterGap
    split_ifs
    · exact ⟨0, ∅, rfl, fun _ => by omega⟩
    · exact ⟨_, _, rfl, id⟩
  unfold account
  obtain ⟨hours, counted, fits⟩ := countHealthyHour_frame guard x f.pool.price
    (((s.forgetAfterGap c f st).trackPeak equity c).haltWhen breached) danger
  rw [counted]
  rw [gapped] at fits ⊢
  unfold haltWhen at fits ⊢
  by_cases halts : breached
  · rw [if_pos halts] at fits ⊢
    exact ⟨_, .halted, hours, layers, rfl, .inr rfl, fun small => fits (gapFits small)⟩
  · rw [if_neg halts] at fits ⊢
    exact ⟨_, s.phase, hours, layers, rfl, .inl rfl, fun small => fits (gapFits small)⟩

/-- Accounting a quiet frame next to the recorded observation credits its hour. -/
theorem account_quiet (past : st.lastObservedMs ≤ f.nowMs)
    (near : 0 < st.lastObservedMs → f.nowMs - st.lastObservedMs ≤ c.maxDataAgeSeconds * 1000)
    (above : ¬breached) (recovered : guard.recovered x f.pool.price = true)
    (hour : x.time = s.lastHour ∨ x.time = s.lastHour + hourMs) :
    account guard none c f x equity breached st s =
      { s with
        peakEquity := max (max s.peakEquity equity) c.totalCapital
        lastHour := x.time
        healthyHours := creditedHours x s } := by
  have gapless : s.forgetAfterGap c f st = s := by
    unfold forgetAfterGap
    rw [if_neg]
    rintro (future | ⟨observed, far⟩)
    · omega
    · exact absurd (near observed) (not_le.mpr far)
  rw [account, gapless, haltWhen, if_neg above]
  exact countHealthyHour_quiet (s := s.trackPeak equity c) recovered hour

omit [F64 F] in
theorem observeBreakouts_of_flat (flat : f.portfolio.positions = []) (newBar : Bool)
    (side : LpPosition F → Int) : s.observeBreakouts c f newBar side = (s, false) := by
  simp [observeBreakouts, flat]

end Account

end Strategy

section Profiles

variable {profile : PersistentConfig F} {band : BandConfig F} {c : StrategyConfig F}
  {f : MarketFrame F} {x : Feature F} {s : Strategy F}

theorem Config.cooldown_pos {parsers : Parsers} {c : Config F}
    (valid : c.validate parsers = .ok ()) (configured : c.strategy.ethPersistent = some profile) :
    1 ≤ c.strategy.cooldownHours := by
  have checked := Config.persistent_validate valid configured
  simp only [PersistentConfig.validate, check_bind_eq_ok, ensure_eq_ok] at checked
  exact checked.2.2.2.2.1.2.2.2.1

/-- When the wait of a state ends. -/
def Persistent.waitsUntil (profile : PersistentConfig F) (c : StrategyConfig F)
    (s : Strategy F) : Nat :=
  if profile.band.isSome then s.clocks.reentryNotBeforeMs
  else Persistent.reentryDeadline c s s.clocks

/-- What a deployment found, and what it leaves for the next evaluation. -/
structure Deployed (profile : PersistentConfig F) (c : StrategyConfig F) (f : MarketFrame F)
    (x : Feature F) (s t : Strategy F) : Prop where
  warm : s.phase ≠ .warmup
  running : s.phase ≠ .halted
  hours : c.resumeHealthyHours ≤ t.healthyHours
  fits : s.healthyHours < 2 ^ 32 → t.healthyHours < 2 ^ 32
  since : t.pauseSince = s.pauseSince
  hour : t.lastHour = max s.lastHour x.time
  history : t.entryHistory = s.entryHistory
  due : s.Anchored → Persistent.waitsUntil profile c s ≤ f.nowMs

omit [F64 F] in
theorem Band.anchorPause_frame (st : PersistentState F) :
    ∃ hours, (Band.anchorPause c s st).1 = { s with healthyHours := hours } ∧
      (s.healthyHours < 2 ^ 32 → hours < 2 ^ 32) := by
  unfold Band.anchorPause
  split_ifs
  · exact ⟨0, rfl, fun _ => by omega⟩
  · exact ⟨_, rfl, id⟩

omit [F64 F] in
theorem Band.anchorPause_of_anchored {st : PersistentState F}
    (anchored : s.phase = .paused → st.pauseAnchorMs = s.pauseSince) :
    Band.anchorPause c s st = (s, st) := by
  unfold Band.anchorPause
  rw [if_neg]
  exact fun unknown => unknown.2 (anchored unknown.1)

omit [F64 F] in
theorem Persistent.anchorPause_frame (st : PersistentState F) :
    ∃ hours, (Persistent.anchorPause c s st).1 = { s with healthyHours := hours } ∧
      (s.healthyHours < 2 ^ 32 → hours < 2 ^ 32) := by
  unfold Persistent.anchorPause
  split_ifs
  · exact ⟨0, rfl, fun _ => by omega⟩
  · exact ⟨_, rfl, id⟩

omit [F64 F] in
theorem Persistent.anchorPause_of_anchored {st : PersistentState F}
    (anchored : s.phase = .paused → st.pauseAnchorMs = s.pauseSince) :
    Persistent.anchorPause c s st = (s, st) := by
  unfold Persistent.anchorPause
  rw [if_neg]
  exact fun unknown => unknown.2 (anchored unknown.1)

variable (profile band c x s) in
/-- What the band evaluator accounts on a flat frame. -/
theorem Band.observe_flat (flat : f.portfolio.positions = []) :
    ∃ peak phase hours layers, (Band.observe profile band c f x s).s =
        { (Band.managedEquity s c (f.portfolio.equity f.pool.price)).1 with
          peakEquity := peak
          phase := phase
          lastHour := max s.lastHour x.time
          healthyHours := hours
          layers := layers } ∧
      (phase = s.phase ∨ phase = .halted) ∧ (s.healthyHours < 2 ^ 32 → hours < 2 ^ 32) ∧
      (s.Anchored → (Band.observe profile band c f x s).st.reentryNotBeforeMs =
        s.clocks.reentryNotBeforeMs) := by
  set managed := Band.managedEquity s c (f.portfolio.equity f.pool.price) with managedEq
  have unobserved : managed.1.observeLp (!f.portfolio.positions.isEmpty) = managed.1 := by
    rw [flat]
    rfl
  set pause := Band.anchorPause c managed.1 (managed.1.ethPersistent.getD .default) with pauseEq
  obtain ⟨anchorHours, anchored, anchorFits⟩ := Band.anchorPause_frame (c := c)
    (s := managed.1) (managed.1.ethPersistent.getD .default)
  have accounted : (Band.observe profile band c f x s).s =
      Strategy.account (profile.guard c) ((profile.guard c).dangerOrBasis c f x) c f x managed.2
        ((Band.observe profile band c f x s).dd ≥ c.maxDrawdown) pause.2 pause.1 := by
    simp only [Band.observe, Strategy.observeBreakouts_of_flat flat, ← managedEq, unobserved,
      ← pauseEq]
    rfl
  obtain ⟨peak, phase, hours, layers, framed, phases, fits⟩ := Strategy.account_frame
    c f x pause.1 pause.2 (profile.guard c) managed.2
    ((Band.observe profile band c f x s).dd ≥ c.maxDrawdown)
    ((profile.guard c).dangerOrBasis c f x)
  refine ⟨peak, phase, hours, layers, ?_, ?_, ?_, ?_⟩
  · rw [accounted, framed, anchored]
    rfl
  · rw [anchored] at phases
    exact phases
  · intro small
    apply fits
    rw [anchored]
    exact anchorFits small
  · intro known
    have kept : pause = (managed.1, managed.1.ethPersistent.getD .default) :=
      Band.anchorPause_of_anchored known
    simp only [Band.observe, ← managedEq, unobserved, ← pauseEq, kept]
    rfl

/-- With a known history the band evaluator enters once every wait is over. -/
theorem Band.enterOrWait_isDeploy {guard : Guard F} {eq dd : F} {bs : BandState F}
    {st : PersistentState F} (cooldown : 1 ≤ c.cooldownHours)
    (known : s.entryHistory ≠ .initial) :
    (Band.enterOrWait guard c f x eq dd bs s st).2.2.2.lp.isDeploy = true ↔
      s.phase ≠ .warmup ∧ st.reentryNotBeforeMs ≤ f.nowMs ∧
        c.resumeHealthyHours ≤ s.healthyHours ∧ guard.recovered x f.pool.price = true := by
  unfold Band.enterOrWait Strategy.awaitCooldown
  by_cases warmup : s.phase = .warmup
  · have waits : ¬f.nowMs ≥ f.nowMs + c.cooldownHours * hourMs := by
      unfold hourMs
      omega
    simp [warmup, known, waits, LpIntent.isDeploy]
  · by_cases ready : st.reentryNotBeforeMs ≤ f.nowMs ∧ c.resumeHealthyHours ≤ s.healthyHours ∧
      guard.recovered x f.pool.price = true
    · simp [warmup, known, ready, LpIntent.isDeploy]
    · simp [warmup, known, ready, LpIntent.isDeploy]

theorem Band.enterOrWait_of_isDeploy {guard : Guard F} {eq dd : F} {bs : BandState F}
    {st : PersistentState F} (warm : s.phase ≠ .warmup)
    (deploys : (Band.enterOrWait guard c f x eq dd bs s st).2.2.2.lp.isDeploy = true) :
    (Band.enterOrWait guard c f x eq dd bs s st).2.2.2.lp = .deploy 1 ∧
      (Band.enterOrWait guard c f x eq dd bs s st).1 = { s with
        phase := .active
        fraction := 1
        lastDecisionBar := f.nowMs / (c.decisionBarSeconds * 1000) } := by
  have settled : Strategy.awaitCooldown c f s st = (s, st) :=
    if_neg fun warmup => warm warmup.1
  unfold Band.enterOrWait at deploys ⊢
  rw [settled] at deploys ⊢
  dsimp only at deploys ⊢
  split_ifs at deploys ⊢
  · exact ⟨rfl, rfl⟩
  · cases deploys

/-- Deploying on a flat frame, the band evaluator neither leaves nor waits. -/
theorem Band.act_of_isDeploy {o : Band.Observation F} (flat : f.portfolio.positions = [])
    (deploys : (Band.act profile band c f x o).2.2.2.lp.isDeploy = true) :
    o.s.phase ≠ .halted ∧ Band.act profile band c f x o =
      Band.enterOrWait (profile.guard c) c f x o.eq o.dd o.bs o.s o.st := by
  by_cases leaves : o.leaves
  · rw [(Band.act_of_leaves leaves).1] at deploys
    cases deploys
  · refine ⟨fun halted => leaves (.inl halted), ?_⟩
    rw [Band.act, if_neg leaves, if_neg (not_not.mpr flat)]

theorem Band.evaluate_deployed (cooldown : 1 ≤ c.cooldownHours)
    (banded : profile.band = some band) (flat : f.portfolio.positions = [])
    (known : s.entryHistory ≠ .initial)
    (deploys : (Band.evaluate profile band c f x s).2.lp.isDeploy = true) :
    Deployed profile c f x s (Band.evaluate profile band c f x s).1 := by
  obtain ⟨peak, phase, hours, layers, framed, phases, fits, clocks⟩ :=
    Band.observe_flat profile band c x s flat
  set o := Band.observe profile band c f x s with observed
  have acts : (Band.act profile band c f x o).2.2.2.lp.isDeploy = true := deploys
  obtain ⟨running, acted⟩ := Band.act_of_isDeploy flat acts
  rw [acted] at acts
  have history : o.s.entryHistory = s.entryHistory := by
    rw [framed]
    rfl
  obtain ⟨warm, due, ready, -⟩ :=
    (Band.enterOrWait_isDeploy cooldown (history ▸ known)).mp acts
  obtain ⟨-, entered⟩ := Band.enterOrWait_of_isDeploy warm acts
  have same : o.s.phase = s.phase := by
    rcases phases with kept | halted
    · rw [framed]
      exact kept
    · exact absurd (by rw [framed]; exact halted) running
  have evaluated : (Band.evaluate profile band c f x s).1 =
      { o.s with
        ethPersistent := (Band.evaluate profile band c f x s).1.ethPersistent
        phase := .active
        fraction := 1
        lastDecisionBar := f.nowMs / (c.decisionBarSeconds * 1000) } := by
    have result : (Band.evaluate profile band c f x s).1 =
        { (Band.act profile band c f x o).1 with
          ethPersistent := (Band.evaluate profile band c f x s).1.ethPersistent } := rfl
    rw [acted, entered] at result
    exact result
  rw [same] at warm running
  refine ⟨warm, running, ?_, ?_, ?_, ?_, ?_, ?_⟩
  · rw [evaluated]
    exact ready
  · rw [evaluated, framed]
    exact fits
  · rw [evaluated, framed]
    rfl
  · rw [evaluated, framed]
  · rw [evaluated]
    exact history
  · intro anchored
    rw [Persistent.waitsUntil, banded, ← clocks anchored]
    exact due

variable (profile c x s) in
/-- What the evaluator without a band accounts on a flat frame. -/
theorem Persistent.observe_flat (flat : f.portfolio.positions = []) :
    ∃ peak phase hours layers, (Persistent.observe profile c f x s).s =
        { s with
          peakEquity := peak
          phase := phase
          lastHour := max s.lastHour x.time
          healthyHours := hours
          layers := layers } ∧
      (phase = s.phase ∨ phase = .halted) ∧ (s.healthyHours < 2 ^ 32 → hours < 2 ^ 32) ∧
      (s.Anchored → (Persistent.observe profile c f x s).st.reentryNotBeforeMs =
        s.clocks.reentryNotBeforeMs) := by
  have unobserved : s.observeLp (!f.portfolio.positions.isEmpty) = s := by
    rw [flat]
    rfl
  set pause := Persistent.anchorPause c s s.clocks with pauseEq
  obtain ⟨anchorHours, anchored, anchorFits⟩ := Persistent.anchorPause_frame (c := c) (s := s)
    s.clocks
  set equity := f.portfolio.equity f.pool.price
  have accounted : (Persistent.observe profile c f x s).s =
      Strategy.account (profile.guard c) ((profile.guard c).dangerOrBasis c f x) c f x equity
        (equity ≤ (((pause.1.forgetAfterGap c f pause.2).trackPeak equity c).peakEquity) *
          (1 - c.maxDrawdown)) pause.2 pause.1 := by
    simp only [Persistent.observe, Strategy.observeBreakouts_of_flat flat, unobserved]
    rfl
  obtain ⟨peak, phase, hours, layers, framed, phases, fits⟩ := Strategy.account_frame
    c f x pause.1 pause.2 (profile.guard c) equity
    (equity ≤ (((pause.1.forgetAfterGap c f pause.2).trackPeak equity c).peakEquity) *
      (1 - c.maxDrawdown)) ((profile.guard c).dangerOrBasis c f x)
  refine ⟨peak, phase, hours, layers, ?_, ?_, ?_, ?_⟩
  · rw [accounted, framed, anchored]
  · rw [anchored] at phases
    exact phases
  · intro small
    apply fits
    rw [anchored]
    exact anchorFits small
  · intro known
    have kept : Persistent.anchorPause c s (s.ethPersistent.getD .default) = (s, s.clocks) :=
      Persistent.anchorPause_of_anchored known
    simp only [Persistent.observe, unobserved, kept]

/-- With a known history the evaluator without a band enters once every wait is over. -/
theorem Persistent.enterOrWait_isDeploy {st : PersistentState F}
    (cooldown : 1 ≤ c.cooldownHours) (known : s.entryHistory ≠ .initial) :
    (Persistent.enterOrWait c f s st).2.2.lp.isDeploy = true ↔
      s.phase ≠ .warmup ∧ Persistent.reentryDeadline c s st ≤ f.nowMs ∧
        c.resumeHealthyHours ≤ s.healthyHours := by
  unfold Persistent.enterOrWait Strategy.awaitCooldown
  by_cases warmup : s.phase = .warmup
  · have waits : ¬f.nowMs ≥ f.nowMs + c.cooldownHours * hourMs := by
      unfold hourMs
      omega
    have started : 0 < f.nowMs + c.cooldownHours * hourMs := by
      unfold hourMs
      omega
    simp [warmup, known, waits, started, Persistent.reentryDeadline, LpIntent.isDeploy]
  · by_cases ready : Persistent.reentryDeadline c s st ≤ f.nowMs ∧
      c.resumeHealthyHours ≤ s.healthyHours
    · simp [warmup, known, ready, LpIntent.isDeploy]
    · simp [warmup, known, ready, LpIntent.isDeploy]

theorem Persistent.enterOrWait_of_isDeploy {st : PersistentState F} (warm : s.phase ≠ .warmup)
    (deploys : (Persistent.enterOrWait c f s st).2.2.lp.isDeploy = true) :
    (Persistent.enterOrWait c f s st).2.2.lp = .deploy 1 ∧
      (Persistent.enterOrWait c f s st).1 = { s with
        phase := .active
        fraction := 1
        lastDecisionBar := f.nowMs / (c.decisionBarSeconds * 1000) } := by
  have settled : Strategy.awaitCooldown c f s st = (s, st) :=
    if_neg fun warmup => warm warmup.1
  unfold Persistent.enterOrWait at deploys ⊢
  rw [settled] at deploys ⊢
  dsimp only at deploys ⊢
  split_ifs at deploys ⊢
  · exact ⟨rfl, rfl⟩
  · cases deploys

/-- Deploying on a flat frame, the evaluator without a band neither leaves nor waits. -/
theorem Persistent.act_of_isDeploy {o : Persistent.Observation F}
    (flat : f.portfolio.positions = [])
    (deploys : (Persistent.act profile c f o).2.2.lp.isDeploy = true) :
    o.s.phase ≠ .halted ∧ Persistent.act profile c f o = Persistent.enterOrWait c f o.s o.st := by
  by_cases leaves : o.leaves
  · rw [(Persistent.act_of_leaves leaves).1] at deploys
    cases deploys
  · refine ⟨fun halted => leaves (.inl halted), ?_⟩
    rw [Persistent.act, if_neg leaves, if_pos flat]

theorem Persistent.evaluateRange_deployed (cooldown : 1 ≤ c.cooldownHours)
    (unbanded : profile.band = none) (flat : f.portfolio.positions = [])
    (known : s.entryHistory ≠ .initial)
    (deploys : (Persistent.evaluateRange profile c f x s).2.lp.isDeploy = true) :
    Deployed profile c f x s (Persistent.evaluateRange profile c f x s).1 := by
  obtain ⟨peak, phase, hours, layers, framed, phases, fits, clocks⟩ :=
    Persistent.observe_flat profile c x s flat
  set o := Persistent.observe profile c f x s with observed
  have acts : (Persistent.act profile c f o).2.2.lp.isDeploy = true := deploys
  obtain ⟨running, acted⟩ := Persistent.act_of_isDeploy flat acts
  rw [acted] at acts
  have history : o.s.entryHistory = s.entryHistory := by
    rw [framed]
  obtain ⟨warm, due, ready⟩ :=
    (Persistent.enterOrWait_isDeploy cooldown (history ▸ known)).mp acts
  obtain ⟨-, entered⟩ := Persistent.enterOrWait_of_isDeploy warm acts
  have same : o.s.phase = s.phase := by
    rcases phases with kept | halted
    · rw [framed]
      exact kept
    · exact absurd (by rw [framed]; exact halted) running
  have evaluated : (Persistent.evaluateRange profile c f x s).1 =
      { o.s with
        ethPersistent := (Persistent.evaluateRange profile c f x s).1.ethPersistent
        phase := .active
        fraction := 1
        lastDecisionBar := f.nowMs / (c.decisionBarSeconds * 1000) } := by
    have result : (Persistent.evaluateRange profile c f x s).1 =
        { (Persistent.act profile c f o).1 with
          ethPersistent := (Persistent.evaluateRange profile c f x s).1.ethPersistent } := rfl
    rw [acted, entered] at result
    exact result
  rw [same] at warm running
  refine ⟨warm, running, ?_, ?_, ?_, ?_, ?_, ?_⟩
  · rw [evaluated]
    exact ready
  · rw [evaluated, framed]
    exact fits
  · rw [evaluated, framed]
  · rw [evaluated, framed]
  · rw [evaluated]
    exact history
  · intro anchored
    have deadline : Persistent.waitsUntil profile c s =
        Persistent.reentryDeadline c s s.clocks := by
      simp [Persistent.waitsUntil, unbanded]
    rw [deadline, Persistent.reentryDeadline, ← clocks anchored]
    rw [Persistent.reentryDeadline, framed] at due
    exact due

/-- A state which deploys at the next quiet frame. -/
structure Ready (profile : PersistentConfig F) (c : StrategyConfig F) (hour now : Nat)
    (s : Strategy F) : Prop where
  warm : s.phase ≠ .warmup
  running : s.phase ≠ .halted
  history : s.entryHistory = .established
  hours : c.resumeHealthyHours ≤ s.healthyHours
  fits : s.healthyHours < 2 ^ 32
  lastHour : s.lastHour = hour
  due : s.Anchored → Persistent.waitsUntil profile c s ≤ now

omit [F64 F] in
theorem Ready.credited {hour now : Nat} (ready : Ready profile c hour now s) :
    c.resumeHealthyHours ≤ Strategy.creditedHours x s :=
  ready.hours.trans (Strategy.healthyHours_le_creditedHours ready.fits)

theorem Band.evaluate_again {hour now : Nat} (capital : 0 < c.totalCapital)
    (cooldown : 1 ≤ c.cooldownHours) (banded : profile.band = some band)
    (configured : c.ethPersistent = some profile) (flat : f.portfolio.positions = [])
    (recovered : (profile.guard c).recovered x f.pool.price = true)
    (calm : (profile.guard c).dangerOrBasis c f x = none) (ready : Ready profile c hour now s)
    (later : now ≤ f.nowMs) (next : x.time = hour ∨ x.time = hour + hourMs)
    (solvent : s.Solvent c f) (continued : s.Continued c f) :
    (Band.evaluate profile band c f x s).2.lp = .deploy 1 ∧
      (Band.evaluate profile band c f x s).1.healthyHours = Strategy.creditedHours x s := by
  set managed := Band.managedEquity s c (f.portfolio.equity f.pool.price) with managedEq
  have unobserved : managed.1.observeLp (!f.portfolio.positions.isEmpty) = managed.1 := by
    rw [flat]
    rfl
  have kept : Band.anchorPause c managed.1 (managed.1.ethPersistent.getD .default) =
      (managed.1, managed.1.ethPersistent.getD .default) :=
    Band.anchorPause_of_anchored continued.anchored
  set o := Band.observe profile band c f x s with observed
  have accounted : Band.Accounted band c f s o := Band.observe_accounted profile band c f x s
  have peakPos : 0 < o.s.peakEquity := by
    rw [accounted.peak]
    exact capital.trans_le (le_max_right _ _)
  have above : ¬o.dd ≥ c.maxDrawdown := by
    have risk : riskEquity c f s = o.eq := by
      rw [riskEquity, StrategyConfig.band, configured, accounted.eq_def]
      simp [banded]
    rw [Strategy.Solvent, risk, ← accounted.peak] at solvent
    rw [not_le, accounted.dd_def]
    exact (Band.floor_lt_iff peakPos).mp solvent
  have state : o.s = { managed.1 with
      peakEquity := max (max s.peakEquity managed.2) c.totalCapital
      lastHour := x.time
      healthyHours := Strategy.creditedHours x s } := by
    have stepped : o.s = Strategy.account (profile.guard c) ((profile.guard c).dangerOrBasis c f x)
        c f x managed.2 (o.dd ≥ c.maxDrawdown) (managed.1.ethPersistent.getD .default)
        managed.1 := by
      simp only [observed, Band.observe, Strategy.observeBreakouts_of_flat flat, ← managedEq,
        unobserved, kept]
      rfl
    rw [stepped, calm]
    exact Strategy.account_quiet (s := managed.1) continued.past continued.near above recovered
      (ready.lastHour ▸ next)
  have clock : o.st.reentryNotBeforeMs = s.clocks.reentryNotBeforeMs := by
    simp only [observed, Band.observe, ← managedEq, unobserved, kept]
    rfl
  have stays : ¬o.leaves := by
    have notHalted : o.s.phase ≠ .halted := by
      rw [state]
      exact ready.running
    have noDanger : o.danger = none := calm
    have soft : o.soft = false := by
      simp [observed, Band.observe, flat]
    have globally : o.globally = false := by
      simp [observed, Band.observe, flat]
    simp [Band.Observation.leaves, notHalted, noDanger, soft, globally]
  have acted : Band.act profile band c f x o =
      Band.enterOrWait (profile.guard c) c f x o.eq o.dd o.bs o.s o.st := by
    rw [Band.act, if_neg stays, if_neg (not_not.mpr flat)]
  have warm : o.s.phase ≠ .warmup := by
    rw [state]
    exact ready.warm
  have enters : (Band.enterOrWait (profile.guard c) c f x o.eq o.dd o.bs o.s o.st).2.2.2.lp.isDeploy
      = true := by
    refine (Band.enterOrWait_isDeploy cooldown ?_).mpr ⟨warm, ?_, ?_, recovered⟩
    · rw [state]
      exact ready.history ▸ EntryHistory.noConfusion
    · have due := ready.due continued.anchored
      rw [Persistent.waitsUntil, banded] at due
      rw [clock]
      exact due.trans later
    · rw [state]
      exact ready.credited
  obtain ⟨lp, entered⟩ := Band.enterOrWait_of_isDeploy warm enters
  constructor
  · have same : (Band.evaluate profile band c f x s).2.lp =
        (Band.act profile band c f x o).2.2.2.lp := rfl
    rw [same, acted, lp]
  · have same : (Band.evaluate profile band c f x s).1.healthyHours =
        (Band.act profile band c f x o).1.healthyHours := rfl
    rw [same, acted, entered, state]

theorem Persistent.evaluateRange_again {hour now : Nat} (cooldown : 1 ≤ c.cooldownHours)
    (unbanded : profile.band = none) (configured : c.ethPersistent = some profile)
    (flat : f.portfolio.positions = [])
    (recovered : (profile.guard c).recovered x f.pool.price = true)
    (calm : (profile.guard c).dangerOrBasis c f x = none) (ready : Ready profile c hour now s)
    (later : now ≤ f.nowMs) (next : x.time = hour ∨ x.time = hour + hourMs)
    (solvent : s.Solvent c f) (continued : s.Continued c f) :
    (Persistent.evaluateRange profile c f x s).2.lp = .deploy 1 ∧
      (Persistent.evaluateRange profile c f x s).1.healthyHours =
        Strategy.creditedHours x s := by
  have unobserved : s.observeLp (!f.portfolio.positions.isEmpty) = s := by
    rw [flat]
    rfl
  have kept : Persistent.anchorPause c s (s.ethPersistent.getD .default) = (s, s.clocks) :=
    Persistent.anchorPause_of_anchored continued.anchored
  set equity := f.portfolio.equity f.pool.price with equityEq
  set o := Persistent.observe profile c f x s with observed
  have gapped : (s.forgetAfterGap c f s.clocks).peakEquity = s.peakEquity :=
    Strategy.forgetAfterGap_peakEquity ..
  have above : ¬equity ≤ ((s.forgetAfterGap c f s.clocks).trackPeak equity c).peakEquity *
      (1 - c.maxDrawdown) := by
    have risk : riskEquity c f s = equity := by
      rw [riskEquity, StrategyConfig.band, configured]
      simp [unbanded, equityEq]
    rw [Strategy.Solvent, risk] at solvent
    rw [not_le, Strategy.trackPeak_peakEquity, gapped]
    exact solvent
  have state : o.s = { s with
      peakEquity := max (max s.peakEquity equity) c.totalCapital
      lastHour := x.time
      healthyHours := Strategy.creditedHours x s } := by
    have stepped : o.s = Strategy.account (profile.guard c) ((profile.guard c).dangerOrBasis c f x)
        c f x equity (equity ≤ ((s.forgetAfterGap c f s.clocks).trackPeak equity c).peakEquity *
          (1 - c.maxDrawdown)) s.clocks s := by
      simp only [observed, Persistent.observe, Strategy.observeBreakouts_of_flat flat,
        unobserved, kept]
      rfl
    rw [stepped, calm]
    exact Strategy.account_quiet continued.past continued.near above recovered
      (ready.lastHour ▸ next)
  have clock : o.st.reentryNotBeforeMs = s.clocks.reentryNotBeforeMs := by
    simp only [observed, Persistent.observe, unobserved, kept]
  have stays : ¬o.leaves := by
    have notHalted : o.s.phase ≠ .halted := by
      rw [state]
      exact ready.running
    have noDanger : o.danger = none := calm
    have inside : o.outside = false := by
      simp only [observed, Persistent.observe, Strategy.observeBreakouts_of_flat flat]
    simp [Persistent.Observation.leaves, notHalted, noDanger, inside]
  have acted : Persistent.act profile c f o = Persistent.enterOrWait c f o.s o.st := by
    rw [Persistent.act, if_neg stays, if_pos flat]
  have warm : o.s.phase ≠ .warmup := by
    rw [state]
    exact ready.warm
  have enters : (Persistent.enterOrWait c f o.s o.st).2.2.lp.isDeploy = true := by
    refine (Persistent.enterOrWait_isDeploy cooldown ?_).mpr ⟨warm, ?_, ?_⟩
    · rw [state]
      exact ready.history ▸ EntryHistory.noConfusion
    · have due := ready.due continued.anchored
      have deadline : Persistent.waitsUntil profile c s =
          Persistent.reentryDeadline c s s.clocks := by
        simp [Persistent.waitsUntil, unbanded]
      rw [deadline, Persistent.reentryDeadline, ← clock] at due
      rw [Persistent.reentryDeadline, state]
      exact due.trans later
    · rw [state]
      exact ready.credited
  obtain ⟨lp, entered⟩ := Persistent.enterOrWait_of_isDeploy warm enters
  constructor
  · have same : (Persistent.evaluateRange profile c f x s).2.lp =
        (Persistent.act profile c f o).2.2.lp := rfl
    rw [same, acted, lp]
  · have same : (Persistent.evaluateRange profile c f x s).1.healthyHours =
        (Persistent.act profile c f o).1.healthyHours := rfl
    rw [same, acted, entered, state]

/-- Deferring a deployment leaves a state which deploys again. -/
theorem Deployed.deferred {e : Strategy F} (deployed : Deployed profile c f x s e)
    (established : s.entryHistory = .established) (fits : s.healthyHours < 2 ^ 32)
    (hour : s.lastHour ≤ x.time) (d : Decision F) :
    Ready profile c x.time f.nowMs (deferEntry s f.portfolio e d).1 := by
  have deferred : ∃ phase, (phase = s.phase ∨ phase = .paused) ∧
      (deferEntry s f.portfolio e d).1 = { e with
        phase := phase
        fraction := s.fraction
        lastScale := s.lastScale
        ethPersistent := s.ethPersistent } := by
    unfold deferEntry
    dsimp only
    split_ifs
    · exact ⟨.paused, .inr rfl, rfl⟩
    · exact ⟨s.phase, .inl rfl, rfl⟩
  obtain ⟨phase, phases, same⟩ := deferred
  rw [same]
  constructor
  case warm =>
    rcases phases with rfl | rfl
    · exact deployed.warm
    · exact Phase.noConfusion
  case running =>
    rcases phases with rfl | rfl
    · exact deployed.running
    · exact Phase.noConfusion
  case history => exact deployed.history.trans established
  case hours => exact deployed.hours
  case fits => exact deployed.fits fits
  case lastHour => exact deployed.hour.trans (max_eq_right hour)
  case due =>
    intro anchored
    have known : s.Anchored := by
      intro paused
      have recorded := anchored (phases.elim (fun kept => kept.trans paused) id)
      exact recorded.trans deployed.since
    have wait := deployed.due known
    unfold Persistent.waitsUntil Persistent.reentryDeadline Strategy.clocks at wait ⊢
    rw [deployed.since]
    exact wait

end Profiles

section Sequence

variable {profile : PersistentConfig F} {c : StrategyConfig F} {g : HourlyFrame F}
  {s : Strategy F}

theorem HourlyFrame.Quiet.evaluates (configured : c.ethPersistent = some profile)
    (quiet : g.Quiet profile c) :
    s.evaluateWithContinuity c g.frame =
      match profile.band with
      | some band => Band.evaluate profile band c g.frame g.feature s
      | none => Persistent.evaluateRange profile c g.frame g.feature s := by
  simp only [Strategy.evaluateWithContinuity, configured, Persistent.evaluate, quiet.latest,
    Persistent.evaluateFeature, quiet.usable]
  rfl

theorem HourlyFrame.Quiet.deployed (configured : c.ethPersistent = some profile)
    (cooldown : 1 ≤ c.cooldownHours) (quiet : g.Quiet profile c)
    (known : s.entryHistory ≠ .initial)
    (deploys : (s.evaluateWithContinuity c g.frame).2.lp.isDeploy = true) :
    Deployed profile c g.frame g.feature s (s.evaluateWithContinuity c g.frame).1 := by
  rw [quiet.evaluates configured] at deploys ⊢
  cases choice : profile.band with
  | none =>
      simp only [choice] at deploys ⊢
      exact Persistent.evaluateRange_deployed cooldown choice quiet.flat known deploys
  | some band =>
      simp only [choice] at deploys ⊢
      exact Band.evaluate_deployed cooldown choice quiet.flat known deploys

theorem HourlyFrame.Quiet.again {hour now : Nat} (capital : 0 < c.totalCapital)
    (configured : c.ethPersistent = some profile) (cooldown : 1 ≤ c.cooldownHours)
    (quiet : g.Quiet profile c) (ready : Ready profile c hour now s)
    (later : now ≤ g.frame.nowMs)
    (next : g.feature.time = hour ∨ g.feature.time = hour + hourMs)
    (solvent : s.Solvent c g.frame) (continued : s.Continued c g.frame) :
    (s.evaluateWithContinuity c g.frame).2.lp = .deploy 1 ∧
      (s.evaluateWithContinuity c g.frame).1.healthyHours =
        Strategy.creditedHours g.feature s := by
  rw [quiet.evaluates configured]
  cases choice : profile.band with
  | none =>
      exact Persistent.evaluateRange_again cooldown choice configured quiet.flat quiet.recovered
        quiet.calm ready later next solvent continued
  | some band =>
      exact Band.evaluate_again capital cooldown choice configured quiet.flat quiet.recovered
        quiet.calm ready later next solvent continued

/-- A quiet frame which continues a deferral deploys, keeps the hours, and can be deferred
again. -/
theorem Ready.defer {hour now : Nat} (capital : 0 < c.totalCapital)
    (configured : c.ethPersistent = some profile) (cooldown : 1 ≤ c.cooldownHours)
    (quiet : g.Quiet profile c) (ready : Ready profile c hour now s)
    (later : now ≤ g.frame.nowMs)
    (next : g.feature.time = hour ∨ g.feature.time = hour + hourMs)
    (solvent : s.Solvent c g.frame) (continued : s.Continued c g.frame) :
    ((s.deferring c g.frame).2.lp = .deploy 1 ∧
        s.healthyHours ≤ (s.deferring c g.frame).1.healthyHours) ∧
      Ready profile c g.feature.time g.frame.nowMs (s.deferring c g.frame).1 := by
  obtain ⟨deploys, credited⟩ :=
    quiet.again capital configured cooldown ready later next solvent continued
  have known : s.entryHistory ≠ .initial := ready.history ▸ EntryHistory.noConfusion
  have deployed := quiet.deployed configured cooldown known (by rw [deploys]; rfl)
  have hourly : s.lastHour ≤ g.feature.time := by
    rw [ready.lastHour]
    omega
  refine ⟨⟨deploys, ?_⟩, deployed.deferred ready.history ready.fits hourly _⟩
  have kept : (s.deferring c g.frame).1.healthyHours =
      (s.evaluateWithContinuity c g.frame).1.healthyHours := by
    unfold Strategy.deferring deferEntry
    dsimp only
    split_ifs <;> rfl
  rw [kept, credited]
  exact Strategy.healthyHours_le_creditedHours ready.fits

/-- From a ready state on, quiet frames which continue the deferral keep deploying. -/
theorem Ready.deploys {hour now : Nat} (capital : 0 < c.totalCapital)
    (configured : c.ethPersistent = some profile) (cooldown : 1 ≤ c.cooldownHours)
    (ready : Ready profile c hour now s) {rest : List (HourlyFrame F)}
    (quiet : ∀ next ∈ rest, next.Quiet profile c)
    (follows : (g :: rest).IsChain (HourlyFrame.Follows c))
    (same : g.feature.time = hour ∧ g.frame.nowMs = now)
    (continued : ∀ taken ∈ trace (Strategy.deferring c) s (rest.map HourlyFrame.frame),
      taken.before.Solvent c taken.input ∧ taken.before.Continued c taken.input) :
    ∀ taken ∈ trace (Strategy.deferring c) s (rest.map HourlyFrame.frame),
      taken.output.lp = .deploy 1 ∧ taken.before.healthyHours ≤ taken.after.healthyHours := by
  induction rest generalizing s g hour now with
  | nil => exact fun _ mem => absurd mem List.not_mem_nil
  | cons next rest inductionHypothesis =>
      obtain ⟨rfl, rfl⟩ := same
      obtain ⟨here, later⟩ := List.forall_mem_cons.mp continued
      obtain ⟨quietNext, quietRest⟩ := List.forall_mem_cons.mp quiet
      obtain ⟨step, chain⟩ := List.isChain_cons_cons.mp follows
      obtain ⟨kept, readyNext⟩ := ready.defer capital configured cooldown quietNext
        step.later.le step.hour here.1 here.2
      exact List.forall_mem_cons.mpr
        ⟨kept, inductionHypothesis readyNext quietRest chain ⟨rfl, rfl⟩ later⟩

end Sequence

section Deferral

variable {parsers : Parsers}

/-- After a deferred deployment every following quiet frame deploys again and keeps the
healthy hours, as long as the state after each deferral is continued by the next frame: its
recorded observation is within the allowed age, a pause is anchored, and the frame stays
above the drawdown limit. -/
theorem deferral_keeps_hours {c : Config F} {profile : PersistentConfig F}
    (valid : c.validate parsers = .ok ()) (configured : c.strategy.ethPersistent = some profile)
    (s : Strategy F) (established : s.entryHistory = .established)
    (fits : s.healthyHours < 2 ^ 32) (first : HourlyFrame F) (rest : List (HourlyFrame F))
    (quiet : ∀ g ∈ first :: rest, g.Quiet profile c.strategy)
    (follows : (first :: rest).IsChain (HourlyFrame.Follows c.strategy))
    (hour : s.lastHour ≤ first.feature.time)
    (deploys : (s.deferring c.strategy first.frame).2.lp.isDeploy = true)
    (continued : ∀ taken ∈ trace (Strategy.deferring c.strategy)
        (s.deferring c.strategy first.frame).1 (rest.map HourlyFrame.frame),
      taken.before.Solvent c.strategy taken.input ∧
        taken.before.Continued c.strategy taken.input) :
    ∀ taken ∈ trace (Strategy.deferring c.strategy) (s.deferring c.strategy first.frame).1
        (rest.map HourlyFrame.frame),
      taken.output.lp = .deploy 1 ∧ taken.before.healthyHours ≤ taken.after.healthyHours := by
  have capital := (Config.strategyAccepted valid).totalCapital_pos
  have cooldown := Config.cooldown_pos valid configured
  obtain ⟨quietFirst, quietRest⟩ := List.forall_mem_cons.mp quiet
  have known : s.entryHistory ≠ .initial := established ▸ EntryHistory.noConfusion
  have deployed := quietFirst.deployed configured cooldown known deploys
  have ready : Ready profile c.strategy first.feature.time first.frame.nowMs
      (s.deferring c.strategy first.frame).1 :=
    deployed.deferred established fits hour _
  exact ready.deploys capital configured cooldown quietRest follows ⟨rfl, rfl⟩ continued

end Deferral

section Shipped

/-- The shipped persistent profile with the shortest cooldown, for hourly observations. -/
def hourlyDd5 : Config ℚ :=
  { Shipped.ethPersistentDd5 with
    strategy := { Shipped.ethPersistentDd5.strategy with
      cooldownHours := 1
      maxDataAgeSeconds := 4000 } }

theorem hourlyDd5_valid : hourlyDd5.validate Shipped.parsers = .ok () :=
  Config.validate_eq_ok.mpr
    ⟨by decide +kernel, by decide +kernel, Shipped.venues_valid true _⟩

/-- A flat frame at a constant price. -/
def hourly (hours offset : Nat) : HourlyFrame ℚ :=
  let f := Shipped.frame hours offset 100 100 100 (Shipped.flatPortfolio 120 60 20)
  ⟨f, Feature.at_ (Indicators.lastN (Indicators.completed f.candles f.nowMs) 73) 72⟩

/-- The profile after its first frame, which starts the cooldown. -/
def waiting : Strategy ℚ :=
  ((Strategy.default.observeLp true).evaluateWithContinuity hourlyDd5.strategy
    (hourly 80 1000).frame).1

theorem latest_of_isSome {F : Type} [F64 F] {candles : List (Candle F)} {now : Nat}
    (usable : (Feature.latest candles now).toOption.isSome = true) :
    Feature.latest candles now =
      .ok (Feature.at_ (Indicators.lastN (Indicators.completed candles now) 73) 72) := by
  obtain ⟨x, found⟩ := Option.isSome_iff_exists.mp usable
  cases latest : Feature.latest candles now with
  | error e =>
      rw [latest] at found
      cases found
  | ok x =>
      simp only [Feature.latest, check_bind_eq_ok, Except.ok.injEq] at latest
      rw [latest.2.2.2.2]

theorem hourly_quiet {profile : PersistentConfig ℚ} {c : StrategyConfig ℚ} {hours offset : Nat}
    (checked : (Feature.latest (hourly hours offset).frame.candles
        (hourly hours offset).frame.nowMs).toOption.isSome = true ∧
      (hourly hours offset).feature.unusable c (hourly hours offset).frame = false ∧
      (profile.guard c).recovered (hourly hours offset).feature
        (hourly hours offset).frame.pool.price = true ∧
      (profile.guard c).dangerOrBasis c (hourly hours offset).frame
        (hourly hours offset).feature = none) :
    (hourly hours offset).Quiet profile c :=
  ⟨latest_of_isSome checked.1, checked.2.1, rfl, checked.2.2.1, checked.2.2.2⟩

def dd5Profile : PersistentConfig ℚ := hourlyDd5.strategy.ethPersistent.get rfl

/-- The frame of the next hour is further from the restored observation than allowed: the
strategy forgets its healthy hours and waits again. -/
theorem deferral_discards_hours : hourlyDd5.validate Shipped.parsers = .ok () ∧
    ¬∀ (s : Strategy ℚ) (first : HourlyFrame ℚ) (rest : List (HourlyFrame ℚ)),
      s.entryHistory = .established → s.healthyHours < 2 ^ 32 →
      (∀ g ∈ first :: rest, g.Quiet dd5Profile hourlyDd5.strategy) →
      (first :: rest).IsChain (HourlyFrame.Follows hourlyDd5.strategy) →
      s.lastHour ≤ first.feature.time →
      (s.deferring hourlyDd5.strategy first.frame).2.lp.isDeploy = true →
      ∀ taken ∈ trace (Strategy.deferring hourlyDd5.strategy)
          (s.deferring hourlyDd5.strategy first.frame).1 (rest.map HourlyFrame.frame),
        taken.output.lp = .deploy 1 ∧ taken.before.healthyHours ≤ taken.after.healthyHours := by
  refine ⟨hourlyDd5_valid, fun claimed => ?_⟩
  have kept := claimed waiting (hourly 81 1000) [hourly 82 1000] (by decide +kernel)
    (by decide +kernel) ?quiet ?follows (by decide +kernel) (by decide +kernel)
    _ (List.mem_cons_self)
  case quiet =>
    intro g mem
    simp only [List.mem_cons, List.not_mem_nil, or_false] at mem
    rcases mem with rfl | rfl <;> exact hourly_quiet (by decide +kernel)
  case follows =>
    refine .cons_cons ⟨?_, ?_, ?_⟩ (.singleton _) <;> decide +kernel
  have lost : (transition (Strategy.deferring hourlyDd5.strategy)
      (waiting.deferring hourlyDd5.strategy (hourly 81 1000).frame).1
      (hourly 82 1000).frame).output.lp = .exitToQuote := by
    decide +kernel
  rw [lost] at kept
  cases kept.1

/-- Frames within the allowed age of the observation before the deferral. -/
theorem deferral_keeps_hours_on_hourly : hourlyDd5.validate Shipped.parsers = .ok () ∧
    ∀ taken ∈ trace (Strategy.deferring hourlyDd5.strategy)
        (waiting.deferring hourlyDd5.strategy (hourly 81 1000).frame).1
        ([hourly 81 101000, hourly 81 401000].map HourlyFrame.frame),
      taken.output.lp = .deploy 1 ∧ taken.before.healthyHours ≤ taken.after.healthyHours := by
  have configured : hourlyDd5.strategy.ethPersistent = some dd5Profile := rfl
  refine ⟨hourlyDd5_valid, deferral_keeps_hours hourlyDd5_valid configured waiting
    (by decide +kernel) (by decide +kernel) (hourly 81 1000) _ ?quiet ?follows
    (by decide +kernel) (by decide +kernel) ?continued⟩
  case quiet =>
    intro g mem
    simp only [List.mem_cons, List.not_mem_nil, or_false] at mem
    rcases mem with rfl | rfl | rfl <;> exact hourly_quiet (by decide +kernel)
  case follows =>
    refine .cons_cons ⟨?_, ?_, ?_⟩ (.cons_cons ⟨?_, ?_, ?_⟩ (.singleton _)) <;> decide +kernel
  case continued =>
    intro taken mem
    simp only [List.map_cons, List.map_nil, trace, List.mem_cons, List.not_mem_nil,
      or_false] at mem
    rcases mem with rfl | rfl
    · exact ⟨by unfold Strategy.Solvent; decide +kernel,
        by decide +kernel, by decide +kernel, by unfold Strategy.Anchored; decide +kernel⟩
    · exact ⟨by unfold Strategy.Solvent; decide +kernel,
        by decide +kernel, by decide +kernel, by unfold Strategy.Anchored; decide +kernel⟩

end Shipped

end LpMaker
