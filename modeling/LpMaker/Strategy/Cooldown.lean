import LpMaker.Semantics.Trace
import LpMaker.Shipped
import LpMaker.Strategy.EntryHistory

/-!
# The cooldown of the persistent profile

A danger which meets a position, or a strategy that is not paused yet, starts the cooldown.
The wait then only ends early when a position that is still held is left for a breakout, which
has a wait of its own. A danger in a flat pause keeps the running deadline.
-/

namespace LpMaker

open Semantics

variable {F : Type} [F64 F] {profile : PersistentConfig F} {c : StrategyConfig F}
  {f : MarketFrame F} {x : Feature F} {s t : Strategy F} {st tt : PersistentState F}
  {until_ : Nat} {d : Decision F}

/-- The range was left for a confirmed breakout alone. -/
def LeavesRange (d : Decision F) : Prop :=
  d.lp = .exitToQuote ∧ d.reasons = ["range_recenter"]

/-- The two states have the same clocks of the pause. -/
structure SameClocks (s : Strategy F) (st : PersistentState F) (t : Strategy F)
    (tt : PersistentState F) : Prop where
  pause : t.pauseSince = s.pauseSince
  anchor : tt.pauseAnchorMs = st.pauseAnchorMs
  reentry : tt.reentryNotBeforeMs = st.reentryNotBeforeMs

/-- The clocks do not end the wait before `until_`, and no new pause has been set elsewhere. -/
structure Clocked (until_ : Nat) (s : Strategy F) (st : PersistentState F) : Prop where
  anchored : st.pauseAnchorMs = s.pauseSince
  deadline : until_ ≤ st.reentryNotBeforeMs

/-- The strategy may not enter before `until_`. -/
structure Waits (until_ : Nat) (s : Strategy F) : Prop where
  history : s.entryHistory = .established
  started : s.phase ≠ .warmup
  clocked : Clocked until_ s (s.ethPersistent.getD .default)

/-- The result of an action or an evaluation respects the wait. -/
structure Respects (c : StrategyConfig F) (f : MarketFrame F) (until_ : Nat) (t : Strategy F)
    (tt : PersistentState F) (d : Decision F) : Prop where
  clocked : until_ ≤ f.nowMs + c.cooldownHours * hourMs → ¬LeavesRange d →
    Clocked until_ t tt ∨ until_ ≤ f.nowMs
  started : t.phase ≠ .warmup
  deploys : d.lp.isDeploy = true → until_ ≤ f.nowMs

omit [F64 F] in
theorem SameClocks.trans {u : Strategy F} {ut : PersistentState F} (first : SameClocks s st t tt)
    (second : SameClocks t tt u ut) : SameClocks s st u ut :=
  ⟨second.pause.trans first.pause, second.anchor.trans first.anchor,
    second.reentry.trans first.reentry⟩

omit [F64 F] in
theorem Clocked.congr (clocked : Clocked until_ s st) (same : SameClocks s st t tt) :
    Clocked until_ t tt :=
  ⟨by rw [same.anchor, same.pause, clocked.anchored], by rw [same.reentry]; exact clocked.deadline⟩

namespace Strategy

omit [F64 F]

/-- An observed position changes the history only. -/
theorem observeLp_clocks (held : Bool) : SameClocks s (s.ethPersistent.getD .default)
    (s.observeLp held) ((s.observeLp held).ethPersistent.getD .default) := by
  unfold observeLp
  split_ifs <;> exact ⟨rfl, rfl, rfl⟩

theorem forgetAfterGap_pauseSince : (s.forgetAfterGap c f st).pauseSince = s.pauseSince := by
  unfold forgetAfterGap
  split_ifs <;> rfl

theorem haltWhen_pauseSince (breached : Prop) [Decidable breached] :
    (s.haltWhen breached).pauseSince = s.pauseSince := by
  unfold haltWhen
  split_ifs <;> rfl

theorem countHealthyHour_pauseSince [F64 F] (guard : Guard F) (danger : Option String) (p : F) :
    (s.countHealthyHour guard danger x p).pauseSince = s.pauseSince := by
  unfold countHealthyHour countFeatureHour
  dsimp only
  split_ifs <;> rfl

theorem countHealthyHour_of_danger [F64 F] (guard : Guard F) {danger : Option String} (p : F)
    (shown : danger.isSome) : (s.countHealthyHour guard danger x p).healthyHours = 0 := by
  simp [countHealthyHour, shown]

theorem observeBreakouts_pauseSince (newBar : Bool) (side : LpPosition F → Int) :
    (s.observeBreakouts c f newBar side).1.pauseSince = s.pauseSince := by
  unfold observeBreakouts
  split_ifs <;> rfl

/-- A halt and a flat pause keep their clocks. -/
theorem leave_kept (reentry : Nat)
    (kept : s.phase = .halted ∨ s.phase = .paused ∧ f.portfolio.positions = []) :
    SameClocks s st (leave f reentry s st).1 (leave f reentry s st).2 := by
  unfold leave
  rcases kept with halted | ⟨paused, flat⟩
  · rw [if_pos halted]
    exact ⟨rfl, rfl, rfl⟩
  · have running : s.phase ≠ .halted := by
      rw [paused]
      exact Phase.noConfusion
    rw [if_neg running, if_neg (by tauto)]
    exact ⟨rfl, rfl, rfl⟩

/-- Every other exit starts the clocks over. -/
theorem leave_restarted (reentry : Nat) (running : s.phase ≠ .halted)
    (restarts : s.phase ≠ .paused ∨ f.portfolio.positions ≠ []) :
    Clocked reentry (leave f reentry s st).1 (leave f reentry s st).2 := by
  unfold leave
  rw [if_neg running, if_pos restarts]
  exact ⟨rfl, le_rfl⟩

theorem leave_clocked {reentry : Nat} (clocked : Clocked until_ s st) (later : until_ ≤ reentry) :
    Clocked until_ (leave f reentry s st).1 (leave f reentry s st).2 := by
  by_cases restarts : s.phase ≠ .halted ∧ (s.phase ≠ .paused ∨ f.portfolio.positions ≠ [])
  · obtain ⟨anchored, deadline⟩ :=
      @leave_restarted F f s st reentry restarts.1 restarts.2
    exact ⟨anchored, later.trans deadline⟩
  · exact clocked.congr (leave_kept reentry (by tauto))

theorem leave_started (reentry : Nat) : (leave f reentry s st).1.phase ≠ .warmup := by
  rw [leave_phase]
  split_ifs <;> exact Phase.noConfusion

end Strategy

namespace Persistent

/-- The clocks before a frame, once a pause set elsewhere has its own cooldown. -/
def clocks (c : StrategyConfig F) (s : Strategy F) : Strategy F × PersistentState F :=
  anchorPause c s (s.ethPersistent.getD .default)

/-- When the running wait ends. -/
def waitEnd (c : StrategyConfig F) (s : Strategy F) : Nat :=
  (clocks c s).2.reentryNotBeforeMs

omit [F64 F] in
theorem clocks_of_anchored (anchored : (s.ethPersistent.getD .default).pauseAnchorMs =
    s.pauseSince) : clocks c s = (s, s.ethPersistent.getD .default) := by
  simp [clocks, anchorPause, anchored]

omit [F64 F] in
theorem clocks_congr (phase : t.phase = s.phase)
    (same : SameClocks s (s.ethPersistent.getD .default) t (t.ethPersistent.getD .default)) :
    SameClocks (clocks c s).1 (clocks c s).2 (clocks c t).1 (clocks c t).2 := by
  unfold clocks anchorPause
  rw [phase, same.pause, same.anchor]
  split_ifs
  · exact ⟨rfl, rfl, rfl⟩
  · exact same

omit [F64 F] in
theorem clocks_anchored (paused : s.phase = .paused) :
    (clocks c s).2.pauseAnchorMs = (clocks c s).1.pauseSince := by
  unfold clocks anchorPause
  split_ifs with moved
  · rfl
  · by_contra elsewhere
    exact moved ⟨paused, elsewhere⟩

end Persistent

open Persistent (clocks waitEnd clocks_of_anchored clocks_congr)

/-- What a report of a danger does to the clocks of a strategy `s`. -/
structure AfterDanger (c : StrategyConfig F) (f : MarketFrame F) (s t : Strategy F)
    (tt : PersistentState F) : Prop where
  restarted : s.phase ≠ .paused ∨ f.portfolio.positions ≠ [] →
    Clocked (f.nowMs + c.cooldownHours * hourMs) t tt
  kept : s.phase = .paused → f.portfolio.positions = [] →
    SameClocks (clocks c s).1 (clocks c s).2 t tt ∧ t.healthyHours = 0

omit [F64 F] in
/-- Leaving a frame with the full cooldown. -/
theorem afterDanger_of_left {u : Strategy F} {ut : PersistentState F} {breached : Prop}
    [Decidable breached] (observed : SameClocks (clocks c s).1 (clocks c s).2 u ut)
    (halts : u.phase = if breached then .halted else s.phase)
    (left : SameClocks (Strategy.leave f (f.nowMs + c.cooldownHours * hourMs) u ut).1
      (Strategy.leave f (f.nowMs + c.cooldownHours * hourMs) u ut).2 t tt)
    (phase : t.phase = if u.phase = .halted then .halted else .paused)
    (paused : t.phase = .paused) (healthy : t.healthyHours = 0) :
    AfterDanger c f s t tt := by
  have running : u.phase ≠ .halted := by
    intro halted
    rw [if_pos halted] at phase
    exact Phase.noConfusion (phase.symm.trans paused)
  have same : u.phase = s.phase := by
    rw [halts, ite_eq_right_iff]
    intro breach
    exact absurd (halts.trans (if_pos breach)) running
  constructor
  · intro restarts
    exact (Strategy.leave_restarted _ running (same ▸ restarts)).congr left
  · intro before flat
    have unmoved := @Strategy.leave_kept F f u ut (f.nowMs + c.cooldownHours * hourMs)
      (.inr ⟨same.trans before, flat⟩)
    exact ⟨(observed.trans unmoved).trans left, healthy⟩

namespace Band

variable {band : BandConfig F} {reason : String} {outside : Bool} {o : Observation F}

omit [F64 F] in
/-- The band profile anchors a pause like the range does. -/
theorem anchorPause_clocks : SameClocks (Persistent.anchorPause c s st).1
    (Persistent.anchorPause c s st).2 (anchorPause c s st).1 (anchorPause c s st).2 := by
  unfold anchorPause Persistent.anchorPause
  split_ifs <;> exact ⟨rfl, rfl, rfl⟩

/-- An observation leaves the clocks alone. -/
theorem observe_clocks : SameClocks (clocks c s).1 (clocks c s).2
    (observe profile band c f x s).s (observe profile band c f x s).st := by
  have managed : SameClocks (clocks c s).1 (clocks c s).2
      (clocks c (managedEquity s c (f.portfolio.equity f.pool.price)).1).1
      (clocks c (managedEquity s c (f.portfolio.equity f.pool.price)).1).2 :=
    clocks_congr rfl ⟨rfl, rfl, rfl⟩
  generalize eq : managedEquity s c (f.portfolio.equity f.pool.price) = m at managed
  have observed := managed.trans (@clocks_congr F c m.1
    (m.1.observeLp (!f.portfolio.positions.isEmpty)) (Strategy.observeLp_phase ..)
    (Strategy.observeLp_clocks _))
  refine (observed.trans anchorPause_clocks).trans ?_
  simp only [observe, eq]
  refine ⟨?_, rfl, rfl⟩
  rw [Strategy.observeBreakouts_pauseSince, Strategy.countHealthyHour_pauseSince,
    Strategy.haltWhen_pauseSince]
  exact Strategy.forgetAfterGap_pauseSince

theorem observe_entryHistory (known : s.entryHistory = .established) :
    (observe profile band c f x s).s.entryHistory = .established := by
  have kept : KeepsHistory f s.entryHistory (evaluate profile band c f x s).1.entryHistory :=
    evaluate_keepsHistory
  exact act_entryHistory.symm.trans (kept.of_established known)

theorem exit_left : SameClocks (Strategy.leave f (f.nowMs + c.cooldownHours * hourMs) s st).1
    (Strategy.leave f (f.nowMs + c.cooldownHours * hourMs) s st).2
    (exit c f reason s st).1 (exit c f reason s st).2.1 ∧
    (exit c f reason s st).1.healthyHours = 0 :=
  ⟨⟨rfl, rfl, rfl⟩, rfl⟩

theorem exit_respects (clocked : Clocked until_ s st) :
    Respects c f until_ (exit c f reason s st).1 (exit c f reason s st).2.1
      (exit c f reason s st).2.2 :=
  ⟨fun later _ => .inl ((Strategy.leave_clocked clocked later).congr exit_left.1),
    @Strategy.leave_started F f s st _, nofun⟩

theorem enterOrWait_respects {guard : Guard F} {eq dd : F} {bs : BandState F}
    (clocked : Clocked until_ s st) (history : s.entryHistory = .established)
    (started : s.phase ≠ .warmup) :
    Respects c f until_ (enterOrWait guard c f x eq dd bs s st).1
      (enterOrWait guard c f x eq dd bs s st).2.1
      (enterOrWait guard c f x eq dd bs s st).2.2.2 := by
  have awaited : Strategy.awaitCooldown c f s st = (s, st) := by
    simp [Strategy.awaitCooldown, started]
  unfold enterOrWait
  simp only [awaited, history, reduceCtorEq, false_or]
  split_ifs with due
  · -- The entry uses the wait up.
    have passed := clocked.deadline.trans due.1
    exact ⟨fun _ _ => .inr passed, Phase.noConfusion, fun _ => passed⟩
  · exact ⟨fun _ _ => .inl (clocked.congr ⟨rfl, rfl, rfl⟩), Phase.noConfusion, nofun⟩

/-- The hedge has its own clock and target. -/
theorem adjustHedge_cases (P : PersistentState F × F → Prop)
    (all : ∀ lastHedgeCheckMs pendingHedgeTarget target,
      P ({ st with
        lastHedgeCheckMs := lastHedgeCheckMs
        pendingHedgeTarget := pendingHedgeTarget }, target)) :
    P (adjustHedge profile band c f st) := by
  -- Unfolded as a function, for the kernel would evaluate the condition of an application.
  have body : @adjustHedge F _ = @adjustHedge F _ := rfl
  conv at body => rhs; delta adjustHedge
  rw [body]
  generalize profile.hedgeIntervalHours * hourMs = interval
  dsimp only
  split_ifs <;> exact all _ _ _

theorem holdPosition_cases {eq dd : F} {bs : BandState F}
    (P : Strategy F × PersistentState F × BandState F × Decision F → Prop)
    (all : ∀ layers lastHedgeCheckMs pendingHedgeTarget episode d, d.lp.isDeploy = false →
      P ({ s with phase := .active, layers := layers },
        { st with
          lastHedgeCheckMs := lastHedgeCheckMs
          pendingHedgeTarget := pendingHedgeTarget }, episode, d)) :
    P (holdPosition profile band c f eq dd outside bs s st) := by
  have body : @holdPosition F _ = @holdPosition F _ := rfl
  conv at body => rhs; delta holdPosition
  rw [body]
  generalize band.minimumHoldingHours * hourMs = minimum
  dsimp only
  split_ifs
  · exact all _ _ _ _ _ rfl
  · exact adjustHedge_cases (fun hedged => P ({ s with phase := .active }, hedged.1, bs,
      { ({ s with phase := .active } : Strategy F).hold f with targetShortBase := hedged.2 }))
      fun _ _ _ => all _ _ _ _ _ rfl

theorem holdPosition_respects {eq dd : F} {bs : BandState F} (clocked : Clocked until_ s st) :
    Respects c f until_ (holdPosition profile band c f eq dd outside bs s st).1
      (holdPosition profile band c f eq dd outside bs s st).2.1
      (holdPosition profile band c f eq dd outside bs s st).2.2.2 :=
  holdPosition_cases (fun held => Respects c f until_ held.1 held.2.1 held.2.2.2)
    fun _ _ _ _ _ idle => ⟨fun _ _ => .inl (clocked.congr ⟨rfl, rfl, rfl⟩), Phase.noConfusion,
      fun deploys => Bool.noConfusion (idle.symm.trans deploys)⟩

theorem act_respects (clocked : Clocked until_ o.s o.st)
    (history : o.s.entryHistory = .established) (started : o.s.phase ≠ .warmup) :
    Respects c f until_ (act profile band c f x o).1 (act profile band c f x o).2.1
      (act profile band c f x o).2.2.2 := by
  unfold act
  by_cases leaves : o.leaves
  · rw [if_pos leaves]
    exact exit_respects clocked
  · rw [if_neg leaves]
    by_cases held : f.portfolio.positions ≠ []
    · rw [if_pos held]
      exact holdPosition_respects clocked
    · rw [if_neg held]
      exact enterOrWait_respects clocked history started

/-- What an evaluation adds to the action: the clocks, the episode, the report and the
rendered phase. -/
theorem evaluate_eq : evaluate profile band c f x s =
    (fun acted : Strategy F × PersistentState F × BandState F × Decision F =>
      ({ acted.1 with ethPersistent := some { acted.2.1 with
        band := some acted.2.2.1
        report := some {
          observedMs := f.nowMs
          completedHourMs := x.time
          return1h := x.r1
          return24h := x.r24
          return72h := x.r72
          vol6h := x.vol6
          pauseVol := (profile.guard c).vol
          healthyHours := acted.1.healthyHours
          requiredHours := c.resumeHealthyHours
          cooldownRemainingSeconds :=
            if acted.1.phase = .paused then (acted.2.1.reentryNotBeforeMs - f.nowMs) / 1000
            else 0 } } },
        { acted.2.2.2 with state := acted.1.phase.format }))
      (act profile band c f x (observe profile band c f x s)) := rfl

/-- One evaluation of the band respects the wait. -/
theorem evaluate_respects (waits : Waits until_ s) :
    Respects c f until_ (evaluate profile band c f x s).1
      ((evaluate profile band c f x s).1.ethPersistent.getD .default)
      (evaluate profile band c f x s).2 := by
  have same : SameClocks s (s.ethPersistent.getD .default) (observe profile band c f x s).s
      (observe profile band c f x s).st := by
    have observed := @observe_clocks F _ profile c f x s band
    rwa [Persistent.clocks_of_anchored waits.clocked.anchored] at observed
  have started : (observe profile band c f x s).s.phase ≠ .warmup := by
    rw [(observe_accounted profile band c f x s).phase]
    split_ifs
    · exact Phase.noConfusion
    · exact waits.started
  have acted := @act_respects F _ profile c f x until_ band _ (waits.clocked.congr same)
    (observe_entryHistory waits.history) started
  rw [evaluate_eq]
  generalize act profile band c f x (observe profile band c f x s) = result at acted ⊢
  refine ⟨fun later stays => ?_, acted.started, acted.deploys⟩
  rcases acted.clocked later stays with clocked | passed
  · exact .inl (clocked.congr ⟨rfl, rfl, rfl⟩)
  · exact .inr passed

/-- A danger starts the wait of the band as it does for the range. -/
theorem evaluate_of_danger (shown : ((profile.guard c).dangerOrBasis c f x).isSome)
    (paused : (evaluate profile band c f x s).1.phase = .paused) :
    AfterDanger c f s (evaluate profile band c f x s).1
      ((evaluate profile band c f x s).1.ethPersistent.getD .default) := by
  have accounted := observe_accounted profile band c f x s
  have same := @observe_clocks F _ profile c f x s band
  have danger : (observe profile band c f x s).danger.isSome := shown
  rw [evaluate_eq] at paused ⊢
  generalize observe profile band c f x s = o at accounted same paused danger ⊢
  have leaves : o.leaves := .inr (.inl danger)
  have phase := (@act_of_leaves F _ f o profile band c x leaves).2.1
  have acted : act profile band c f x o = (fun left => (left.1, left.2.1, o.bs, left.2.2))
      (exit c f (o.danger.getD
        (if o.globally then "global_drawdown_pause" else "early_drawdown_pause")) o.s o.st) :=
    if_pos leaves
  rw [acted] at paused phase ⊢
  obtain ⟨left, healthy⟩ := @exit_left F _ c f o.s o.st (o.danger.getD
    (if o.globally then "global_drawdown_pause" else "early_drawdown_pause"))
  generalize exit c f _ o.s o.st = result at left healthy paused phase ⊢
  exact afterDanger_of_left same accounted.phase (left.trans ⟨rfl, rfl, rfl⟩) phase paused healthy

end Band

namespace Persistent

variable {danger : Option String} {outside : Bool} {o : Observation F}

/-- An observation leaves the clocks alone. -/
theorem observe_clocks : SameClocks (clocks c s).1 (clocks c s).2
    (observe profile c f x s).s (observe profile c f x s).st := by
  have observed := @clocks_congr F c s (s.observeLp (!f.portfolio.positions.isEmpty))
    (Strategy.observeLp_phase ..) (Strategy.observeLp_clocks _)
  refine observed.trans ⟨?_, rfl, rfl⟩
  simp only [observe, Strategy.observeBreakouts_pauseSince, Strategy.countHealthyHour_pauseSince,
    Strategy.haltWhen_pauseSince]
  exact Strategy.forgetAfterGap_pauseSince

theorem observe_entryHistory (known : s.entryHistory = .established) :
    (observe profile c f x s).s.entryHistory = .established := by
  have kept : KeepsHistory f s.entryHistory (evaluateRange profile c f x s).1.entryHistory :=
    evaluateRange_keepsHistory
  exact act_entryHistory.symm.trans (kept.of_established known)

section Act

/-- A danger leaves with the full cooldown. -/
theorem exit_of_danger (shown : danger.isSome) :
    SameClocks (Strategy.leave f (f.nowMs + c.cooldownHours * hourMs) s st).1
      (Strategy.leave f (f.nowMs + c.cooldownHours * hourMs) s st).2
      (exit c f danger outside s st).1 (exit c f danger outside s st).2.1 ∧
      (exit c f danger outside s st).1.healthyHours = 0 := by
  have risk : ¬(outside = true ∧ danger.isNone) := by
    rintro ⟨-, none⟩
    simp [Option.isNone_iff_eq_none.mp none] at shown
  unfold exit
  simp only [if_neg risk]
  exact ⟨⟨rfl, rfl, rfl⟩, if_pos (.inr shown)⟩

theorem exit_respects (clocked : Clocked until_ s st) :
    Respects c f until_ (exit c f danger outside s st).1 (exit c f danger outside s st).2.1
      (exit c f danger outside s st).2.2 := by
  refine ⟨fun later kept => .inl ?_, @Strategy.leave_started F f s st _, nofun⟩
  by_cases halted : s.phase = .halted
  · exact (clocked.congr (Strategy.leave_kept _ (.inl halted))).congr ⟨rfl, rfl, rfl⟩
  · have full : (if outside = true ∧ danger.isNone then c.decisionBarSeconds * 1000
        else c.cooldownHours * hourMs) = c.cooldownHours * hourMs := by
      rw [ite_eq_right_iff]
      rintro ⟨out, none⟩
      rw [Option.isNone_iff_eq_none] at none
      refine absurd ?_ kept
      simp [LeavesRange, exit, halted, none]
    exact (Strategy.leave_clocked clocked (later.trans (by rw [full]))).congr ⟨rfl, rfl, rfl⟩

/-- With a known history a deployment waits for the deadline. -/
theorem enterOrWait_respects (clocked : Clocked until_ s st)
    (history : s.entryHistory = .established) (started : s.phase ≠ .warmup) :
    Respects c f until_ (enterOrWait c f s st).1 (enterOrWait c f s st).2.1
      (enterOrWait c f s st).2.2 := by
  have awaited : Strategy.awaitCooldown c f s st = (s, st) := by
    simp [Strategy.awaitCooldown, started]
  have waited : until_ ≤ reentryDeadline c s st := by
    unfold reentryDeadline
    have deadline := clocked.deadline
    split_ifs <;> omega
  unfold enterOrWait
  simp only [awaited, history, reduceCtorEq, false_or]
  split_ifs with due
  · exact ⟨fun _ _ => .inl (clocked.congr ⟨rfl, rfl, rfl⟩), Phase.noConfusion,
      fun _ => waited.trans due.1⟩
  · exact ⟨fun _ _ => .inl (clocked.congr ⟨rfl, rfl, rfl⟩), Phase.noConfusion, nofun⟩

/-- The hedge has its own clock and target. -/
theorem adjustHedge_cases (P : PersistentState F × F → Prop)
    (all : ∀ lastHedgeCheckMs pendingHedgeTarget target,
      P ({ st with
        lastHedgeCheckMs := lastHedgeCheckMs
        pendingHedgeTarget := pendingHedgeTarget }, target)) :
    P (adjustHedge profile c f st) := by
  -- Unfolded as a function, for the kernel would evaluate the discriminant of an application.
  have body : @adjustHedge F _ = @adjustHedge F _ := rfl
  conv at body => rhs; delta adjustHedge
  rw [body]
  generalize profile.hedgeIntervalHours * hourMs = interval
  dsimp only
  split_ifs <;> split <;> (try split_ifs) <;> exact all _ _ _

theorem holdPosition_cases (P : Strategy F × PersistentState F × Decision F → Prop)
    (all : ∀ lastHedgeCheckMs pendingHedgeTarget target,
      P ({ s with phase := .active },
        { st with
          lastHedgeCheckMs := lastHedgeCheckMs
          pendingHedgeTarget := pendingHedgeTarget },
        { ({ s with phase := .active } : Strategy F).hold f with targetShortBase := target })) :
    P (holdPosition profile c f s st) := by
  have held : holdPosition profile c f s st =
      ({ s with phase := .active }, (adjustHedge profile c f st).1,
        { ({ s with phase := .active } : Strategy F).hold f with
          targetShortBase := (adjustHedge profile c f st).2 }) := rfl
  rw [held]
  exact adjustHedge_cases (fun hedged => P ({ s with phase := .active }, hedged.1,
    { ({ s with phase := .active } : Strategy F).hold f with targetShortBase := hedged.2 })) all

theorem holdPosition_respects (clocked : Clocked until_ s st) :
    Respects c f until_ (holdPosition profile c f s st).1 (holdPosition profile c f s st).2.1
      (holdPosition profile c f s st).2.2 :=
  holdPosition_cases (fun held => Respects c f until_ held.1 held.2.1 held.2.2)
    fun _ _ _ => ⟨fun _ _ => .inl (clocked.congr ⟨rfl, rfl, rfl⟩), nofun, nofun⟩

theorem act_respects (clocked : Clocked until_ o.s o.st)
    (history : o.s.entryHistory = .established) (started : o.s.phase ≠ .warmup) :
    Respects c f until_ (act profile c f o).1 (act profile c f o).2.1
      (act profile c f o).2.2 := by
  unfold act
  by_cases leaves : o.leaves
  · rw [if_pos leaves]
    exact exit_respects clocked
  · rw [if_neg leaves]
    by_cases flat : f.portfolio.positions = []
    · rw [if_pos flat]
      exact enterOrWait_respects clocked history started
    · rw [if_neg flat]
      exact holdPosition_respects clocked

end Act

section Evaluate

/-- What an evaluation adds to the action: the clocks, the report and the rendered phase. -/
theorem evaluateRange_eq : evaluateRange profile c f x s =
    (fun acted : Strategy F × PersistentState F × Decision F =>
      ({ acted.1 with ethPersistent := some { acted.2.1 with
        report := some {
          observedMs := f.nowMs
          completedHourMs := x.time
          return1h := x.r1
          return24h := x.r24
          return72h := x.r72
          vol6h := x.vol6
          pauseVol := (profile.guard c).vol
          healthyHours := acted.1.healthyHours
          requiredHours := c.resumeHealthyHours
          cooldownRemainingSeconds := (acted.2.1.reentryNotBeforeMs - f.nowMs) / 1000 } } },
        { acted.2.2 with state := acted.1.phase.format }))
      (act profile c f (observe profile c f x s)) := rfl

/-- One evaluation of the range respects the wait. -/
theorem evaluateRange_respects (waits : Waits until_ s) :
    Respects c f until_ (evaluateRange profile c f x s).1
      ((evaluateRange profile c f x s).1.ethPersistent.getD .default)
      (evaluateRange profile c f x s).2 := by
  have same : SameClocks s (s.ethPersistent.getD .default) (observe profile c f x s).s
      (observe profile c f x s).st := by
    have observed := @observe_clocks F _ profile c f x s
    rwa [clocks_of_anchored waits.clocked.anchored] at observed
  have started : (observe profile c f x s).s.phase ≠ .warmup := by
    rw [observe_accounted.phase]
    split_ifs
    · exact Phase.noConfusion
    · exact waits.started
  have acted := @act_respects F _ profile c f until_ _ (waits.clocked.congr same)
    (observe_entryHistory waits.history) started
  rw [evaluateRange_eq]
  generalize act profile c f (observe profile c f x s) = result at acted ⊢
  refine ⟨fun later stays => ?_, acted.started, acted.deploys⟩
  rcases acted.clocked later stays with clocked | passed
  · exact .inl (clocked.congr ⟨rfl, rfl, rfl⟩)
  · exact .inr passed

/-- A danger which meets a position, or a strategy that is not paused yet, starts the wait; in
a flat pause it keeps the wait and starts the healthy hours over. -/
theorem evaluateRange_of_danger (shown : ((profile.guard c).dangerOrBasis c f x).isSome)
    (paused : (evaluateRange profile c f x s).1.phase = .paused) :
    AfterDanger c f s (evaluateRange profile c f x s).1
      ((evaluateRange profile c f x s).1.ethPersistent.getD .default) := by
  have accounted : Accounted profile c f x s (observe profile c f x s) := observe_accounted
  have same := @observe_clocks F _ profile c f x s
  rw [evaluateRange_eq] at paused ⊢
  generalize observe profile c f x s = o at accounted same paused ⊢
  have danger : o.danger.isSome := accounted.danger ▸ shown
  have leaves : o.leaves := .inr (.inl danger)
  obtain ⟨left, healthy⟩ := @exit_of_danger F _ c f o.s o.st o.danger o.outside danger
  have phase := (@act_of_leaves F _ f o profile c leaves).2.1
  have acted : act profile c f o = exit c f o.danger o.outside o.s o.st := if_pos leaves
  rw [acted] at paused phase ⊢
  generalize exit c f o.danger o.outside o.s o.st = result at left healthy paused phase ⊢
  exact afterDanger_of_left same accounted.phase (left.trans ⟨rfl, rfl, rfl⟩) phase paused healthy

end Evaluate

section Runs

theorem onBrokenHistory_respects (waits : Waits until_ s) (e : String) :
    Respects c f until_ (onBrokenHistory c f e s).1
      ((onBrokenHistory c f e s).1.ethPersistent.getD .default) (onBrokenHistory c f e s).2 := by
  have kept : SameClocks s (s.ethPersistent.getD .default) (onBrokenHistory c f e s).1
      ((onBrokenHistory c f e s).1.ethPersistent.getD .default) := by
    unfold onBrokenHistory
    dsimp only
    split_ifs <;> exact ⟨rfl, rfl, rfl⟩
  have phase : (onBrokenHistory c f e s).1.phase = .halted ∨
      (onBrokenHistory c f e s).1.phase = s.phase := by
    unfold onBrokenHistory
    dsimp only
    split_ifs
    all_goals first | exact .inl rfl | exact .inr rfl
  refine ⟨fun _ _ => .inl (waits.clocked.congr kept), ?_, fun deploys => ?_⟩
  · rcases phase with halted | same
    · rw [halted]
      exact Phase.noConfusion
    · rw [same]
      exact waits.started
  · have closed := onBrokenHistory_opens c f e s
    cases lp : (onBrokenHistory c f e s).2.lp <;> simp_all [LpIntent.isDeploy, LpIntent.opens]

/-- One evaluation of a persistent profile respects the wait. -/
theorem evaluate_respects (waits : Waits until_ s) :
    Respects c f until_ (evaluate profile c f s).1
      ((evaluate profile c f s).1.ethPersistent.getD .default) (evaluate profile c f s).2 := by
  unfold evaluate
  cases Feature.latest f.candles f.nowMs with
  | error e => exact onBrokenHistory_respects waits e
  | ok x =>
      simp only [evaluateFeature]
      by_cases unusable : x.unusable c f = true
      · rw [if_pos unusable]
        exact ⟨fun _ _ => .inl (waits.clocked.congr ⟨rfl, rfl, rfl⟩), waits.started,
          fun deploys => by cases deploys⟩
      · rw [if_neg unusable]
        cases profile.band with
        | none => exact evaluateRange_respects waits
        | some band => exact Band.evaluate_respects waits

/-- The frame is usable and shows a danger of the market. -/
def DangerAt (profile : PersistentConfig F) (c : StrategyConfig F) (f : MarketFrame F) : Prop :=
  match Feature.latest f.candles f.nowMs with
  | .ok x => x.unusable c f = false ∧ ((profile.guard c).dangerOrBasis c f x).isSome
  | .error _ => False

instance (profile : PersistentConfig F) (c : StrategyConfig F) (f : MarketFrame F) :
    Decidable (DangerAt profile c f) := by
  unfold DangerAt; split <;> infer_instance

theorem evaluate_of_danger (danger : DangerAt profile c f)
    (paused : (evaluate profile c f s).1.phase = .paused) :
    AfterDanger c f s (evaluate profile c f s).1
      ((evaluate profile c f s).1.ethPersistent.getD .default) := by
  unfold DangerAt at danger
  unfold evaluate at paused ⊢
  cases latest : Feature.latest f.candles f.nowMs with
  | error e => simp [latest] at danger
  | ok x =>
      simp only [latest] at danger
      simp only [latest, evaluateFeature, danger.1, Bool.false_eq_true, if_false] at paused ⊢
      cases banded : profile.band with
      | none =>
          simp only [banded] at paused
          exact evaluateRange_of_danger danger.2 paused
      | some band =>
          simp only [banded] at paused
          exact Band.evaluate_of_danger danger.2 paused

/-- A strategy which waits deploys only at the end of the wait, as long as no range is left. -/
theorem deploy_after_wait (configured : c.ethPersistent = some profile)
    {frames : List (MarketFrame F)} (waits : Waits until_ s)
    (ordered : (frames ++ [f]).Pairwise fun earlier later => earlier.nowMs ≤ later.nowMs)
    (later : ∀ g ∈ frames, until_ ≤ g.nowMs + c.cooldownHours * hourMs)
    (stays : ∀ taken ∈ trace (Strategy.evaluateWithContinuity c) s frames,
      ¬LeavesRange taken.output)
    (deploys : (Strategy.evaluateWithContinuity c f
      (run (Strategy.evaluateWithContinuity c) s frames)).2.lp.isDeploy = true) :
    until_ ≤ f.nowMs := by
  have evaluator : ∀ g t, Strategy.evaluateWithContinuity c g t = evaluate profile c g t := by
    intro g t
    simp only [Strategy.evaluateWithContinuity, configured]
  induction frames generalizing s with
  | nil =>
      rw [evaluator] at deploys
      exact (evaluate_respects waits).deploys deploys
  | cons g frames inductionHypothesis =>
      obtain ⟨here, later⟩ := List.forall_mem_cons.mp later
      obtain ⟨staysHere, stays⟩ := List.forall_mem_cons.mp stays
      obtain ⟨before, ordered⟩ := List.pairwise_cons.mp ordered
      have respects : Respects c g until_ (Strategy.evaluateWithContinuity c g s).1
          ((Strategy.evaluateWithContinuity c g s).1.ethPersistent.getD .default)
          (Strategy.evaluateWithContinuity c g s).2 := by
        rw [evaluator]
        exact evaluate_respects waits
      rcases respects.clocked here staysHere with clocked | passed
      · have history := (@Strategy.evaluateWithContinuity_keepsHistory F _ c g s).of_established
          waits.history
        exact inductionHypothesis ⟨history, respects.started, clocked⟩ ordered later stays deploys
      · exact passed.trans (before f (by simp))

theorem run_established (known : s.entryHistory = .established) (frames : List (MarketFrame F)) :
    (run (Strategy.evaluateWithContinuity c) s frames).entryHistory = .established := by
  induction frames generalizing s with
  | nil => exact known
  | cons f frames inductionHypothesis =>
      exact inductionHypothesis
        (Strategy.evaluateWithContinuity_keepsHistory.of_established known)

/-- After a danger which meets a position, or a strategy that is not paused yet, no deployment
follows within the cooldown unless a range is left in between. A danger in a flat pause keeps
the running wait and starts the healthy hours over. -/
theorem cooldown_after_danger (configured : c.ethPersistent = some profile)
    (known : s.entryHistory = .established) {frames : List (MarketFrame F)}
    (ordered : frames.Pairwise fun earlier later => earlier.nowMs ≤ later.nowMs)
    {before rest : List (Transition (Strategy F) (MarketFrame F) (Decision F))}
    {report : Transition (Strategy F) (MarketFrame F) (Decision F)}
    (split : trace (Strategy.evaluateWithContinuity c) s frames = before ++ report :: rest)
    (danger : DangerAt profile c report.input) (paused : report.after.phase = .paused) :
    (report.before.phase ≠ .paused ∨ report.input.portfolio.positions ≠ [] →
      ∀ between deploy after, rest = between ++ deploy :: after →
        deploy.output.lp.isDeploy = true → (∀ taken ∈ between, ¬LeavesRange taken.output) →
        report.input.nowMs + c.cooldownHours * hourMs ≤ deploy.input.nowMs) ∧
      (report.before.phase = .paused → report.input.portfolio.positions = [] →
        waitEnd c report.after = waitEnd c report.before ∧ report.after.healthyHours = 0) := by
  obtain ⟨earlier, later, rfl, rfl, reported⟩ := trace_eq_append _ split
  obtain ⟨f, later, rfl, rfl, rfl⟩ := trace_eq_cons _ reported.symm
  obtain ⟨next, ordered⟩ := List.pairwise_cons.mp (List.pairwise_append.mp ordered).2.1
  have history := run_established (c := c) known earlier
  generalize run (Strategy.evaluateWithContinuity c) s earlier = s at history paused ⊢
  simp only [transition] at danger paused ⊢
  have evaluated : Strategy.evaluateWithContinuity c f s = evaluate profile c f s := by
    simp only [Strategy.evaluateWithContinuity, configured]
  have started := evaluate_of_danger (s := s) danger (evaluated ▸ paused)
  rw [← evaluated] at started
  constructor
  · intro restarts between deploy after continued deploys stays
    obtain ⟨mid, later, rfl, rfl, deployed⟩ := trace_eq_append _ continued
    obtain ⟨g, later, rfl, rfl, -⟩ := trace_eq_cons _ deployed.symm
    refine deploy_after_wait configured ⟨?_, ?_, started.restarted restarts⟩ ?_ ?_ stays deploys
    · exact Strategy.evaluateWithContinuity_keepsHistory.of_established history
    · rw [paused]
      exact Phase.noConfusion
    · exact ordered.sublist ((List.nil_sublist later).cons_cons g |>.append_left mid)
    · intro h mem
      exact Nat.add_le_add_right (next h (List.mem_append_left _ mem)) _
  · intro before flat
    obtain ⟨kept, healthy⟩ := started.kept before flat
    have anchored := clocks_anchored (c := c) before
    rw [← kept.anchor, ← kept.pause] at anchored
    refine ⟨?_, healthy⟩
    unfold waitEnd
    rw [clocks_of_anchored anchored]
    exact kept.reentry

end Runs


end Persistent

namespace Shipped

open Persistent

/-- The persistent profile with observations an hour apart, which confirms a breakout at once. -/
def hourly : Config ℚ :=
  { ethPersistentDd5 with
    strategy := { ethPersistentDd5.strategy with
      maxDataAgeSeconds := 4000
      breakoutConfirmBars := 1 } }

theorem hourly_valid : hourly.validate parsers = .ok () :=
  Config.validate_eq_ok.mpr ⟨by decide +kernel, by decide +kernel, venues_valid true _⟩

/-- No position is held. -/
def flatFrame (hours offset : Nat) (hedgePrice : ℚ) : MarketFrame ℚ :=
  frame hours offset 100 100 hedgePrice (flatPortfolio 120 60 20)

/-- A position between 90 and 110 is held. -/
def rangeFrame (hours : Nat) (price hedgePrice : ℚ) : MarketFrame ℚ :=
  frame hours 1000 100 price hedgePrice (heldPortfolio "persistent" 90 110 120 60 20)

/-- A danger in the wait for a new range leaves two hours, and so does one whose position is
still held until a breakout. -/
theorem deployed_within_cooldown :
    hourly.validate parsers = .ok () ∧
      let step := Strategy.evaluateWithContinuity hourly.strategy
      let start := Strategy.default.observeLp true
      let cooldown := hourly.strategy.cooldownHours * hourMs
      start.entryHistory = .established ∧
        (let report := transition step
          (run step start [rangeFrame 80 100 100, rangeFrame 81 112 112]) (flatFrame 82 1000 90)
        let deploy := transition step (run step report.after [flatFrame 83 1000 100])
          (flatFrame 84 1000 100)
        hourly.strategy.ethPersistent.all (DangerAt · hourly.strategy report.input) ∧
          report.before.phase = .paused ∧ report.after.phase = .paused ∧
          deploy.output.lp.isDeploy ∧ deploy.input.nowMs < report.input.nowMs + cooldown) ∧
        (let report := transition step start (rangeFrame 80 100 90)
        let deploy := transition step
          (run step report.after [rangeFrame 81 100 100, rangeFrame 82 112 112])
          (flatFrame 82 1800000 100)
        hourly.strategy.ethPersistent.all (DangerAt · hourly.strategy report.input) ∧
          report.before.phase ≠ .paused ∧ report.after.phase = .paused ∧
          deploy.output.lp.isDeploy ∧ deploy.input.nowMs < report.input.nowMs + cooldown) :=
  ⟨hourly_valid, by decide +kernel⟩

instance (d : Decision ℚ) : Decidable (LeavesRange d) := by
  unfold LeavesRange; infer_instance

/-- The first frame leaves the position for a danger. -/
def leaving : List (MarketFrame ℚ) :=
  [rangeFrame 80 100 90, flatFrame 91 1000 100, flatFrame 92 1000 100]

/-- The range is opened again when the twelve hours are over. -/
theorem cooldown_after_danger_on_hourly :
    hourly.validate parsers = .ok () ∧
      let step := Strategy.evaluateWithContinuity hourly.strategy
      let report := transition step (Strategy.default.observeLp true) (rangeFrame 80 100 90)
      let waiting := transition step report.after (flatFrame 91 1000 100)
      let deploy := transition step waiting.after (flatFrame 92 1000 100)
      deploy.output.lp.isDeploy = true ∧
        report.input.nowMs + hourly.strategy.cooldownHours * hourMs ≤ deploy.input.nowMs := by
  refine ⟨hourly_valid, ?_⟩
  intro step report waiting deploy
  have deploys : deploy.output.lp.isDeploy = true := by decide +kernel
  have split : trace step (Strategy.default.observeLp true) leaving =
    [] ++ report :: [waiting, deploy] := rfl
  have cooled := cooldown_after_danger (s := Strategy.default.observeLp true)
    (c := hourly.strategy) rfl rfl (by decide +kernel) split (by decide +kernel)
    (by decide +kernel)
  refine ⟨deploys, ?_⟩
  exact cooled.1 (by decide +kernel) [waiting] deploy [] rfl deploys (by decide +kernel)

end Shipped

end LpMaker
