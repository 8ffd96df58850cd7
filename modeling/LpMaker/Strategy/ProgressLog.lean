import LpMaker.Semantics.Tally
import LpMaker.Strategy.Halt

/-!
# The log of the healthy hours

Under continuity every evaluation credits at most the last completed bar, and risks,
failed rechecks, gaps and unhealthy bars clear the count. `evaluationLog` names these
events, and the lemmas show that `healthyHours` is exactly the tally of its log and that
`lastHour` is the clock of the credited bars.
-/

namespace LpMaker.Strategy

open Semantics Semantics.Tally

variable {F : Type} [F64 F]

/-- A credited bar with the frame that credited it. -/
structure Credit (F : Type) where
  bar : Nat
  frame : MarketFrame F

/-- A market risk clears the count, and so does frozen progress which cannot be kept. -/
def riskLog (c : StrategyConfig F) (f : MarketFrame F) (m : Metrics F) (s : Strategy F) :
    List (Tally (Credit F)) :=
  let risks := marketRisks c f m
  if risks ≠ [] then [.clear]
  else if s.recoveryProgress.pendingRevalidation ∧ s.healthyHours ≠ 0 ∧
      (s.recheckFailure f m (Progress.blockers c f m risks)).isSome then [.clear]
  else []

/-- A new bar is credited exactly when nothing blocks it; a gap before it clears the count. -/
def barLog (c : StrategyConfig F) (f : MarketFrame F) (m : Metrics F) (lastHour : Nat) :
    List (Tally (Credit F)) :=
  if m.lastCloseMs > lastHour then
    (if Progress.blockers c f m (marketRisks c f m) = [] then .credit ⟨m.lastCloseMs, f⟩
      else .clear) ::
    if lastHour > 0 ∧ m.lastCloseMs - lastHour > 3600000 then [.clear] else []
  else []

/-- The events of one evaluation, the latest first. An unusable, halted or incomplete
observation changes nothing. -/
def evaluationLog (c : StrategyConfig F) (f : MarketFrame F) (s : Strategy F) :
    List (Tally (Credit F)) :=
  if stale c f || !validFrame f then []
  else if (s.accountEquity c f).phase = .halted then []
  else
    match Indicators.calculate f.candles c f.nowMs with
    | .error _ => []
    | .ok m => barLog c f m s.lastHour ++ riskLog c f m s

/-- Bars which open on the hour and close in its last millisecond. -/
def HourAligned (candles : List (Candle F)) : Prop :=
  ∀ bar ∈ candles, bar.openMs % hourMs = 0 ∧ bar.closeMs = bar.openMs + (hourMs - 1)

/-- What a credit certifies: a usable frame with no blocker, whose last completed bar is the
credited one. -/
structure Credited (c : StrategyConfig F) (credit : Credit F) : Prop where
  usable : (stale c credit.frame || !validFrame credit.frame) = false
  unblocked : ∃ m, Indicators.calculate credit.frame.candles c credit.frame.nowMs = .ok m ∧
    Progress.blockers c credit.frame m (marketRisks c credit.frame m) = [] ∧
    credit.bar = m.lastCloseMs
  aligned : credit.bar % hourMs = hourMs - 1

/-- Frozen progress without a recorded observation, which no recheck keeps. -/
def Unverified (s : Strategy F) : Prop :=
  s.recoveryProgress.pendingRevalidation = true ∧
    (s.recoveryProgress.observedMs = 0 ∨ s.recoveryProgress.anchor = none)

theorem saturatingSucc_le (total : Nat) : saturatingSucc total ≤ total + 1 :=
  min_le_left _ _

section Stages

variable {c : StrategyConfig F} {f : MarketFrame F} {m : Metrics F} {s : Strategy F}

omit [F64 F] in
@[simp] theorem resetHealthyProgress_healthyHours (now : Nat) (reason : String) :
    (s.resetHealthyProgress now reason).healthyHours = 0 := rfl

omit [F64 F] in
@[simp] theorem resetHealthyProgress_pending (now : Nat) (reason : String) :
    (s.resetHealthyProgress now reason).recoveryProgress.pendingRevalidation =
      s.recoveryProgress.pendingRevalidation := rfl

omit [F64 F] in
@[simp] theorem clearHours_healthyHours (reasoned : Bool) (reason : String) :
    (s.clearHours f reasoned reason).healthyHours = 0 := by
  cases reasoned <;> rfl

omit [F64 F] in
@[simp] theorem clearHours_pending (reasoned : Bool) (reason : String) :
    (s.clearHours f reasoned reason).recoveryProgress.pendingRevalidation =
      s.recoveryProgress.pendingRevalidation := by
  cases reasoned <;> rfl

/-- The risk stage counts its log, keeps the last hour and leaves nothing frozen. -/
theorem applyRisk_counts :
    (s.applyRisk c f true m).1.healthyHours =
        countAll saturatingSucc (riskLog c f m s) s.healthyHours ∧
      (s.applyRisk c f true m).1.lastHour = s.lastHour ∧
      (s.applyRisk c f true m).1.recoveryProgress.pendingRevalidation = false := by
  by_cases risk : marketRisks c f m ≠ []
  · simp only [applyRisk, riskLog, if_pos risk]
    exact ⟨rfl, by simp [pauseForRisk, resetHealthyProgress]; split_ifs <;> rfl, rfl⟩
  · simp only [applyRisk, riskLog, if_neg risk, if_true, recheckProgress]
    by_cases pending : s.recoveryProgress.pendingRevalidation = true
    · simp only [pending, Bool.not_true, Bool.false_eq_true, if_false, true_and]
      by_cases empty : s.healthyHours = 0
      · simp [empty]
      · -- The recheck does not read the flag it has just cleared.
        have same : ({ s with
            recoveryProgress := { s.recoveryProgress with pendingRevalidation := false } }
            : Strategy F).recheckFailure f m (Progress.blockers c f m (marketRisks c f m)) =
            s.recheckFailure f m (Progress.blockers c f m (marketRisks c f m)) := rfl
        simp only [same, ne_eq, empty, not_false_eq_true, true_and]
        cases s.recheckFailure f m (Progress.blockers c f m (marketRisks c f m)) with
        | none => exact ⟨rfl, rfl, rfl⟩
        | some reason => exact ⟨rfl, rfl, rfl⟩
    · rw [Bool.not_eq_true] at pending
      simp [pending]

/-- The bar stage counts its log and advances the last hour. -/
theorem creditHour_counts (event : String) :
    (s.creditHour c f true m event).healthyHours =
        countAll saturatingSucc (barLog c f m s.lastHour) s.healthyHours ∧
      (s.creditHour c f true m event).lastHour = max s.lastHour m.lastCloseMs ∧
      (s.creditHour c f true m event).recoveryProgress.pendingRevalidation =
        s.recoveryProgress.pendingRevalidation := by
  simp only [creditHour, if_true, reportProgress, barLog, countHour, List.isEmpty_iff]
  by_cases new : m.lastCloseMs > s.lastHour
  · have last : max s.lastHour m.lastCloseMs = m.lastCloseMs := by omega
    simp only [if_pos new, last]
    by_cases gap : s.lastHour > 0 ∧ m.lastCloseMs - s.lastHour > 3600000
    · simp only [if_pos gap]
      by_cases healthy : Progress.blockers c f m (marketRisks c f m) = []
      · simp only [if_pos healthy, countAll_cons, count, clearHours_healthyHours,
          clearHours_pending, and_self]
      · simp only [if_neg healthy, countAll_cons, count, clearHours_healthyHours,
          clearHours_pending, true_and, and_true]
        rw [clearHours, clearHours]
        split_ifs <;> rfl
    · simp only [if_neg gap]
      by_cases healthy : Progress.blockers c f m (marketRisks c f m) = []
      · simp only [if_pos healthy, countAll_cons, countAll_nil, count, and_self]
      · simp only [if_neg healthy, countAll_cons, count, clearHours_healthyHours,
          clearHours_pending, true_and, and_true]
        rw [clearHours]
        split_ifs <;> rfl
  · have last : max s.lastHour m.lastCloseMs = s.lastHour := by omega
    simp only [if_neg new, last, countAll_nil, and_self]

/-- The observation of the market counts the log of its two stages. -/
theorem observeMarket_counts :
    (s.observeMarket c f true m).1.healthyHours =
        countAll saturatingSucc (barLog c f m s.lastHour ++ riskLog c f m s) s.healthyHours ∧
      (s.observeMarket c f true m).1.lastHour = max s.lastHour m.lastCloseMs ∧
      (s.observeMarket c f true m).1.recoveryProgress.pendingRevalidation = false := by
  obtain ⟨hours, hour, pending⟩ := applyRisk_counts (c := c) (f := f) (m := m) (s := s)
  obtain ⟨hours', hour', pending'⟩ := creditHour_counts (c := c) (f := f) (m := m)
    (s := (s.applyRisk c f true m).1) (s.applyRisk c f true m).2.2
  rw [hour] at hours' hour'
  rw [hours] at hours'
  refine ⟨?_, hour', pending'.trans pending⟩
  rw [countAll_append]
  exact hours'

end Stages

section Evaluation

variable {c : StrategyConfig F} {f : MarketFrame F} {m : Metrics F} {s t : Strategy F}
  {d : Decision F} {log : List (Tally (Credit F))}

/-- Before the market is read only the phase, the peak, the pause and the history change. -/
theorem accounted_frame :
    ∃ phase peakEquity pauseSince entryHistory, (s.startFrame f).accountEquity c f =
      { s with
        phase := phase
        peakEquity := peakEquity
        pauseSince := pauseSince
        entryHistory := entryHistory } := by
  have started : ∃ phase pauseSince entryHistory, s.startFrame f =
      { s with phase := phase, pauseSince := pauseSince, entryHistory := entryHistory } := by
    unfold startFrame enterFromWarmup observeLp
    split_ifs <;> exact ⟨_, _, _, rfl⟩
  obtain ⟨_, _, _, started⟩ := started
  rw [started, accountEquity]
  unfold haltWhen trackPeak
  split_ifs <;> exact ⟨_, _, _, _, rfl⟩

theorem accountEquity_halted :
    (s.accountEquity c f).phase = .halted ↔
      f.portfolio.equity f.pool.price <
          max (max s.peakEquity (f.portfolio.equity f.pool.price)) c.totalCapital *
            (1 - c.maxDrawdown) ∨ s.phase = .halted := by
  rw [accountEquity, haltWhen_phase, trackPeak_phase]
  by_cases breached : (s.trackPeak (f.portfolio.equity f.pool.price) c).drawdownBreached
      (f.portfolio.equity f.pool.price) c = true
  · rw [if_pos breached]
    exact iff_of_true rfl (.inl (of_decide_eq_true breached))
  · rw [if_neg breached]
    rw [drawdownBreached, decide_eq_true_eq] at breached
    exact (or_iff_right breached).symm

/-- The halt of a frame does not depend on what its positions settle. -/
theorem startFrame_accountEquity_halted :
    ((s.startFrame f).accountEquity c f).phase = .halted ↔
      (s.accountEquity c f).phase = .halted := by
  rw [accountEquity_halted, accountEquity_halted, startFrame_halted, startFrame_peakEquity]

/-- The log does not depend on the entry history. -/
theorem evaluationLog_history (entryHistory : EntryHistory) :
    evaluationLog c f { s with entryHistory := entryHistory } = evaluationLog c f s := by
  have halted : (({ s with entryHistory := entryHistory } : Strategy F).accountEquity c f).phase =
      .halted ↔ (s.accountEquity c f).phase = .halted := by
    rw [accountEquity_halted, accountEquity_halted]
  simp only [evaluationLog, halted]
  rfl

/-- A phase transition only touches the phase and the recovery clock. -/
theorem AdvanceStep.frame {continuity unsafeMarket healthy : Bool}
    {intent : Option (LpIntent F × List String)}
    (advanced : AdvanceStep c f continuity unsafeMarket healthy s t intent) :
    ∃ phase fraction lastScale,
      t = { s with phase := phase, fraction := fraction, lastScale := lastScale } := by
  cases advanced <;> exact ⟨_, _, _, rfl⟩

/-- A decision on the market changes the observed state in the phase, the recovery clock and
the layer counters only. -/
theorem decideMarket_frame (decided : s.decideMarket c f true m = (t, d)) :
    ∃ phase fraction lastScale lastDecisionBar layers,
      t = { (s.observeMarket c f true m).1 with
        phase := phase
        fraction := fraction
        lastScale := lastScale
        lastDecisionBar := lastDecisionBar
        layers := layers } := by
  cases decideMarket_step decided with
  | wait advanced _ =>
      obtain ⟨_, _, _, rfl⟩ := advanced.frame
      exact ⟨_, _, _, _, _, rfl⟩
  | decide advanced settled =>
      obtain ⟨_, _, _, rfl⟩ := advanced.frame
      obtain ⟨_, _, rfl⟩ := settle_frame settled
      exact ⟨_, _, _, _, _, rfl⟩

/-- An evaluation either reads the market and tallies its log, with nothing left frozen, or it
logs nothing, keeps the count and at most freezes the progress. -/
theorem evaluateInner_counts (evaluated : s.evaluateInner c f true = (t, d)) :
    (∃ m, (stale c f || !validFrame f) = false ∧
        Indicators.calculate f.candles c f.nowMs = .ok m ∧
        evaluationLog c f s = barLog c f m s.lastHour ++ riskLog c f m s ∧
        t.healthyHours = countAll saturatingSucc (evaluationLog c f s) s.healthyHours ∧
        t.lastHour = max s.lastHour m.lastCloseMs ∧
        t.recoveryProgress.pendingRevalidation = false) ∨
      evaluationLog c f s = [] ∧ t.healthyHours = s.healthyHours ∧ t.lastHour = s.lastHour ∧
        (t.recoveryProgress = s.recoveryProgress ∨
          t.recoveryProgress = { s.recoveryProgress with pendingRevalidation := true }) ∧
        d.lp.isDeploy = false := by
  obtain ⟨_, _, _, _, accounted⟩ := accounted_frame (c := c) (f := f) (s := s)
  have started : ∃ phase pauseSince entryHistory, s.startFrame f =
      { s with phase := phase, pauseSince := pauseSince, entryHistory := entryHistory } := by
    unfold startFrame enterFromWarmup observeLp
    split_ifs <;> exact ⟨_, _, _, rfl⟩
  obtain ⟨_, _, _, started⟩ := started
  cases evaluateInner_step evaluated with
  | unusable unusable holds =>
      refine .inr ⟨by simp only [evaluationLog, if_pos unusable], ?_, ?_, .inr ?_, ?_⟩
      · rw [started]; rfl
      · rw [started]; rfl
      · rw [started]; rfl
      · rw [holds]; rfl
  | halted usable halted exits =>
      have logged : evaluationLog c f s = [] := by
        rw [startFrame_accountEquity_halted] at halted
        simp [evaluationLog, usable, halted]
      refine .inr ⟨logged, ?_, ?_, .inl ?_, by rw [exits]; rfl⟩
      · rw [accounted]
      · rw [accounted]
      · rw [accounted]
  | noIndicators usable running missing holds =>
      have logged : evaluationLog c f s = [] := by
        rw [Ne, startFrame_accountEquity_halted] at running
        simp [evaluationLog, usable, running, missing]
      refine .inr ⟨logged, ?_, ?_, .inr ?_, by rw [holds]; rfl⟩
      · rw [if_pos rfl, accounted]; rfl
      · rw [if_pos rfl, accounted]; rfl
      · rw [if_pos rfl, accounted]; rfl
  | @market _ running m computed _ _ decided =>
      have logged : evaluationLog c f s = barLog c f m s.lastHour ++ riskLog c f m s := by
        rw [Ne, startFrame_accountEquity_halted] at running
        simp [evaluationLog, ‹(stale c f || !validFrame f) = false›, running, computed]
      obtain ⟨hours, hour, pending⟩ := observeMarket_counts (c := c) (f := f) (m := m)
        (s := (s.startFrame f).accountEquity c f)
      obtain ⟨_, _, _, _, _, rfl⟩ := decideMarket_frame decided
      refine .inl ⟨m, ‹_›, computed, logged, ?_, ?_, pending⟩
      · rw [logged]
        rw [accounted] at hours ⊢
        exact hours
      · rw [accounted] at hour ⊢
        exact hour

/-- What a log says about a state: it records the credited bars up to the last hour, every
credit is certified, and the count is within the streak or cannot survive a recheck. -/
structure Logged (c : StrategyConfig F) (log : List (Tally (Credit F))) (s : Strategy F) :
    Prop where
  recorded : Recorded hourMs Credit.bar log s.lastHour
  credited : ∀ credit ∈ credits log, Credited c credit
  covered : s.healthyHours ≤ (streak log).length ∨ Unverified s

/-- The log grows by the events of one operation, which keep the last hour in step. -/
theorem credited_barLog (usable : (stale c f || !validFrame f) = false)
    (computed : Indicators.calculate f.candles c f.nowMs = .ok m) (aligned : HourAligned f.candles)
    (lastHour : Nat) : ∀ credit ∈ credits (barLog c f m lastHour), Credited c credit := by
  intro credit mem
  have one : credit = ⟨m.lastCloseMs, f⟩ ∧
      Progress.blockers c f m (marketRisks c f m) = [] := by
    unfold barLog at mem
    split_ifs at mem with new unblocked gap gap
    · exact ⟨List.mem_singleton.mp mem, unblocked⟩
    · exact ⟨List.mem_singleton.mp mem, unblocked⟩
    · cases mem
    · cases mem
    · cases mem
  obtain ⟨rfl, unblocked⟩ := one
  refine ⟨usable, ⟨m, computed, unblocked, rfl⟩, ?_⟩
  obtain ⟨bar, member, close, -⟩ := Indicators.calculate_last computed
  obtain ⟨opens, closes⟩ := aligned bar member
  simp only [hourMs] at *
  omega

/-- The bar stage extends a record to the new last hour. -/
theorem recorded_barLog {lastHour : Nat} (recorded : Recorded hourMs Credit.bar log lastHour)
    (credited : ∀ credit ∈ credits log, Credited c credit)
    (alignedClose : m.lastCloseMs % hourMs = hourMs - 1) :
    Recorded hourMs Credit.bar (barLog c f m lastHour ++ log) (max lastHour m.lastCloseMs) := by
  unfold barLog
  by_cases new : m.lastCloseMs > lastHour
  · have last : max lastHour m.lastCloseMs = m.lastCloseMs := by omega
    rw [if_pos new, last]
    by_cases gap : lastHour > 0 ∧ m.lastCloseMs - lastHour > 3600000
    · rw [if_pos gap]
      split_ifs
      · exact (recorded.clear le_rfl).credit new fun running => absurd rfl running
      · exact (recorded.clear le_rfl).clear new.le
    · rw [if_neg gap]
      split_ifs
      · refine recorded.credit new fun running => ?_
        -- Within a streak the last hour is the aligned bar credited before.
        obtain ⟨previous, head⟩ : ∃ previous, previous ∈ (streak log).head? :=
          ⟨_, List.head?_eq_some_head running⟩
        have closes := recorded.latest previous head
        have alignedLast := (credited previous
          (streak_subset_credits log (List.mem_of_mem_head? head))).aligned
        simp only [hourMs] at *
        omega
      · exact recorded.clear new.le
  · have last : max lastHour m.lastCloseMs = lastHour := by omega
    rw [if_neg new, last]
    exact recorded

/-- The risk stage at most clears the count. -/
theorem riskLog_eq : riskLog c f m s = [] ∨ riskLog c f m s = [.clear] := by
  unfold riskLog
  dsimp only
  split_ifs
  · exact .inr rfl
  · exact .inr rfl
  · exact .inl rfl

/-- After the risk stage the count is within the streak: unverified progress was cleared. -/
theorem riskLog_covered (covered : s.healthyHours ≤ (streak log).length ∨ Unverified s) :
    countAll saturatingSucc (riskLog c f m s) s.healthyHours ≤
      (streak (riskLog c f m s ++ log)).length := by
  rcases covered with within | ⟨pending, missing⟩
  · exact countAll_le_streak saturatingSucc_le _ within
  · by_cases empty : s.healthyHours = 0
    · exact countAll_le_streak saturatingSucc_le _ (empty.trans_le (Nat.zero_le _))
    · have refused : (s.recheckFailure f m
          (Progress.blockers c f m (marketRisks c f m))).isSome := by
        rw [recheckFailure, if_pos (by simpa using missing)]
        rfl
      have cleared : riskLog c f m s = [.clear] := by
        simp [riskLog, pending, empty, refused]
      rw [cleared]
      exact Nat.zero_le _

/-- An evaluation keeps the log invariant, and when it decides to deploy the count is within
the streak. -/
theorem Logged.evaluateInner (logged : Logged c log s) (aligned : HourAligned f.candles)
    (evaluated : s.evaluateInner c f true = (t, d)) :
    Logged c (evaluationLog c f s ++ log) t ∧
      (d.lp.isDeploy = true → t.healthyHours ≤ (streak (evaluationLog c f s ++ log)).length) := by
  rcases evaluateInner_counts evaluated with
    ⟨m, usable, computed, events, hours, hour, pending⟩ |
    ⟨events, hours, hour, progress, waits⟩
  · have alignedClose : m.lastCloseMs % hourMs = hourMs - 1 := by
      obtain ⟨bar, member, close, -⟩ := Indicators.calculate_last computed
      obtain ⟨opens, closes⟩ := aligned bar member
      simp only [hourMs] at *
      omega
    have cleared : Recorded hourMs Credit.bar (riskLog c f m s ++ log) s.lastHour ∧
        ∀ credit ∈ credits (riskLog c f m s ++ log), Credited c credit := by
      rcases riskLog_eq (c := c) (f := f) (m := m) (s := s) with none | clears
      · rw [none]
        exact ⟨logged.recorded, logged.credited⟩
      · rw [clears]
        exact ⟨logged.recorded.clear le_rfl, logged.credited⟩
    have within : t.healthyHours ≤ (streak (evaluationLog c f s ++ log)).length := by
      rw [hours, events, countAll_append, List.append_assoc]
      exact countAll_le_streak saturatingSucc_le _ (riskLog_covered logged.covered)
    refine ⟨⟨?_, ?_, .inl within⟩, fun _ => within⟩
    · rw [events, hour, List.append_assoc]
      exact recorded_barLog cleared.1 cleared.2 alignedClose
    · rw [events, List.append_assoc, credits_append]
      exact List.forall_mem_append.mpr
        ⟨credited_barLog usable computed aligned s.lastHour, cleared.2⟩
  · rw [events, List.nil_append]
    refine ⟨⟨hour ▸ logged.recorded, logged.credited, ?_⟩, fun deploys => ?_⟩
    · rcases logged.covered with within | ⟨pending, missing⟩
      · exact .inl (hours ▸ within)
      · right
        rcases progress with same | frozen
        · exact ⟨same ▸ pending, same ▸ missing⟩
        · exact ⟨by rw [frozen], by rw [frozen]; exact missing⟩
    · rw [waits] at deploys
      cases deploys

end Evaluation

end LpMaker.Strategy
