import LpMaker.Strategy.Breakout

/-!
# Confirmation of a breakout

A recentre needs the price beyond the range in each of the last decision buckets. A bucket counts
once, at the first frame which reaches the bar processing; the count of a layer is backed by as
many consecutive processed frames.
-/

namespace LpMaker

namespace Strategy

variable {F : Type} [F64 F] {c : StrategyConfig F} {f : MarketFrame F} {s t : Strategy F}
  {layer : String}

/-- The decision bucket of a frame. -/
def bucket (c : StrategyConfig F) (f : MarketFrame F) : Nat :=
  f.nowMs / (c.decisionBarSeconds * 1000)

/-- The side of the buffered range on which a price lies. -/
def breakoutSide (c : StrategyConfig F) (p : F) (pos : LpPosition F) : Int :=
  if p < pos.lower * (1 - c.breakoutBuffer) then -1
  else if p > pos.upper * (1 + c.breakoutBuffer) then 1
  else 0

/-- The frame holds the layer, with one position. -/
def Holds (layer : String) (f : MarketFrame F) (pos : LpPosition F) : Prop :=
  (f.portfolio.positions.filter fun pos => pos.layer = layer) = [pos]

section Pass

variable {positions : List (LpPosition F)} {pos : LpPosition F} {p : F} {newBar : Bool}

/-- The streak of a layer after a bar on this side. -/
def streakCount (side : Int) (state : LayerState) : Nat :=
  if side = 0 then 0 else if side = state.outsideSide then state.outsideCount + 1 else 1

omit [F64 F] in
theorem lookup_clearStreaks (layers : Layers) :
    layers.clearStreaks.lookup layer = (layers.lookup layer).map fun state =>
      { state with outsideCount := 0, outsideSide := 0 } := by
  obtain ⟨entries, distinct⟩ := layers
  change List.dlookup layer (entries.map fun layer : (_ : String) × LayerState =>
    (⟨layer.1, { layer.2 with outsideCount := 0, outsideSide := 0 }⟩ :
      (_ : String) × LayerState)) = (List.dlookup layer entries).map _
  clear distinct
  induction entries with
  | nil => rfl
  | cons first entries inductionHypothesis =>
      obtain ⟨name, state⟩ := first
      by_cases here : layer = name
      · subst here
        simp [List.dlookup_cons_eq]
      · rw [List.map_cons, List.dlookup_cons_ne _ _ here, List.dlookup_cons_ne _ _ here]
        exact inductionHypothesis

omit [F64 F] in
/-- Clearing the streaks keeps the protection of a layer. -/
theorem clearStreaks_entry (layers : Layers) :
    (layers.clearStreaks.entry layer).outsideCount = 0 ∧
      (layers.clearStreaks.entry layer).outsideSide = 0 ∧
      (layers.clearStreaks.entry layer).isProtected = (layers.entry layer).isProtected := by
  unfold Layers.entry
  rw [lookup_clearStreaks]
  cases layers.lookup layer with
  | none => exact ⟨rfl, rfl, rfl⟩
  | some state => exact ⟨rfl, rfl, rfl⟩

theorem protectLayer_counts (state : LayerState) :
    (protectLayer c p pos state).outsideCount = state.outsideCount ∧
      (protectLayer c p pos state).outsideSide = state.outsideSide := by
  unfold protectLayer
  dsimp only
  split_ifs <;> exact ⟨rfl, rfl⟩

theorem streakCount_protect (side : Int) (state : LayerState) :
    streakCount side (protectLayer c p pos state) = streakCount side state := by
  obtain ⟨count, side'⟩ := @protectLayer_counts F _ c pos p state
  unfold streakCount
  rw [count, side']

theorem countBreakout_eq (state : LayerState) :
    countBreakout c p pos state =
      ({ state with
          outsideSide := breakoutSide c p pos
          outsideCount :=
            if streakCount (breakoutSide c p pos) state ≥ c.breakoutConfirmBars then 0
            else streakCount (breakoutSide c p pos) state },
        decide (streakCount (breakoutSide c p pos) state ≥ c.breakoutConfirmBars)) := by
  unfold countBreakout
  dsimp only
  congr 2
  simp only [decide_eq_true_eq]
  rfl

/-- A bar on the position of a layer. -/
theorem observeLayer_bar (pass : LayerPass F) (here : pos.layer = layer) :
    ((observeLayer c p true pass pos).layers.entry layer).outsideSide = breakoutSide c p pos ∧
    ((observeLayer c p true pass pos).layers.entry layer).outsideCount =
      (if streakCount (breakoutSide c p pos) (pass.layers.entry layer) ≥ c.breakoutConfirmBars
        then 0 else streakCount (breakoutSide c p pos) (pass.layers.entry layer)) ∧
    (layer ∈ (observeLayer c p true pass pos).resets ↔ layer ∈ pass.resets ∨
      c.breakoutConfirmBars ≤ streakCount (breakoutSide c p pos) (pass.layers.entry layer)) := by
  subst here
  simp only [observeLayer, if_true, entry_insert_self, countBreakout_eq, streakCount_protect]
  refine ⟨trivial, trivial, ?_⟩
  by_cases confirmed : c.breakoutConfirmBars ≤
      streakCount (breakoutSide c p pos) (pass.layers.entry pos.layer)
  · simp [confirmed]
  · simp [confirmed]

/-- Without a new bar the counters stay. -/
theorem observeLayer_quiet (pass : LayerPass F) :
    ((observeLayer c p false pass pos).layers.entry layer).outsideSide =
        (pass.layers.entry layer).outsideSide ∧
      ((observeLayer c p false pass pos).layers.entry layer).outsideCount =
        (pass.layers.entry layer).outsideCount ∧
      (observeLayer c p false pass pos).resets = pass.resets := by
  by_cases here : layer = pos.layer
  · subst here
    obtain ⟨count, side⟩ :=
      @protectLayer_counts F _ c pos p (pass.layers.entry pos.layer)
    simp only [observeLayer, Bool.false_eq_true, if_false, entry_insert_self]
    exact ⟨side, count, trivial⟩
  · simp only [observeLayer, Bool.false_eq_true, if_false, entry_insert_ne here]
    exact ⟨trivial, trivial, trivial⟩

theorem observeLayer_other (pass : LayerPass F) (other : pos.layer ≠ layer) :
    (observeLayer c p newBar pass pos).layers.entry layer = pass.layers.entry layer ∧
      (layer ∈ (observeLayer c p newBar pass pos).resets ↔ layer ∈ pass.resets) := by
  refine ⟨entry_insert_ne other.symm, ?_⟩
  unfold observeLayer
  dsimp only
  generalize (if newBar = true then countBreakout c p pos
    (protectLayer c p pos (pass.layers.entry pos.layer))
    else (protectLayer c p pos (pass.layers.entry pos.layer), false)) = counted
  cases counted.2 with
  | false => exact Iff.rfl
  | true => simp [other.symm]

theorem foldl_other (pass : LayerPass F) (apart : ∀ pos ∈ positions, pos.layer ≠ layer) :
    (positions.foldl (observeLayer c p newBar) pass).layers.entry layer = pass.layers.entry layer ∧
      (layer ∈ (positions.foldl (observeLayer c p newBar) pass).resets ↔ layer ∈ pass.resets) := by
  induction positions generalizing pass with
  | nil => exact ⟨rfl, Iff.rfl⟩
  | cons pos positions inductionHypothesis =>
      obtain ⟨here, later⟩ := List.forall_mem_cons.mp apart
      obtain ⟨entry, resets⟩ := observeLayer_other pass here
      obtain ⟨entry', resets'⟩ := inductionHypothesis (observeLayer c p newBar pass pos) later
      exact ⟨entry'.trans entry, resets'.trans resets⟩

/-- The only position of a layer decides about it. -/
theorem foldl_holds (pass : LayerPass F)
    (only : (positions.filter fun pos => pos.layer = layer) = [pos]) :
    ∃ pass' : LayerPass F, pass'.layers.entry layer = pass.layers.entry layer ∧
      (layer ∈ pass'.resets ↔ layer ∈ pass.resets) ∧
      (positions.foldl (observeLayer c p newBar) pass).layers.entry layer =
        (observeLayer c p newBar pass' pos).layers.entry layer ∧
      (layer ∈ (positions.foldl (observeLayer c p newBar) pass).resets ↔
        layer ∈ (observeLayer c p newBar pass' pos).resets) := by
  induction positions generalizing pass with
  | nil => cases only
  | cons first positions inductionHypothesis =>
      rw [List.filter_cons] at only
      by_cases here : first.layer = layer
      · rw [if_pos (decide_eq_true here)] at only
        obtain ⟨rfl, none⟩ := List.cons.inj only
        have apart : ∀ pos ∈ positions, pos.layer ≠ layer := by
          intro other mem same
          have kept : other ∈ positions.filter fun pos => pos.layer = layer :=
            List.mem_filter.mpr ⟨mem, decide_eq_true same⟩
          rw [none] at kept
          cases kept
        obtain ⟨entry, resets⟩ := foldl_other (observeLayer c p newBar pass first) apart
        exact ⟨pass, rfl, Iff.rfl, entry, resets⟩
      · rw [if_neg (by simpa using here)] at only
        obtain ⟨pass', entry, resets, later⟩ :=
          inductionHypothesis (observeLayer c p newBar pass first) only
        obtain ⟨same, member⟩ := observeLayer_other pass here
        exact ⟨pass', entry.trans same, resets.trans member, later⟩

theorem foldl_quiet (pass : LayerPass F) :
    ((positions.foldl (observeLayer c p false) pass).layers.entry layer).outsideSide =
        (pass.layers.entry layer).outsideSide ∧
      ((positions.foldl (observeLayer c p false) pass).layers.entry layer).outsideCount =
        (pass.layers.entry layer).outsideCount ∧
      (positions.foldl (observeLayer c p false) pass).resets = pass.resets := by
  induction positions generalizing pass with
  | nil => exact ⟨rfl, rfl, rfl⟩
  | cons pos positions inductionHypothesis =>
      obtain ⟨side, count, resets⟩ := @observeLayer_quiet F _ c layer pos p pass
      obtain ⟨side', count', resets'⟩ := inductionHypothesis (observeLayer c p false pass pos)
      exact ⟨side'.trans side, count'.trans count, resets'.trans resets⟩

end Pass

section Bars

/-- Whether an evaluation reaches the bar processing, behind every early return. -/
def reachesBars (c : StrategyConfig F) (f : MarketFrame F) (continuity : Bool)
    (s : Strategy F) : Bool :=
  if stale c f || !validFrame f then false
  else
    let s := (s.startFrame f).accountEquity c f
    if s.phase = .halted then false
    else
      match Indicators.calculate f.candles c f.nowMs with
      | .error _ => false
      | .ok m =>
          let risks := marketRisks c f m
          ((s.observeMarket c f continuity m).1.advance c f continuity (!risks.isEmpty)
            (Progress.blockers c f m risks).isEmpty).2.isSome

/-- The streak of a layer is kept or cleared. -/
def KeepsStreak (layer : String) (s t : Strategy F) : Prop :=
  (t.layers.entry layer).outsideCount = 0 ∨
    (t.layers.entry layer).outsideCount = (s.layers.entry layer).outsideCount ∧
      (t.layers.entry layer).outsideSide = (s.layers.entry layer).outsideSide

/-- What an evaluation does to the breakout counters. -/
inductive BarStep (c : StrategyConfig F) (f : MarketFrame F) (continuity : Bool)
    (s t : Strategy F) (d : Decision F) : Prop where
  | idle (bar : t.lastDecisionBar = s.lastDecisionBar)
      (kept : ∀ layer, KeepsStreak layer s t) (other : ∀ layers, d.lp ≠ .recenter layers)
      (seen : s.reachesBars c f continuity = true → bucket c f ≤ s.lastDecisionBar)
  | processed (reached : s.reachesBars c f continuity = true)
      (later : s.lastDecisionBar < bucket c f) (bar : t.lastDecisionBar = bucket c f)
      (layers : t.layers = ((s.enterBar c f).1.observeLayers c f true).layers)
      (resets : ∀ layers, d.lp = .recenter layers →
        layers = ((s.enterBar c f).1.observeLayers c f true).resets)

omit [F64 F] in
theorem keepsStreak_of_layers (layer : String)
    (same : t.layers = s.layers ∨ t.layers = s.layers.clearStreaks) : KeepsStreak layer s t := by
  unfold KeepsStreak
  rcases same with same | cleared
  · rw [same]
    exact .inr ⟨rfl, rfl⟩
  · rw [cleared]
    exact .inl (clearStreaks_entry _).1

omit [F64 F] in
theorem enterBar_later (later : s.lastDecisionBar < bucket c f) :
    (s.enterBar c f).2 = true ∧ (s.enterBar c f).1.lastDecisionBar = bucket c f ∧
      (s.enterBar c f).1.layers =
        if s.lastDecisionBar > 0 ∧ bucket c f > s.lastDecisionBar + 1 then s.layers.clearStreaks
        else s.layers := by
  unfold enterBar
  rw [if_pos (show f.nowMs / (c.decisionBarSeconds * 1000) > s.lastDecisionBar from later)]
  exact ⟨rfl, rfl, rfl⟩

omit [F64 F] in
theorem enterBar_seen (seen : bucket c f ≤ s.lastDecisionBar) : s.enterBar c f = (s, false) := by
  unfold enterBar
  rw [if_neg (show ¬f.nowMs / (c.decisionBarSeconds * 1000) > s.lastDecisionBar from
    not_lt.mpr seen)]

/-- The bar processing of a decision. -/
theorem settle_bar {continuity : Bool} {u : Strategy F} {lp : LpIntent F} {reasons : List String}
    {d : Decision F} (reached : s.reachesBars c f continuity = true)
    (layers : u.layers = s.layers) (bar : u.lastDecisionBar = s.lastDecisionBar)
    (other : ∀ layers, lp ≠ .recenter layers) (settled : u.settle c f lp reasons = (t, d)) :
    BarStep c f continuity s t d := by
  obtain ⟨sameBar, sameLayers, sameCount⟩ := enterBar_congr (c := c) (f := f) layers bar
  have pass : (u.enterBar c f).1.observeLayers c f (u.enterBar c f).2 =
      (s.enterBar c f).1.observeLayers c f (s.enterBar c f).2 := by
    simp only [observeLayers, sameBar, sameLayers]
  obtain rfl : t = (u.settle c f lp reasons).1 := by rw [settled]
  obtain rfl : d = (u.settle c f lp reasons).2 := by rw [settled]
  have decided : ∀ layers, (u.settle c f lp reasons).2.lp = .recenter layers →
      layers = ((s.enterBar c f).1.observeLayers c f (s.enterBar c f).2).resets ∧
        layers ≠ [] := by
    intro layers recentred
    simp only [settle, pass] at recentred
    split_ifs at recentred with reset
    · cases recentred
      exact ⟨rfl, reset.2⟩
    · exact absurd recentred (other layers)
  have after : (u.settle c f lp reasons).1.layers =
      ((s.enterBar c f).1.observeLayers c f (s.enterBar c f).2).layers := by
    simp only [settle, pass]
  have moved : (u.settle c f lp reasons).1.lastDecisionBar =
      (s.enterBar c f).1.lastDecisionBar := settle_bars.trans sameCount
  rcases lt_or_ge s.lastDecisionBar (bucket c f) with later | seen
  · obtain ⟨entered, now, -⟩ := enterBar_later (s := s) later
    rw [entered] at after decided
    exact .processed reached later (moved.trans now) after fun layers recentred =>
      (decided layers recentred).1
  · rw [enterBar_seen seen] at after decided moved
    have quiet (layer : String) := @foldl_quiet F _ c layer f.portfolio.positions f.pool.price
      ⟨s.layers, f.portfolio.walletBase, false, []⟩
    refine .idle moved ?_ ?_ fun _ => seen
    · intro layer
      obtain ⟨side, count, -⟩ := quiet layer
      refine .inr ⟨?_, ?_⟩
      · rw [after]
        exact count
      · rw [after]
        exact side
    · intro layers recentred
      obtain ⟨eq, nonempty⟩ := decided layers recentred
      obtain ⟨-, -, none⟩ := quiet ""
      exact nonempty (eq.trans none)

/-- No phase transition asks for a recentre. -/
theorem AdvanceStep.not_recenter {continuity unsafeMarket healthy : Bool} {lp : LpIntent F}
    {reasons : List String}
    (step : AdvanceStep c f continuity unsafeMarket healthy s t (some (lp, reasons)))
    (layers : List String) : lp ≠ .recenter layers := by
  cases step <;> exact nofun

/-- The gates before the bar processing. -/
inductive BarGate (c : StrategyConfig F) (f : MarketFrame F) (continuity : Bool)
    (s t : Strategy F) (d : Decision F) : Prop where
  | early (missed : s.reachesBars c f continuity = false)
      (layers : t.layers = s.layers ∨ t.layers = s.layers.clearStreaks)
      (bar : t.lastDecisionBar = s.lastDecisionBar)
      (other : ∀ layers, d.lp ≠ .recenter layers)
  | settled (reached : s.reachesBars c f continuity = true) (u : Strategy F) (lp : LpIntent F)
      (reasons : List String) (layers : u.layers = s.layers)
      (bar : u.lastDecisionBar = s.lastDecisionBar) (other : ∀ layers, lp ≠ .recenter layers)
      (settled : u.settle c f lp reasons = (t, d))

/-- A decision on the market, seen from the state in which the frame was accounted. -/
theorem decideMarket_gate {continuity : Bool} {m : Metrics F} {u : Strategy F} {d : Decision F}
    (decided : u.decideMarket c f continuity m = (t, d))
    (layers : u.layers = s.layers) (bar : u.lastDecisionBar = s.lastDecisionBar)
    (gate : s.reachesBars c f continuity = ((u.observeMarket c f continuity m).1.advance c f
      continuity (!(marketRisks c f m).isEmpty)
      (Progress.blockers c f m (marketRisks c f m)).isEmpty).2.isSome) :
    BarGate c f continuity s t d := by
  obtain ⟨observedBar, observedLayers⟩ :=
    observeMarket_bars (s := u) (c := c) (f := f) continuity m
  obtain ⟨advancedLayers, advancedBar⟩ :=
    advance_bars (s := (u.observeMarket c f continuity m).1) (c := c) (f := f) continuity
      (!(marketRisks c f m).isEmpty) (Progress.blockers c f m (marketRisks c f m)).isEmpty
  have step := advance_step (c := c) (f := f) (s := (u.observeMarket c f continuity m).1) continuity
    (!(marketRisks c f m).isEmpty) (Progress.blockers c f m (marketRisks c f m)).isEmpty
  unfold decideMarket at decided
  dsimp only at decided
  split at decided
  · next waits =>
      rw [waits] at gate
      cases decided
      refine .early gate ?_ (advancedBar.trans (observedBar.trans bar)) ?_
      · rw [advancedLayers, ← layers]
        by_cases safe : marketRisks c f m = []
        · exact .inl (observedLayers safe)
        · obtain ⟨_, _, _, observed⟩ := observeMarket_of_risk (s := u) continuity safe
          rw [observed]
          exact .inr rfl
      · intro layers recentred
        cases recentred
  · next lp added acts =>
      rw [acts] at gate step
      have safe := safe_of_decided acts
      exact .settled gate _ lp _ (advancedLayers.trans ((observedLayers safe).trans layers))
        (advancedBar.trans (observedBar.trans bar)) step.not_recenter decided

/-- Every evaluation ends before the bar processing or settles there. -/
theorem evaluateInner_gate {continuity : Bool} {d : Decision F}
    (evaluated : s.evaluateInner c f continuity = (t, d)) : BarGate c f continuity s t d := by
  obtain ⟨startedLayers, startedBar⟩ := startFrame_bars (s := s) (f := f)
  obtain ⟨accountedLayers, accountedBar⟩ :=
    accountEquity_bars (c := c) (f := f) (s := s.startFrame f)
  cases evaluateInner_step evaluated with
  | unusable unusable holds =>
      refine .early ?_ (.inl ?_) (onUnusableFrame_bars.trans startedBar) ?_
      · rw [reachesBars, if_pos unusable]
      · unfold onUnusableFrame
        dsimp only
        split_ifs <;> exact startedLayers
      · rw [holds]
        exact nofun
  | halted usable halted exits =>
      refine .early ?_ (.inl (accountedLayers.trans startedLayers))
        (accountedBar.trans startedBar) ?_
      · simp only [reachesBars, usable, Bool.false_eq_true, if_false, if_pos halted]
      · rw [exits]
        exact nofun
  | noIndicators usable running missing holds =>
      refine .early ?_ (.inl ?_) ?_ ?_
      · simp only [reachesBars, usable, Bool.false_eq_true, if_false, if_neg running, missing]
      · split_ifs <;> exact accountedLayers.trans startedLayers
      · split_ifs <;> exact accountedBar.trans startedBar
      · rw [holds]
        exact nofun
  | market usable running computed decided =>
      refine decideMarket_gate decided (accountedLayers.trans startedLayers)
        (accountedBar.trans startedBar) ?_
      simp only [reachesBars, usable, Bool.false_eq_true, if_false, if_neg running, computed]

/-- Every evaluation treats the breakout counters in one of the two ways. -/
theorem evaluateInner_bar {continuity : Bool} {d : Decision F}
    (evaluated : s.evaluateInner c f continuity = (t, d)) : BarStep c f continuity s t d := by
  cases evaluateInner_gate evaluated with
  | early missed layers bar other =>
      exact .idle bar (fun layer => keepsStreak_of_layers layer layers) other
        fun reached => absurd (missed.symm.trans reached) Bool.false_ne_true
  | settled reached u lp reasons layers bar other settled =>
      exact settle_bar reached layers bar other settled

end Bars

section History

open Semantics

/-- One evaluation of a run. -/
abbrev Evaluation (F : Type) := Transition (Strategy F) (MarketFrame F) (Decision F)

namespace Evaluation

/-- The evaluation entered a decision bar. -/
def enters (taken : Evaluation F) : Bool :=
  taken.after.lastDecisionBar ≠ taken.before.lastDecisionBar

/-- The evaluation reached the bar processing. -/
def reaches (c : StrategyConfig F) (continuity : Bool) (taken : Evaluation F) : Bool :=
  taken.before.reachesBars c taken.input continuity

end Evaluation

/-- The processed frame of a bucket: the first evaluation in it which reaches the bar
processing. -/
def Processed (c : StrategyConfig F) (continuity : Bool) (run : List (Evaluation F))
    (taken : Evaluation F) : Prop :=
  ∃ earlier later, run = earlier ++ taken :: later ∧ taken.reaches c continuity = true ∧
    ∀ other ∈ earlier, other.reaches c continuity = true →
      bucket c other.input ≠ bucket c taken.input

/-- A streak has a bar outside on this side in each of as many buckets up to `last`, as long as
the layer is held there. The bars are listed from the newest. -/
def Backed (c : StrategyConfig F) (layer : String) (side : Int) :
    Nat → Nat → List (Evaluation F) → Prop
  | _, 0, _ => True
  | _, _ + 1, [] => False
  | last, streak + 1, bar :: older =>
      bucket c bar.input = last ∧ ∀ pos, Holds layer bar.input pos →
        breakoutSide c bar.input.pool.price pos = side ∧
          ∃ earlier, earlier + 1 = last ∧ Backed c layer side earlier streak older

theorem backed_zero (side : Int) (last : Nat) (bars : List (Evaluation F)) :
    Backed c layer side last 0 bars := by
  cases bars <;> trivial

/-- The counters agree with the evaluations so far, listed from the newest. -/
structure Counted (c : StrategyConfig F) (continuity : Bool) (past : List (Evaluation F))
    (s : Strategy F) : Prop where
  backed : ∀ layer, Backed c layer (s.layers.entry layer).outsideSide s.lastDecisionBar
    (s.layers.entry layer).outsideCount (past.filter Evaluation.enters)
  seen : ∀ taken ∈ past, taken.reaches c continuity = true →
    bucket c taken.input ≤ s.lastDecisionBar
  entered : ∀ taken ∈ past, taken.enters = true →
    taken.reaches c continuity = true ∧ 0 < s.lastDecisionBar
  firsts : past.Pairwise fun newer older => newer.enters = true →
    older.reaches c continuity = true → bucket c older.input < bucket c newer.input

/-- The streak which a bar gives to the position of a layer. -/
def barStreak (c : StrategyConfig F) (f : MarketFrame F) (pos : LpPosition F)
    (s : Strategy F) : Nat :=
  streakCount (breakoutSide c f.pool.price pos) ((s.enterBar c f).1.layers.entry pos.layer)

omit [F64 F] in
theorem Holds.layer_eq {pos : LpPosition F} (held : Holds layer f pos) : pos.layer = layer := by
  have mem : pos ∈ f.portfolio.positions.filter fun pos => pos.layer = layer := by
    rw [show (f.portfolio.positions.filter fun pos => pos.layer = layer) = [pos] from held]
    exact List.mem_singleton_self pos
  simpa using (List.mem_filter.mp mem).2

/-- The counters and the resets of a held layer after a bar. -/
theorem observeLayers_bar {pos : LpPosition F} (held : Holds layer f pos) :
    (((s.enterBar c f).1.observeLayers c f true).layers.entry layer).outsideSide =
        breakoutSide c f.pool.price pos ∧
      (((s.enterBar c f).1.observeLayers c f true).layers.entry layer).outsideCount =
        (if barStreak c f pos s ≥ c.breakoutConfirmBars then 0 else barStreak c f pos s) ∧
      (layer ∈ ((s.enterBar c f).1.observeLayers c f true).resets ↔
        c.breakoutConfirmBars ≤ barStreak c f pos s) := by
  obtain ⟨pass, entry, resets, after, member⟩ :=
    @foldl_holds F _ c layer f.portfolio.positions pos f.pool.price true
      ⟨(s.enterBar c f).1.layers, f.portfolio.walletBase, false, []⟩ held
  obtain ⟨side, count, reset⟩ := observeLayer_bar (c := c) (p := f.pool.price) pass held.layer_eq
  have streak : streakCount (breakoutSide c f.pool.price pos) (pass.layers.entry layer) =
      barStreak c f pos s := by
    rw [barStreak, held.layer_eq, entry]
  rw [streak] at count reset
  unfold observeLayers
  rw [after, member]
  refine ⟨side, count, reset.trans ?_⟩
  rw [resets]
  simp

/-- A bar restarts the streak in range, after a change of side and after a skipped bucket. -/
theorem barStreak_cases {pos : LpPosition F} (later : s.lastDecisionBar < bucket c f)
    (start : s.lastDecisionBar = 0 → (s.layers.entry pos.layer).outsideCount = 0) :
    barStreak c f pos s =
      if breakoutSide c f.pool.price pos = 0 then 0
      else if breakoutSide c f.pool.price pos = (s.layers.entry pos.layer).outsideSide ∧
          bucket c f = s.lastDecisionBar + 1 then (s.layers.entry pos.layer).outsideCount + 1
      else 1 := by
  obtain ⟨-, -, layers⟩ := enterBar_later (s := s) later
  unfold barStreak streakCount
  rw [layers]
  by_cases inside : breakoutSide c f.pool.price pos = 0
  · rw [if_pos inside, if_pos inside]
  · rw [if_neg inside, if_neg inside]
    by_cases skipped : s.lastDecisionBar > 0 ∧ bucket c f > s.lastDecisionBar + 1
    · obtain ⟨count, side, -⟩ := @clearStreaks_entry pos.layer s.layers
      rw [if_pos skipped, side, if_neg inside, if_neg (by omega)]
    · rw [if_neg skipped]
      by_cases same : breakoutSide c f.pool.price pos = (s.layers.entry pos.layer).outsideSide
      · by_cases next : bucket c f = s.lastDecisionBar + 1
        · rw [if_pos same, if_pos ⟨same, next⟩]
        · -- Only the first bar of a state without bars is left.
          rw [if_pos same, if_neg fun both => next both.2, start (by omega)]
      · rw [if_neg same, if_neg fun both => same both.1]

namespace Counted

variable {continuity : Bool} {past : List (Evaluation F)} {d : Decision F}

/-- Before the first bar there is no streak. -/
theorem start (counted : Counted c continuity past s) (layer : String)
    (none : s.lastDecisionBar = 0) : (s.layers.entry layer).outsideCount = 0 := by
  have backed := counted.backed layer
  cases streak : (s.layers.entry layer).outsideCount with
  | zero => rfl
  | succ n =>
      rw [streak] at backed
      cases bars : past.filter Evaluation.enters with
      | nil =>
          rw [bars] at backed
          cases backed
      | cons bar older =>
          have mem : bar ∈ past.filter Evaluation.enters := by
            rw [bars]
            exact List.mem_cons_self
          obtain ⟨inPast, enters⟩ := List.mem_filter.mp mem
          exact absurd none (counted.entered bar inPast enters).2.ne'

/-- The streak of a bar is backed by it and by the bars before. -/
theorem backed_bar (counted : Counted c continuity past s) {pos : LpPosition F}
    (held : Holds layer f pos) (later : s.lastDecisionBar < bucket c f) :
    Backed c layer (breakoutSide c f.pool.price pos) (bucket c f) (barStreak c f pos s)
      (⟨s, f, t, d⟩ :: past.filter Evaluation.enters) := by
  have only (other : LpPosition F) (held' : Holds layer f other) : other = pos := by
    have both : [other] = [pos] := held'.symm.trans held
    exact (List.cons.inj both).1
  have layerEq := held.layer_eq
  rw [barStreak_cases later (counted.start pos.layer)]
  by_cases inside : breakoutSide c f.pool.price pos = 0
  · rw [if_pos inside]
    exact backed_zero ..
  · rw [if_neg inside]
    by_cases next : breakoutSide c f.pool.price pos = (s.layers.entry pos.layer).outsideSide ∧
        bucket c f = s.lastDecisionBar + 1
    · rw [if_pos next]
      refine ⟨rfl, fun other held' => ?_⟩
      obtain rfl := only other held'
      refine ⟨rfl, s.lastDecisionBar, next.2.symm, ?_⟩
      rw [next.1, layerEq]
      exact counted.backed layer
    · rw [if_neg next]
      refine ⟨rfl, fun other held' => ?_⟩
      obtain rfl := only other held'
      exact ⟨rfl, bucket c f - 1, by omega, backed_zero ..⟩

/-- Every evaluation keeps the account of the counters. -/
theorem step (counted : Counted c continuity past s)
    (evaluated : s.evaluateInner c f continuity = (t, d)) :
    Counted c continuity (⟨s, f, t, d⟩ :: past) t := by
  cases evaluateInner_bar evaluated with
  | idle bar kept other seen =>
      have unmoved : Evaluation.enters (⟨s, f, t, d⟩ : Evaluation F) = false :=
        decide_eq_false (not_not.mpr bar)
      constructor
      · intro layer
        rw [List.filter_cons_of_neg (by rw [unmoved]; exact Bool.false_ne_true), bar]
        rcases kept layer with cleared | ⟨count, side⟩
        · rw [cleared]
          exact backed_zero ..
        · rw [count, side]
          exact counted.backed layer
      · rw [bar]
        exact List.forall_mem_cons.mpr ⟨seen, counted.seen⟩
      · rw [bar]
        exact List.forall_mem_cons.mpr
          ⟨fun enters => absurd (unmoved.symm.trans enters) Bool.false_ne_true, counted.entered⟩
      · exact List.pairwise_cons.mpr
          ⟨fun _ _ enters => absurd (unmoved.symm.trans enters) Bool.false_ne_true, counted.firsts⟩
  | processed reached later bar layers resets =>
      have moved : Evaluation.enters (⟨s, f, t, d⟩ : Evaluation F) = true :=
        decide_eq_true (by
          change t.lastDecisionBar ≠ s.lastDecisionBar
          omega)
      constructor
      · intro layer
        rw [List.filter_cons_of_pos moved, bar, layers]
        by_cases held : ∃ pos, Holds layer f pos
        · obtain ⟨pos, held⟩ := held
          obtain ⟨side, count, -⟩ := observeLayers_bar (s := s) (c := c) held
          rw [side, count]
          by_cases confirmed : barStreak c f pos s ≥ c.breakoutConfirmBars
          · rw [if_pos confirmed]
            exact backed_zero ..
          · rw [if_neg confirmed]
            exact counted.backed_bar held later
        · -- A layer which is not held there asks nothing of the bar but its bucket.
          generalize (((s.enterBar c f).1.observeLayers c f true).layers.entry
            layer).outsideCount = streak
          cases streak with
          | zero => exact backed_zero ..
          | succ streak => exact ⟨rfl, fun pos held' => absurd ⟨pos, held'⟩ held⟩
      · rw [bar]
        exact List.forall_mem_cons.mpr ⟨fun _ => le_refl _,
          fun taken mem reaches => (counted.seen taken mem reaches).trans later.le⟩
      · rw [bar]
        exact List.forall_mem_cons.mpr ⟨fun _ => ⟨reached, by omega⟩,
          fun taken mem enters => ⟨(counted.entered taken mem enters).1, by omega⟩⟩
      · exact List.pairwise_cons.mpr
          ⟨fun older mem _ reaches => (counted.seen older mem reaches).trans_lt later,
            counted.firsts⟩

/-- The account along a run. -/
theorem run (counted : Counted c continuity past s) (frames : List (MarketFrame F)) :
    Counted c continuity
      ((trace (fun f s => s.evaluateInner c f continuity) s frames).reverse ++ past)
      (Semantics.run (fun f s => s.evaluateInner c f continuity) s frames) :=
  invariant_of_history _ (Counted c continuity)
    (fun _ s f counted => counted.step (Prod.mk.eta (p := s.evaluateInner c f continuity)).symm)
    counted frames

/-- A state without streaks agrees with an empty history. -/
theorem init (fresh : ∀ layer, (s.layers.entry layer).outsideCount = 0) :
    Counted c continuity [] s := by
  constructor
  · intro layer
    rw [fresh layer]
    exact backed_zero ..
  · exact fun _ mem => absurd mem List.not_mem_nil
  · exact fun _ mem => absurd mem List.not_mem_nil
  · exact List.Pairwise.nil

/-- An evaluation which enters a bar is the processed frame of its bucket. -/
theorem processed_of_enters (counted : Counted c continuity past s) {taken : Evaluation F}
    (mem : taken ∈ past) (enters : taken.enters = true) :
    Processed c continuity past.reverse taken := by
  obtain ⟨newer, older, rfl⟩ := List.append_of_mem mem
  obtain ⟨-, pairs, -⟩ := List.pairwise_append.mp counted.firsts
  refine ⟨older.reverse, newer.reverse, by simp, (counted.entered taken mem enters).1, ?_⟩
  intro other inOlder reaches
  exact ((List.pairwise_cons.mp pairs).1 other (List.mem_reverse.mp inOlder) enters reaches).ne

end Counted

/-- The bars behind a streak. -/
theorem Backed.bars {side : Int} {last streak n : Nat} {bars : List (Evaluation F)}
    (backed : Backed c layer side last streak bars) (enough : n ≤ streak)
    (held : ∀ bar ∈ bars, last < bucket c bar.input + n → ∃ pos, Holds layer bar.input pos) :
    ∀ k < n, ∃ bar ∈ bars, bucket c bar.input + k = last ∧
      ∃ pos, Holds layer bar.input pos ∧ breakoutSide c bar.input.pool.price pos = side := by
  induction n generalizing last streak bars with
  | zero => exact fun k less => absurd less (Nat.not_lt_zero k)
  | succ n inductionHypothesis =>
      obtain ⟨streak, rfl⟩ : ∃ m, streak = m + 1 := ⟨streak - 1, by omega⟩
      cases bars with
      | nil => cases backed
      | cons bar older =>
          obtain ⟨here, sides⟩ := backed
          obtain ⟨pos, present⟩ := held bar List.mem_cons_self (by omega)
          obtain ⟨side, earlier, next, backed⟩ := sides pos present
          intro k less
          cases k with
          | zero => exact ⟨bar, List.mem_cons_self, here, pos, present, side⟩
          | succ k =>
              obtain ⟨found, mem, at_, rest⟩ := inductionHypothesis backed (by omega)
                (fun other mem near => held other (List.mem_cons_of_mem bar mem) (by omega))
                k (by omega)
              exact ⟨found, List.mem_cons_of_mem bar mem, by omega, rest⟩

theorem breakoutSide_cases (p : F) (pos : LpPosition F) :
    breakoutSide c p pos = -1 ∨ breakoutSide c p pos = 1 ∨ breakoutSide c p pos = 0 := by
  unfold breakoutSide
  split_ifs
  · exact .inl rfl
  · exact .inr (.inl rfl)
  · exact .inr (.inr rfl)

end History

section Recentre

open Semantics

variable {continuity : Bool}

/-- The layers of a recentre have a streak of confirmed bars. -/
theorem confirmed_of_recenter {layers : List String} {d : Decision F}
    (evaluated : s.evaluateInner c f continuity = (t, d)) (recentred : d.lp = .recenter layers) :
    s.lastDecisionBar < bucket c f ∧ s.reachesBars c f continuity = true ∧
      t.lastDecisionBar = bucket c f ∧
      ∀ layer ∈ layers, ∀ pos, Holds layer f pos →
        c.breakoutConfirmBars ≤ barStreak c f pos s := by
  cases evaluateInner_bar evaluated with
  | idle _ _ other _ => exact absurd recentred (other layers)
  | processed reached later bar _ resets =>
      refine ⟨later, reached, bar, fun layer mem pos held => ?_⟩
      obtain rfl := resets layers recentred
      exact (observeLayers_bar held).2.2.mp mem

end Recentre

end Strategy

section Runs

open Semantics Strategy

variable {F : Type} [F64 F] {c : StrategyConfig F}

/-- A layer is recentred only with a processed frame outside its range, on one side, in each of
the last buckets which the configuration asks for. The streak restarts at a processed frame in
range, after a change of side and after a skipped bucket. A portfolio holds one position for a
layer. -/
theorem recenter_confirmed (continuity : Bool) (s : Strategy F)
    (fresh : ∀ layer, (s.layers.entry layer).outsideCount = 0) (frames : List (MarketFrame F))
    (earlier later : List (Strategy.Evaluation F)) (taken : Strategy.Evaluation F)
    (split : trace (fun f s => s.evaluateInner c f continuity) s frames =
      earlier ++ taken :: later) :
    (∀ layers, taken.output.lp = .recenter layers → ∀ layer ∈ layers,
      (∀ bar, Processed c continuity (earlier ++ [taken]) bar →
        bucket c taken.input < bucket c bar.input + c.breakoutConfirmBars →
        ∃ pos, Holds layer bar.input pos) →
      ∃ side : Int, (side = -1 ∨ side = 1) ∧ ∀ k < c.breakoutConfirmBars,
        ∃ bar, Processed c continuity (earlier ++ [taken]) bar ∧
          bucket c bar.input + k = bucket c taken.input ∧
          ∃ pos, Holds layer bar.input pos ∧
            breakoutSide c bar.input.pool.price pos = side) ∧
    (taken.reaches c continuity = true → taken.before.lastDecisionBar < bucket c taken.input →
      ∀ layer pos, Holds layer taken.input pos →
        (breakoutSide c taken.input.pool.price pos = 0 →
          (taken.after.layers.entry layer).outsideCount = 0) ∧
        (breakoutSide c taken.input.pool.price pos ≠ 0 →
          breakoutSide c taken.input.pool.price pos ≠
              (taken.before.layers.entry layer).outsideSide ∨
            taken.before.lastDecisionBar + 1 < bucket c taken.input →
          (taken.after.layers.entry layer).outsideCount =
            if c.breakoutConfirmBars ≤ 1 then 0 else 1)) := by
  obtain ⟨first, rest, rfl, rfl, restSplit⟩ := trace_eq_append _ split
  obtain ⟨f, _, rfl, rfl, -⟩ := trace_eq_cons _ restSplit.symm
  have start : Counted c continuity [] s := .init fresh
  have counted := start.run first
  rw [List.append_nil] at counted
  generalize run (fun f s => s.evaluateInner c f continuity) s first = u at counted ⊢
  generalize trace (fun f s => s.evaluateInner c f continuity) s first = earlier at counted ⊢
  obtain ⟨t, d, evaluated⟩ : ∃ t d, u.evaluateInner c f continuity = (t, d) := ⟨_, _, rfl⟩
  have taken : transition (fun f s => s.evaluateInner c f continuity) u f = ⟨u, f, t, d⟩ := by
    simp only [transition, evaluated]
  rw [taken]
  have after := counted.step evaluated
  have order : earlier ++ [⟨u, f, t, d⟩] =
      ((⟨u, f, t, d⟩ : Strategy.Evaluation F) :: earlier.reverse).reverse := by
    rw [List.reverse_cons, List.reverse_reverse]
  constructor
  · intro layers recentred layer mem held
    obtain ⟨beyond, reached, bar, confirmed⟩ := confirmed_of_recenter evaluated recentred
    have enters : Strategy.Evaluation.enters (⟨u, f, t, d⟩ : Strategy.Evaluation F) = true :=
      decide_eq_true (by change t.lastDecisionBar ≠ u.lastDecisionBar; omega)
    have first : ∀ bar ∈ (⟨u, f, t, d⟩ :: earlier.reverse : List (Strategy.Evaluation F)),
        bar.enters = true → Processed c continuity (earlier ++ [⟨u, f, t, d⟩]) bar := by
      intro bar inRun enters
      rw [order]
      exact after.processed_of_enters inRun enters
    rcases Nat.eq_zero_or_pos c.breakoutConfirmBars with none | some
    · exact ⟨1, .inr rfl, fun k less => absurd less (by omega)⟩
    · obtain ⟨pos, present⟩ := held _ (first _ List.mem_cons_self enters) (by
        change bucket c f < bucket c f + c.breakoutConfirmBars
        omega)
      have enough := confirmed layer mem pos present
      have backed := counted.backed_bar (t := t) (d := d) present beyond
      refine ⟨breakoutSide c f.pool.price pos, ?_, ?_⟩
      · rcases breakoutSide_cases (c := c) f.pool.price pos with below | above | inside
        · exact .inl below
        · exact .inr above
        · have none : barStreak c f pos u = 0 := by
            rw [barStreak_cases beyond (counted.start pos.layer), if_pos inside]
          omega
      · have listed : ∀ bar ∈ (⟨u, f, t, d⟩ :: earlier.reverse.filter
            Strategy.Evaluation.enters : List (Strategy.Evaluation F)),
            Processed c continuity (earlier ++ [⟨u, f, t, d⟩]) bar := by
          intro bar inBars
          rcases List.mem_cons.mp inBars with rfl | older
          · exact first _ List.mem_cons_self enters
          · obtain ⟨inRun, enters⟩ := List.mem_filter.mp older
            exact first bar (List.mem_cons_of_mem _ inRun) enters
        intro k less
        obtain ⟨bar, inBars, at_, side⟩ := backed.bars enough
          (fun bar inBars near => held bar (listed bar inBars) near) k less
        exact ⟨bar, listed bar inBars, at_, side⟩
  · intro reached beyond layer pos present
    have streak := barStreak_cases beyond (counted.start pos.layer)
    rw [present.layer_eq] at streak
    have counts : (t.layers.entry layer).outsideCount =
        if barStreak c f pos u ≥ c.breakoutConfirmBars then 0 else barStreak c f pos u := by
      cases evaluateInner_bar evaluated with
      | idle _ _ _ seen => exact absurd beyond (not_lt.mpr (seen reached))
      | processed _ _ _ layers _ =>
          rw [layers]
          exact (observeLayers_bar present).2.1
    constructor
    · intro inside
      rw [if_pos inside] at streak
      rw [counts, streak, ite_self]
    · intro outside restarts
      rw [if_neg outside, if_neg (by
        rintro ⟨same, next⟩
        rcases restarts with changed | skipped
        · exact changed same
        · have once : bucket c f = u.lastDecisionBar + 1 := next
          change u.lastDecisionBar + 1 < bucket c f at skipped
          omega)] at streak
      rw [counts, streak]

end Runs

namespace Shipped

open Semantics Strategy

/-- The position is adopted and the price stays above the range for two bars. -/
def breakingOut : List (MarketFrame ℚ) :=
  [heldFrame 10 1000 100 100, heldFrame 10 901000 112 112, heldFrame 10 1801000 112 112]

/-- The second bar recentres the layer. -/
theorem breaking_out_recenters :
    (trace (fun f s => s.evaluateInner shortBreakout.strategy f true) Strategy.default
        breakingOut).map (fun taken => taken.output.lp) = [.hold, .hold, .recenter ["core"]] ∧
      ∀ earlier later taken,
        trace (fun f s => s.evaluateInner shortBreakout.strategy f true) Strategy.default
            breakingOut = earlier ++ taken :: later →
        ∀ layers, taken.output.lp = .recenter layers → ∀ layer ∈ layers,
          (∀ bar, Processed shortBreakout.strategy true (earlier ++ [taken]) bar →
            bucket shortBreakout.strategy taken.input <
              bucket shortBreakout.strategy bar.input + 2 →
            ∃ pos, Holds layer bar.input pos) →
          ∃ side : Int, (side = -1 ∨ side = 1) ∧ ∀ k < 2,
            ∃ bar, Processed shortBreakout.strategy true (earlier ++ [taken]) bar ∧
              bucket shortBreakout.strategy bar.input + k =
                bucket shortBreakout.strategy taken.input ∧
              ∃ pos, Holds layer bar.input pos ∧
                breakoutSide shortBreakout.strategy bar.input.pool.price pos = side :=
  ⟨by decide +kernel, fun earlier later taken split =>
    (recenter_confirmed true Strategy.default (fun _ => rfl) breakingOut earlier later taken
      split).1⟩

end Shipped

end LpMaker
