import LpMaker.Engine.Workflow

/-!
# Safety of the workflow

Every transaction belongs to the decision on disk, which the same process began. After an
interruption nothing but an exit is begun, and every entry follows an accepted guard.
-/

namespace LpMaker.Live

open Semantics

variable {F : Type}

section Log

/-- The decision which the log leaves on disk. -/
def onDisk : List (Event F) → Option (Decision F)
  | [] => none
  | .began d :: _ => some d
  | .cleared :: _ => none
  | _ :: earlier => onDisk earlier

/-- The process which runs has begun the last workflow. -/
def current : List (Event F) → Bool
  | [] => false
  | .began _ :: _ => true
  | .cleared :: _ | .restarted :: _ => false
  | _ :: earlier => current earlier

/-- The transaction opens or enlarges a position, or buys for one. -/
def Mutation.enters : Mutation F → Bool
  | .mintLayer _ _ _ | .mintBoundedLayer _ _ _ | .increasePosition _ _ => true
  | .swapInventory sellBase _ => !sellBase
  | .removePosition _ => false

/-- The transaction opens or enlarges a position. -/
def Mutation.opens : Mutation F → Bool
  | .mintLayer _ _ _ | .mintBoundedLayer _ _ _ | .increasePosition _ _ => true
  | .swapInventory _ _ | .removePosition _ => false

/-- The value for which a position is opened. -/
def Mutation.mintValue : Mutation F → Option F
  | .mintLayer _ value _ | .mintBoundedLayer _ value _ => some value
  | .swapInventory _ _ | .removePosition _ | .increasePosition _ _ => none

variable [F64 F] (c : Config F)

/-- What the last workflow has minted. -/
def minted : List (Event F) → F
  | [] | .began _ :: _ => 0
  | .mutated m :: earlier => m.mintValue.getD 0 + minted earlier
  | _ :: earlier => minted earlier

/-- An entry guard has just accepted, and without a band all the base was hedged before. -/
def Guarded (earlier : List (Event F)) : Prop :=
  ∃ o x rest, earlier = .guarded o :: rest ∧
    Live.entryGuard c.strategy c.runtime.observationTimeoutSeconds o.started o.checkpoint o.frame =
      .ok x ∧
    (c.strategy.band = none →
      ∃ p before, rest = .hedged p.base true :: .inventory p :: before)

/-- What may happen after what happened before. -/
def Allowed (earlier : List (Event F)) : Event F → Prop
  | .began d => onDisk earlier = none ∨ d.lp = .exitToQuote
  | .mutated m => ∃ d, onDisk earlier = some d ∧ current earlier = true ∧
      (m.enters = true → d.lp.opens = true) ∧ (m.opens = true → Guarded c earlier) ∧
      ∀ value, m.mintValue = some value → c.strategy.Accepted →
        value + minted earlier ≤ c.strategy.lpBudget
  | .cleared | .restarted | .guarded _ | .inventory _ | .hedged _ _ => True

/-- Everything which happened was allowed. -/
def Orderly : List (Event F) → Prop
  | [] => True
  | event :: earlier => Allowed c earlier event ∧ Orderly earlier

/-- What holds at every moment. -/
structure Sound (w : World F) : Prop where
  workflow : w.workflow = onDisk w.log
  orderly : Orderly c w.log

/-- The decision is on disk, this process began it, and it has minted so much. -/
structure Open (d : Decision F) (spent : F) (w : World F) : Prop where
  stored : onDisk w.log = some d
  here : current w.log = true
  value : minted w.log = spent

end Log

variable [F64 F] {c : Config F} {w : World F} {d : Decision F} {spent : F}

section Rules

variable {α β : Type} {P : α → World F → Prop} {R : β → World F → Prop}

theorem spec_last {program : Program F α}
    (holds : (machine c).spec (Sound c) (program >>= pure) P w) :
    (machine c).spec (Sound c) program P w := by
  rwa [Semantics.Program.bind_pure_right] at holds

theorem bind_lift {result : Except String α} {rest : α → Program F β} (sound : Sound c w)
    (later : ∀ value, result = .ok value → (machine c).spec (Sound c) (rest value) R w) :
    (machine c).spec (Sound c) (lift result >>= rest) R w := by
  cases result with
  | ok value => exact later value rfl
  | error _ => exact Machine.spec_throw sound

/-- One operation, which fails or goes on. -/
theorem bind_call {op : Op F} {rest : op.Reply → Program F β} (sound : Sound c w)
    (holds : ∀ input, Sound c (step c op input w).2 ∧
      ∀ reply, (step c op input w).1 = .ok reply →
        (machine c).spec (Sound c) (rest reply) R (step c op input w).2) :
    (machine c).spec (Sound c) (call op >>= rest) R w :=
  Machine.spec_bind (Machine.spec_call sound fun input => holds input)

theorem bind_ask {op : Op F} {reply : Input F → World F → op.Reply}
    {rest : op.Reply → Program F β}
    (asks : ∀ input w, step c op input w = w.ask input (reply input w)) (sound : Sound c w)
    (later : ∀ input, (machine c).spec (Sound c) (rest (reply input w)) R w) :
    (machine c).spec (Sound c) (call op >>= rest) R w := by
  refine bind_call sound fun input => ?_
  rw [asks]
  unfold World.ask
  cases input.failure with
  | none =>
      refine ⟨sound, fun _ replied => ?_⟩
      cases replied
      exact later input
  | some _ => exact ⟨sound, fun _ replied => by cases replied⟩

/-- What is noted beside the workflow leaves it on disk. -/
theorem Sound.note {event : Event F} (sound : Sound c w) (allowed : Allowed c w.log event)
    (still : onDisk (event :: w.log) = onDisk w.log) : Sound c (w.note event) :=
  ⟨sound.workflow.trans still.symm, allowed, sound.orderly⟩

theorem bind_portfolio {rest : Portfolio F → Program F β} (sound : Sound c w)
    (later : ∀ p, Sound c (w.note (.inventory p)) →
      (machine c).spec (Sound c) (rest p) R (w.note (.inventory p))) :
    (machine c).spec (Sound c) (call .portfolio >>= rest) R w := by
  refine bind_call sound fun input => ?_
  simp only [step]
  cases input.failure with
  | none =>
      have noted : Sound c (w.note (.inventory input.portfolio)) := sound.note trivial rfl
      refine ⟨noted, fun _ replied => ?_⟩
      cases replied
      exact later _ noted
  | some _ => exact ⟨sound, fun _ replied => by cases replied⟩

theorem bind_hedge {target : F} {emergency : Bool} {rest : Unit → Program F β}
    (sound : Sound c w)
    (later : Sound c (w.note (.hedged target emergency)) →
      (machine c).spec (Sound c) (rest ()) R (w.note (.hedged target emergency))) :
    (machine c).spec (Sound c) (call (.hedge target emergency) >>= rest) R w := by
  refine bind_call sound fun input => ?_
  simp only [step]
  cases input.failure with
  | none =>
      have noted : Sound c (w.note (.hedged target emergency)) := sound.note trivial rfl
      exact ⟨noted, fun _ _ => later noted⟩
  | some _ => exact ⟨sound, fun _ replied => by cases replied⟩

theorem bind_guard {rest : Option (Feature F) → Program F β} (sound : Sound c w)
    (later : ∀ o x, Live.entryGuard c.strategy c.runtime.observationTimeoutSeconds o.started
        o.checkpoint o.frame = .ok x → Sound c (w.note (.guarded o)) →
      (machine c).spec (Sound c) (rest x) R (w.note (.guarded o))) :
    (machine c).spec (Sound c) (call .entryGuard >>= rest) R w := by
  refine bind_call sound fun input => ?_
  simp only [step]
  cases input.failure with
  | some _ => exact ⟨sound, fun _ replied => by cases replied⟩
  | none =>
      cases guards : guardOutcome c input.observation with
      | error _ => exact ⟨sound, fun _ replied => by cases replied⟩
      | ok x =>
          have noted : Sound c (w.note (.guarded input.observation)) := sound.note trivial rfl
          refine ⟨noted, fun _ replied => ?_⟩
          cases replied
          exact later _ x (mapError_eq_ok.mp guards) noted

/-- A transaction is noted whether or not it succeeds. -/
theorem bind_execute {m : Mutation F} {rest : Unit → Program F β} (sound : Sound c w)
    (allowed : Allowed c w.log (.mutated m))
    (later : Sound c (w.note (.mutated m)) →
      (machine c).spec (Sound c) (rest ()) R (w.note (.mutated m))) :
    (machine c).spec (Sound c) (call (.execute m) >>= rest) R w := by
  have noted : Sound c (w.note (.mutated m)) := sound.note allowed rfl
  refine bind_call sound fun input => ?_
  simp only [step, World.ask]
  cases input.failure with
  | none => exact ⟨noted, fun _ _ => later noted⟩
  | some _ => exact ⟨noted, fun _ replied => by cases replied⟩

theorem bind_write {value : Option (Decision F)} {rest : Unit → Program F β} (sound : Sound c w)
    (stored : Sound c (w.store value))
    (later : (machine c).spec (Sound c) (rest ()) R (w.store value)) :
    (machine c).spec (Sound c) (call (.writeWorkflow value) >>= rest) R w := by
  refine bind_call sound fun input => ?_
  simp only [step, World.write]
  cases input.failure with
  | none => exact ⟨stored, fun _ _ => later⟩
  | some _ =>
      dsimp only
      split_ifs with applied
      · exact ⟨stored, fun _ replied => by cases replied⟩
      · exact ⟨sound, fun _ replied => by cases replied⟩

end Rules

section Open

variable {event : Event F}

theorem Open.note (opened : Open d spent w) (still : onDisk (event :: w.log) = onDisk w.log)
    (same : current (event :: w.log) = current w.log)
    (nothing : minted (event :: w.log) = minted w.log) : Open d spent (w.note event) :=
  ⟨still.trans opened.stored, same.trans opened.here, nothing.trans opened.value⟩

/-- A transaction of the decision which is open, other than a mint. -/
theorem Open.mutated {m : Mutation F} {β : Type} {rest : Unit → Program F β}
    {R : β → World F → Prop} (opened : Open d spent w) (sound : Sound c w)
    (enters : m.enters = true → d.lp.opens = true)
    (guarded : m.opens = true → Guarded c w.log) (moves : m.mintValue = none)
    (later : ∀ w', Sound c w' → Open d spent w' → (machine c).spec (Sound c) (rest ()) R w') :
    (machine c).spec (Sound c) (call (.execute m) >>= rest) R w := by
  refine bind_execute sound ⟨d, opened.stored, opened.here, enters, guarded, ?_⟩ fun noted =>
    later _ noted (opened.note rfl rfl ?_)
  · intro value same
    rw [moves] at same
    cases same
  · rw [minted, moves]
    exact zero_add _

end Open

section Steps

theorem spec_balance {delta price : F} (sound : Sound c w) (opened : Open d spent w)
    (entry : d.lp.opens = true) :
    (machine c).spec (Sound c) (balance delta price) (fun _ w' => Open d spent w') w := by
  unfold balance
  by_cases moves : |delta| * price > 1
  · rw [if_pos moves]
    refine spec_last (opened.mutated sound (fun _ => entry) (fun opens => ?_) rfl
      fun w' sound' open' => Machine.spec_pure sound' open')
    cases opens
  · rw [if_neg moves]
    exact Machine.spec_pure sound opened

/-- Afterwards the whole inventory is hedged. -/
theorem spec_hedgeInventory (sound : Sound c w) (opened : Open d spent w) :
    (machine c).spec (Sound c) hedgeInventory (fun _ w' => Open d spent w' ∧
      ∃ p before, w'.log = .hedged p.base true :: .inventory p :: before) w := by
  refine bind_portfolio sound fun p sound => ?_
  refine spec_last (bind_hedge sound fun sound => Machine.spec_pure sound ⟨?_, p, w.log, rfl⟩)
  exact (opened.note rfl rfl rfl).note rfl rfl rfl

theorem spec_settleHedge (sound : Sound c w) (opened : Open d spent w) :
    (machine c).spec (Sound c) (settleHedge c) (fun _ w' => Open d spent w') w := by
  refine bind_portfolio sound fun p sound => ?_
  refine bind_ask (fun _ _ => rfl) sound fun input => ?_
  exact spec_last (bind_hedge sound fun sound =>
    Machine.spec_pure sound ((opened.note rfl rfl rfl).note rfl rfl rfl))

theorem spec_scalePosition {fraction : F} {pos : LpPosition F} (sound : Sound c w)
    (opened : Open d spent w) (entry : d.lp.opens = true) :
    (machine c).spec (Sound c) (scalePosition c fraction pos) (fun _ w' => Open d spent w') w := by
  refine bind_guard sound fun o x _ sound => ?_
  have opened : Open d spent (w.note (.guarded o)) := opened.note rfl rfl rfl
  refine bind_ask (fun _ _ => rfl) sound fun input => bind_lift sound fun layer _ => ?_
  refine bind_ask (fun _ _ => rfl) sound fun wallet => ?_
  obtain ⟨walletB, walletQ⟩ := wallet.amounts
  dsimp only
  split_ifs with small
  · exact Machine.spec_pure sound opened
  refine bind_lift sound fun _ _ => bind_lift sound fun l _ => ?_
  refine Machine.spec_bind (Machine.spec_mono (spec_balance sound opened entry) ?_)
  intro _ w₁ sound₁ opened₁
  refine Machine.spec_bind (Machine.spec_mono (spec_hedgeInventory sound₁ opened₁) ?_)
  rintro - w₂ sound₂ ⟨opened₂, p, before, hedged⟩
  refine bind_guard sound₂ fun o' x' accepted sound₃ => ?_
  have opened₃ : Open d spent (w₂.note (.guarded o')) := opened₂.note rfl rfl rfl
  refine spec_last (opened₃.mutated sound₃ (fun _ => entry)
    (fun _ => ⟨o', x', w₂.log, rfl, accepted, fun _ => ⟨p, before, hedged⟩⟩) rfl
    fun w' sound' open' => Machine.spec_pure sound' open')

theorem spec_scalePositions {fraction : F} {positions : List (LpPosition F)} (sound : Sound c w)
    (opened : Open d spent w) (entry : d.lp.opens = true) :
    (machine c).spec (Sound c) (scalePositions c fraction positions)
      (fun _ w' => Open d spent w') w := by
  induction positions generalizing w with
  | nil => exact Machine.spec_pure sound opened
  | cons pos positions inductionHypothesis =>
      refine Machine.spec_bind (Machine.spec_mono (spec_scalePosition sound opened entry) ?_)
      exact fun _ w' sound' opened' => inductionHypothesis sound' opened'

theorem spec_leave (sound : Sound c w) (opened : Open d spent w) :
    (machine c).spec (Sound c) leave (fun _ w' => Open d spent w') w := by
  refine bind_ask (fun _ _ => rfl) sound fun wallet => ?_
  have sold : (machine c).spec (Sound c) (sell wallet.amounts.1)
      (fun _ w' => Open d spent w') w := by
    unfold sell
    split_ifs with base
    · refine spec_last (opened.mutated sound (fun enters => ?_) (fun opens => ?_) rfl
        fun w' sound' open' => Machine.spec_pure sound' open')
      · cases enters
      · cases opens
    · exact Machine.spec_pure sound opened
  refine Machine.spec_bind (Machine.spec_mono sold fun _ w' sound' opened' => ?_)
  refine bind_ask (fun _ _ => rfl) sound' fun remaining => ?_
  exact spec_last (bind_hedge sound' fun sound =>
    Machine.spec_pure sound (opened'.note rfl rfl rfl))

theorem spec_baseRequirement {value width : F} {widths : Option (F × F)} (sound : Sound c w) :
    (machine c).spec (Sound c) (baseRequirement value width widths) (fun _ w' => w' = w) w := by
  unfold baseRequirement
  cases widths with
  | none =>
      exact spec_last (bind_ask (fun _ _ => rfl) sound fun _ => Machine.spec_pure sound rfl)
  | some ws =>
      exact spec_last (bind_ask (fun _ _ => rfl) sound fun _ => Machine.spec_pure sound rfl)

/-- Without a band the whole inventory is hedged before a layer is minted. -/
theorem spec_hedgeUnlessBand (sound : Sound c w) (opened : Open d spent w) :
    (machine c).spec (Sound c) (hedgeUnlessBand c) (fun _ w' => Open d spent w' ∧
      (c.strategy.band = none →
        ∃ p before, w'.log = .hedged p.base true :: .inventory p :: before)) w := by
  unfold hedgeUnlessBand
  split_ifs with band
  · refine Machine.spec_pure sound ⟨opened, fun none => ?_⟩
    rw [none] at band
    cases band
  · refine Machine.spec_mono (spec_hedgeInventory sound opened) ?_
    exact fun _ _ _ post => ⟨post.1, fun _ => post.2⟩

theorem spec_mint {l : LayerConfig F} {value : F} {widths : Option (F × F)} (sound : Sound c w)
    (opened : Open d spent w) (entry : d.lp.opens = true) (guarded : Guarded c w.log)
    (fits : c.strategy.Accepted → value * 0.998 + spent ≤ c.strategy.lpBudget) :
    (machine c).spec (Sound c) (mint l value widths)
      (fun _ w' => Open d (value * 0.998 + spent) w') w := by
  have allows {m : Mutation F} (worth : m.mintValue = some (value * 0.998)) :
      Allowed c w.log (.mutated m) := by
    refine ⟨d, opened.stored, opened.here, fun _ => entry, fun _ => guarded, ?_⟩
    intro value' same accepted
    rw [worth] at same
    cases same
    rw [opened.value]
    exact fits accepted
  have total : value * 0.998 + minted w.log = value * 0.998 + spent := by rw [opened.value]
  unfold mint
  cases widths with
  | none =>
      exact spec_last (bind_execute sound (allows rfl) fun noted =>
        Machine.spec_pure noted ⟨opened.stored, opened.here, total⟩)
  | some ws =>
      exact spec_last (bind_execute sound (allows rfl) fun noted =>
        Machine.spec_pure noted ⟨opened.stored, opened.here, total⟩)

theorem spec_buildLayer {value : F} {l : LayerConfig F} (sound : Sound c w)
    (opened : Open d spent w) (entry : d.lp.opens = true)
    (fits : c.strategy.Accepted → value * 0.998 + spent ≤ c.strategy.lpBudget) :
    (machine c).spec (Sound c) (buildLayer c value l)
      (fun _ w' => Open d (value * 0.998 + spent) w') w := by
  refine bind_guard sound fun o x _ sound => ?_
  have opened : Open d spent (w.note (.guarded o)) := opened.note rfl rfl rfl
  refine bind_lift sound fun widths _ => bind_ask (fun _ _ => rfl) sound fun input => ?_
  refine Machine.spec_bind (Machine.spec_mono (spec_baseRequirement sound) ?_)
  rintro targetBase w₁ - rfl
  refine bind_ask (fun _ _ => rfl) sound fun wallet => ?_
  refine Machine.spec_bind (Machine.spec_mono (spec_balance sound opened entry) ?_)
  intro _ w₂ sound₂ opened₂
  refine Machine.spec_bind (Machine.spec_mono (spec_hedgeUnlessBand sound₂ opened₂) ?_)
  rintro - w₃ sound₃ ⟨opened₃, hedged⟩
  refine bind_guard sound₃ fun o' x' accepted sound₄ => ?_
  have opened₄ : Open d spent (w₃.note (.guarded o')) := opened₃.note rfl rfl rfl
  exact spec_mint sound₄ opened₄ entry ⟨o', x', w₃.log, rfl, accepted, hedged⟩ fits

/-- The layers share the budget, and none of them is counted twice. -/
theorem spec_buildLayers {budget total : F} {layers : List (LayerConfig F)} (sound : Sound c w)
    (opened : Open d spent w) (entry : d.lp.opens = true)
    (known : ∀ l ∈ layers, l ∈ c.strategy.layers)
    (fits : c.strategy.Accepted →
      max (budget / total * 0.998) 0 * totalWeight layers + spent ≤ c.strategy.lpBudget) :
    (machine c).spec (Sound c) (buildLayers c budget total layers)
      (fun _ w' => ∃ spent, Open d spent w') w := by
  induction layers generalizing w spent with
  | nil => exact Machine.spec_pure sound ⟨spent, opened⟩
  | cons l layers inductionHypothesis =>
      obtain ⟨here, others⟩ := List.forall_mem_cons.mp known
      have share : budget * l.weight / total * 0.998 = budget / total * 0.998 * l.weight := by ring
      have split : totalWeight (l :: layers) = l.weight + totalWeight layers := rfl
      have step (accepted : c.strategy.Accepted) : max (budget / total * 0.998) 0 *
          totalWeight layers + (budget * l.weight / total * 0.998 + spent) ≤
            c.strategy.lpBudget := by
        have fit := fits accepted
        have most : budget / total * 0.998 * l.weight ≤ max (budget / total * 0.998) 0 * l.weight :=
          mul_le_mul_of_nonneg_right (le_max_left _ _) (accepted.weight_pos l here).le
        rw [split, mul_add] at fit
        rw [share]
        linarith
      refine Machine.spec_bind (Machine.spec_mono (spec_buildLayer sound opened entry ?_) ?_)
      · intro accepted
        have rest : 0 ≤ max (budget / total * 0.998) 0 * totalWeight layers := by
          refine mul_nonneg (le_max_right _ _) (List.sum_nonneg ?_)
          rintro _ mem
          obtain ⟨l', layer, rfl⟩ := List.mem_map.mp mem
          exact (accepted.weight_pos l' (others l' layer)).le
        linarith [step accepted]
      · exact fun _ w' sound' opened' => inductionHypothesis sound' opened' others step

omit [F64 F] in
theorem chosenLayers_sublist : (chosenLayers c d).Sublist c.strategy.layers := by
  unfold chosenLayers
  split
  · exact List.filter_sublist
  · exact List.Sublist.refl _

theorem totalWeight_chosen (accepted : c.strategy.Accepted) :
    0 ≤ totalWeight (chosenLayers c d) ∧ totalWeight (chosenLayers c d) ≤ 1 + 1e-8 := by
  have weights : ∀ x ∈ c.strategy.layers.map LayerConfig.weight, 0 ≤ x := by
    rintro _ mem
    obtain ⟨l, layer, rfl⟩ := List.mem_map.mp mem
    exact (accepted.weight_pos l layer).le
  have sub := (chosenLayers_sublist (c := c) (d := d)).map LayerConfig.weight
  refine ⟨List.sum_nonneg fun x mem => weights x (sub.subset mem), ?_⟩
  have all : totalWeight c.strategy.layers ≤ 1 + 1e-8 := by
    have close := (abs_lt.mp accepted.weights_sum).2
    unfold totalWeight
    linarith
  exact (sub.sum_le_sum weights).trans all

/-- What a rebuild spends on all its layers stays within the budget. -/
theorem rebuildBudget_le {available : F} (accepted : c.strategy.Accepted)
    (fraction : 0 ≤ chosenFraction d ∧ chosenFraction d ≤ 1) :
    max (rebuildBudget c d available / totalWeight (chosenLayers c d) * 0.998) 0 *
      totalWeight (chosenLayers c d) ≤ c.strategy.lpBudget := by
  obtain ⟨nonneg, bound⟩ := totalWeight_chosen (c := c) (d := d) accepted
  have budget := accepted.lpBudget_pos
  rcases nonneg.eq_or_lt with empty | positive
  · rw [← empty, mul_zero]
    exact budget.le
  rw [max_mul_of_nonneg _ _ nonneg, zero_mul]
  refine max_le ?_ budget.le
  have whole : rebuildBudget c d available / totalWeight (chosenLayers c d) * 0.998 *
      totalWeight (chosenLayers c d) = rebuildBudget c d available * 0.998 := by
    field_simp
  have share : c.strategy.lpBudget * chosenFraction d * totalWeight (chosenLayers c d) ≤
      c.strategy.lpBudget * 1 * (1 + 1e-8) := by
    gcongr
    exact fraction.2
  have least := min_le_left
    (c.strategy.lpBudget * chosenFraction d * totalWeight (chosenLayers c d)) available
  rw [whole, rebuildBudget]
  linarith

theorem spec_rebuild (sound : Sound c w) (opened : Open d 0 w) (entry : d.lp.opens = true)
    (fraction : 0 ≤ chosenFraction d ∧ chosenFraction d ≤ 1) :
    (machine c).spec (Sound c) (rebuild c d) (fun _ w' => ∃ spent, Open d spent w') w := by
  refine bind_ask (fun _ _ => rfl) sound fun input => ?_
  refine bind_ask (fun _ _ => rfl) sound fun wallet => ?_
  refine Machine.spec_bind (Machine.spec_mono
    (spec_buildLayers sound opened entry chosenLayers_sublist.subset fun accepted => ?_) ?_)
  · rw [add_zero]
    exact rebuildBudget_le accepted fraction
  · rintro - w' sound' ⟨spent, opened'⟩
    exact Machine.spec_mono (spec_settleHedge sound' opened') fun _ _ _ post => ⟨spent, post⟩

theorem spec_removePositions {positions : List (LpPosition F)} (sound : Sound c w)
    (opened : Open d spent w) :
    (machine c).spec (Sound c) (removePositions positions) (fun _ w' => Open d spent w') w := by
  induction positions generalizing w with
  | nil => exact Machine.spec_pure sound opened
  | cons pos positions inductionHypothesis =>
      refine opened.mutated sound (fun enters => ?_) (fun opens => ?_) rfl
        fun w' sound' opened' => inductionHypothesis sound' opened'
      · cases enters
      · cases opens

theorem spec_record (sound : Sound c w) :
    (machine c).spec (Sound c) (call .record) (fun _ w' => w' = w) w :=
  spec_last (bind_ask (fun _ _ => rfl) sound fun _ => Machine.spec_pure sound rfl)

theorem spec_rollWait (sound : Sound c w) :
    (machine c).spec (Sound c) (rollWait c d) (fun _ w' => w' = w) w := by
  unfold rollWait
  split
  · exact spec_record sound
  · exact Machine.spec_pure sound rfl

/-- A deployment into nothing was checked before. -/
def Fitting (d : Decision F) (portfolio : Portfolio F) : Prop :=
  ∀ fraction, d.lp = .deploy fraction → portfolio.positions = [] → 0 < fraction ∧ fraction ≤ 1

/-- A decision is carried out on its own record. -/
theorem spec_change {portfolio : Portfolio F} (sound : Sound c w) (opened : Open d 0 w)
    (moves : d.lp ≠ .hold) (fitting : Fitting d portfolio) :
    (machine c).spec (Sound c) (change c d portfolio) (fun _ w' => ∃ spent, Open d spent w') w := by
  unfold change
  split
  · rename_i fraction p positions intent _
    have entry : d.lp.opens = true := by rw [intent]; rfl
    refine Machine.spec_bind (Machine.spec_mono (spec_scalePositions sound opened entry) ?_)
    intro _ w' sound' opened'
    exact Machine.spec_mono (spec_settleHedge sound' opened') fun _ _ _ post => ⟨0, post⟩
  · rename_i other
    refine Machine.spec_bind (Machine.spec_mono (spec_removePositions sound opened) ?_)
    intro _ w₁ sound₁ opened₁
    refine Machine.spec_bind (Machine.spec_mono (spec_rollWait sound₁) ?_)
    rintro - w₂ - rfl
    split_ifs with exits
    · exact Machine.spec_mono (spec_leave sound₁ opened₁) fun _ _ _ post => ⟨0, post⟩
    cases intent : d.lp with
    | hold => exact absurd intent moves
    | exitToQuote => exact absurd intent exits
    | recenter layers =>
        refine spec_rebuild sound₁ opened₁ (by rw [intent]; rfl) ?_
        simp only [chosenFraction, intent]
        exact ⟨zero_le_one, le_refl 1⟩
    | deploy fraction =>
        have flat : portfolio.positions = [] := by
          cases positions : portfolio.positions with
          | nil => rfl
          | cons p rest => exact (other fraction p rest intent positions).elim
        obtain ⟨above, below⟩ := fitting fraction intent flat
        refine spec_rebuild sound₁ opened₁ (by rw [intent]; rfl) ?_
        simp only [chosenFraction, intent]
        exact ⟨above.le, below⟩

end Steps

section Whole

theorem spec_preflightEntry {portfolio : Portfolio F} (sound : Sound c w) :
    (machine c).spec (Sound c) (preflightEntry c d portfolio)
      (fun _ w' => w' = w ∧ Fitting d portfolio) w := by
  unfold preflightEntry
  cases intent : d.lp with
  | hold | exitToQuote | recenter _ =>
      refine Machine.spec_pure sound ⟨rfl, fun fraction same => ?_⟩
      rw [intent] at same
      cases same
  | deploy fraction =>
      dsimp only
      split_ifs with flat
      · refine bind_lift sound fun _ valid => bind_ask (fun _ _ => rfl) sound fun funds => ?_
        obtain ⟨equity, available⟩ := funds.amounts
        refine bind_lift sound fun _ _ => Machine.spec_ofExcept sound fun _ _ => ⟨rfl, ?_⟩
        intro fraction' same _
        rw [intent] at same
        cases same
        exact (ensure_eq_ok.mp valid).2
      · exact Machine.spec_pure sound ⟨rfl, fun _ _ empty => absurd empty flat⟩

theorem spec_continueUnhedged {failure : Failure} (sound : Sound c w) :
    (machine c).spec (Sound c) (continueUnhedged d failure) (fun _ w' => w' = w) w := by
  unfold continueUnhedged
  split_ifs with stays
  · exact Machine.spec_throw sound
  · refine bind_ask (fun _ _ => rfl) sound fun input => ?_
    split_ifs with stops
    · exact Machine.spec_throw sound
    · exact spec_record sound

theorem spec_protect {portfolio : Portfolio F} (sound : Sound c w) (opened : Open d spent w) :
    (machine c).spec (Sound c) (protect c d portfolio) (fun _ w' => Open d spent w') w := by
  unfold protect
  split_ifs with band
  · exact spec_last (bind_ask (fun _ _ => rfl) sound fun _ => Machine.spec_pure sound opened)
  · have hedges : ∀ input, Sound c (step c (.hedge portfolio.base true) input w).2 ∧
        Open d spent (step c (.hedge portfolio.base true) input w).2 := by
      intro input
      simp only [step]
      cases input.failure with
      | none => exact ⟨sound.note trivial rfl, opened.note rfl rfl rfl⟩
      | some _ => exact ⟨sound, opened⟩
    refine Machine.spec_bind (Machine.spec_tryCall sound fun input => ⟨(hedges input).1, ?_⟩)
    obtain ⟨sound', opened'⟩ := hedges input
    cases ((machine c).step (.hedge portfolio.base true) input w).1 with
    | ok _ => exact Machine.spec_pure sound' opened'
    | error failure =>
        refine Machine.spec_mono (spec_continueUnhedged sound') ?_
        rintro - _ - rfl
        exact opened'

theorem sound_store {value : Option (Decision F)} (sound : Sound c w)
    (allowed : ∀ d, value = some d → onDisk w.log = none ∨ d.lp = .exitToQuote) :
    Sound c (w.store value) := by
  cases value with
  | none => exact ⟨rfl, trivial, sound.orderly⟩
  | some d => exact ⟨rfl, allowed d rfl, sound.orderly⟩

/-- A decision begins where nothing is unfinished, unless it is an exit, and nothing is unfinished
when it has been carried out. -/
theorem spec_execute (sound : Sound c w) (moves : d.lp ≠ .hold)
    (ready : onDisk w.log = none ∨ d.lp = .exitToQuote) :
    (machine c).spec (Sound c) (execute c d) (fun _ w' => onDisk w'.log = none) w := by
  refine bind_portfolio sound fun portfolio sound => ?_
  refine Machine.spec_bind (Machine.spec_mono (spec_preflightEntry sound) ?_)
  rintro - _ - ⟨rfl, fitting⟩
  have begun : Sound c ((w.note (.inventory portfolio)).store (some d)) :=
    sound_store sound fun d' same => by cases same; exact ready
  refine bind_write sound begun ?_
  have opened : Open d 0 ((w.note (.inventory portfolio)).store (some d)) := ⟨rfl, rfl, rfl⟩
  refine Machine.spec_bind (Machine.spec_mono (spec_protect begun opened) ?_)
  intro _ w₂ sound₂ opened₂
  refine Machine.spec_bind (Machine.spec_mono (spec_change sound₂ opened₂ moves fitting) ?_)
  intro _ w₃ sound₃ _
  have cleared : Sound c (w₃.store none) := sound_store sound₃ fun _ same => by cases same
  exact spec_last (bind_write sound₃ cleared (Machine.spec_pure cleared rfl))

theorem spec_urgent (sound : Sound c w) :
    (machine c).spec (Sound c) (urgent d) (fun _ w' => onDisk w'.log = onDisk w.log) w := by
  unfold urgent
  split_ifs
  · exact Machine.spec_pure sound rfl
  · exact bind_portfolio sound fun p sound => Machine.spec_pure sound rfl
  · exact Machine.spec_pure sound rfl

theorem spec_apply (sound : Sound c w) (ready : onDisk w.log = none ∨ d.lp = .exitToQuote) :
    (machine c).spec (Sound c) (apply c d) (fun _ w' => onDisk w'.log = none) w := by
  unfold apply
  split_ifs with holds
  · have free : onDisk w.log = none := by
      rcases ready with free | exits
      · exact free
      · rw [holds] at exits
        cases exits
    refine Machine.spec_bind (Machine.spec_mono (spec_urgent sound) ?_)
    intro emergency w₁ sound₁ same
    exact spec_last (bind_hedge sound₁ fun sound => Machine.spec_pure sound (same.trans free))
  · exact spec_execute sound holds ready

theorem spec_recover {result : Except Failure Unit} (sound : Sound c w)
    (done : result = .ok () → onDisk w.log = none) :
    (machine c).spec (Sound c) (recover c result) (fun _ w' => onDisk w'.log = none) w := by
  cases result with
  | ok _ => exact Machine.spec_pure sound (done rfl)
  | error failure =>
      change (machine c).spec (Sound c) (exitOnRisk c failure) _ w
      unfold exitOnRisk
      split_ifs with other
      · exact Machine.spec_throw sound
      refine bind_ask (fun _ _ => rfl) sound fun input => ?_
      split_ifs with pending
      · exact Machine.spec_throw sound
      · exact bind_ask (fun _ _ => rfl) sound fun _ => spec_apply sound (.inr rfl)

theorem spec_perform {f : MarketFrame F} (sound : Sound c w) (free : onDisk w.log = none) :
    (machine c).spec (Sound c) (perform c d f) (fun _ w' => onDisk w'.log = none) w := by
  unfold perform
  split_ifs with holds
  · refine Machine.spec_bind (Machine.spec_mono (P := fun _ w' => onDisk w'.log = none) ?_ ?_)
    · refine bind_lift sound fun _ _ => bind_lift sound fun _ _ => ?_
      exact spec_last (bind_hedge sound fun sound => Machine.spec_pure sound free)
    · intro _ w₁ sound₁ free₁
      exact spec_last (bind_ask (fun _ _ => rfl) sound₁ fun _ => Machine.spec_pure sound₁ free₁)
  · refine Machine.spec_bind (Machine.spec_mono
      (Machine.spec_attempt (spec_apply sound (.inl free))) fun result w₁ sound₁ done => ?_)
    refine Machine.spec_bind (Machine.spec_mono (spec_recover sound₁ (done ())) ?_)
    intro _ w₂ sound₂ free₂
    refine bind_ask (fun _ _ => rfl) sound₂ fun _ => ?_
    exact bind_portfolio sound₂ fun p sound => Machine.spec_pure sound free₂

theorem spec_loop {decisions : List (Decision F × MarketFrame F)} (sound : Sound c w)
    (free : onDisk w.log = none) :
    (machine c).spec (Sound c) (loop c decisions) (fun _ w' => onDisk w'.log = none) w := by
  induction decisions generalizing w with
  | nil => exact Machine.spec_pure sound free
  | cons item rest inductionHypothesis =>
      obtain ⟨d, f⟩ := item
      refine Machine.spec_bind (Machine.spec_mono (spec_perform sound free) ?_)
      exact fun _ w' sound' free' => inductionHypothesis sound' free'

theorem spec_startup (sound : Sound c w) :
    (machine c).spec (Sound c) (startup c) (fun _ w' => onDisk w'.log = none) w := by
  have started : Sound c (w.note .restarted) := sound.note trivial rfl
  refine bind_call sound fun _ => ⟨started, fun _ _ => ?_⟩
  have reconciled : (machine c).spec (Sound c) reconcilePending
      (fun _ w' => w' = w.note .restarted) (w.note .restarted) := by
    refine bind_ask (fun _ _ => rfl) started fun input => ?_
    split_ifs with pending
    · exact spec_last (bind_ask (fun _ _ => rfl) started fun _ => Machine.spec_pure started rfl)
    · exact Machine.spec_pure started rfl
  refine Machine.spec_bind (Machine.spec_mono reconciled ?_)
  rintro - _ - rfl
  refine bind_portfolio started fun p sound₁ => bind_ask (fun _ _ => rfl) sound₁ fun _ => ?_
  refine bind_portfolio sound₁ fun p' sound₂ => bind_ask (fun _ _ => rfl) sound₂ fun _ => ?_
  refine bind_ask (fun _ _ => rfl) sound₂ fun _ => ?_
  split_ifs with unfinished
  · exact bind_ask (fun _ _ => rfl) sound₂ fun _ => spec_apply sound₂ (.inr rfl)
  · refine Machine.spec_pure sound₂ ?_
    rw [← sound₂.workflow]
    exact Option.not_isSome_iff_eq_none.mp unfinished

theorem spec_session {decisions : List (Decision F × MarketFrame F)} (sound : Sound c w) :
    (machine c).spec (Sound c) (session c decisions) (fun _ w' => onDisk w'.log = none) w := by
  refine Machine.spec_bind (Machine.spec_mono (spec_startup sound) ?_)
  exact fun _ w' sound' free => spec_loop sound' free

end Whole

open Shipped

section Sample

/-- Every venue answers, the wallet is full, and the market is calm. -/
def calmInput : Input ℚ where
  failure := none
  applied := false
  flag := false
  snapshot := alternating.pool
  portfolio := alternating.portfolio
  amounts := (6000, 6000)
  observation := ⟨alternating.nowMs, none, alternating⟩

/-- A deployment which is interrupted after the first layer, and the process after it. -/
def interruptedDeployment : List (List (Decision ℚ × MarketFrame ℚ) × List (Input ℚ)) :=
  [([(⟨"Active", [], .deploy 1, 0, false⟩, alternating)], List.replicate 22 calmInput),
    ([], List.replicate 40 calmInput)]

end Sample

/-- Where these processes leave a directory which was never used. -/
def reached (c : Config F) (runs : List (List (Decision F × MarketFrame F) × List (Input F))) :
    World F :=
  (machine c).sessions (session c) runs ⟨none, []⟩

theorem sound_reached (c : Config F)
    (runs : List (List (Decision F × MarketFrame F) × List (Input F))) :
    Sound c (reached c runs) :=
  @Machine.sessions_inv_of_spec _ _ _ _ _ _ (machine c) _ (session c) (Sound c) ⟨none, []⟩
    (fun _ _ w => onDisk w.log = none) ⟨rfl, trivial⟩ (fun _ _ sound => spec_session sound) runs

section History

variable {event : Event F} {log recent middle earlier : List (Event F)} {m : Mutation F}

theorem Orderly.allowed (orderly : Orderly c (recent ++ event :: earlier)) :
    Allowed c earlier event ∧ Orderly c earlier := by
  induction recent with
  | nil => exact orderly
  | cons _ recent inductionHypothesis => exact inductionHypothesis orderly.2

/-- Until the interrupted workflow is cleared, a process begins nothing but an exit. -/
theorem Orderly.exits_after_restart (orderly : Orderly c (middle ++ .restarted :: earlier))
    (interrupted : onDisk earlier ≠ none) (unfinished : .cleared ∉ middle) :
    onDisk (middle ++ .restarted :: earlier) ≠ none ∧
      (current (middle ++ .restarted :: earlier) = true →
        ∃ d, onDisk (middle ++ .restarted :: earlier) = some d ∧ d.lp = .exitToQuote) := by
  induction middle with
  | nil => exact ⟨interrupted, fun here => by cases here⟩
  | cons event middle inductionHypothesis =>
      obtain ⟨other, later⟩ := List.ne_and_not_mem_of_not_mem_cons unfinished
      obtain ⟨stored, exits⟩ := inductionHypothesis orderly.2 later
      cases event with
      | began d =>
          have leaves : d.lp = .exitToQuote := orderly.1.resolve_left stored
          exact ⟨Option.some_ne_none d, fun _ => ⟨d, rfl, leaves⟩⟩
      | cleared => exact absurd rfl other
      | restarted => exact ⟨stored, fun here => by cases here⟩
      | guarded _ | inventory _ | hedged _ _ | mutated _ => exact ⟨stored, exits⟩

theorem Orderly.minted_le (orderly : Orderly c log) (accepted : c.strategy.Accepted) :
    minted log ≤ c.strategy.lpBudget := by
  induction log with
  | nil => exact accepted.lpBudget_pos.le
  | cons event earlier inductionHypothesis =>
      have before := inductionHypothesis orderly.2
      cases event with
      | began d => exact accepted.lpBudget_pos.le
      | cleared | restarted | guarded _ | inventory _ | hedged _ _ => exact before
      | mutated m =>
          obtain ⟨⟨-, -, -, -, -, fits⟩, -⟩ := orderly
          cases worth : m.mintValue with
          | none =>
              rw [minted, worth, Option.getD_none, zero_add]
              exact before
          | some value =>
              rw [minted, worth]
              exact fits value worth accepted

end History

variable (c) (runs : List (List (Decision F × MarketFrame F) × List (Input F)))

/-- Wherever the processes stop and whatever fails: a transaction is attempted only while its
decision is on disk, by the process which began it, and it enters only for a decision which opens.
Between a restart which finds a workflow and its end there is nothing but an exit. -/
theorem workflow_never_continued :
    (∀ recent m earlier, (reached c runs).log = recent ++ .mutated m :: earlier →
      ∃ d, onDisk earlier = some d ∧ current earlier = true ∧
        (m.enters = true → d.lp.opens = true)) ∧
      ∀ recent m middle earlier,
        (reached c runs).log = recent ++ .mutated m :: (middle ++ .restarted :: earlier) →
        onDisk earlier ≠ none → .cleared ∉ middle →
        m.enters = false ∧ ∃ d, onDisk (middle ++ .restarted :: earlier) = some d ∧
          d.lp = .exitToQuote := by
  have orderly := (sound_reached c runs).orderly
  refine ⟨fun recent m earlier split => ?_, fun recent m middle earlier split stored open_ => ?_⟩
  · rw [split] at orderly
    obtain ⟨⟨d, stored, here, enters, -⟩, -⟩ := orderly.allowed
    exact ⟨d, stored, here, enters⟩
  · rw [split] at orderly
    obtain ⟨⟨d, onDisk, here, enters, -⟩, before⟩ := orderly.allowed
    obtain ⟨-, exits⟩ := before.exits_after_restart stored open_
    obtain ⟨d', same, leaves⟩ := exits here
    rw [onDisk] at same
    cases same
    refine ⟨Bool.eq_false_iff.mpr fun entry => ?_, d, onDisk, leaves⟩
    have opens := enters entry
    rw [leaves] at opens
    cases opens

/-- The first layer is minted, the process stops, and the next one sells. -/
theorem workflow_never_continued_interrupted :
    (reached (shortWindows 1.8) interruptedDeployment).log.length = 21 ∧
      (∀ recent m earlier, (reached (shortWindows 1.8) interruptedDeployment).log =
          recent ++ .mutated m :: earlier →
        ∃ d, onDisk earlier = some d ∧ current earlier = true ∧
          (m.enters = true → d.lp.opens = true)) ∧
        ∀ recent m middle earlier, (reached (shortWindows 1.8) interruptedDeployment).log =
            recent ++ .mutated m :: (middle ++ .restarted :: earlier) →
          onDisk earlier ≠ none → .cleared ∉ middle →
          m.enters = false ∧ ∃ d, onDisk (middle ++ .restarted :: earlier) = some d ∧
            d.lp = .exitToQuote :=
  ⟨by decide +kernel, workflow_never_continued (shortWindows 1.8) interruptedDeployment⟩

/-- Every position is opened or enlarged directly after an entry guard which accepts, and unless
the band keeps its short position, all the base there is was hedged right before that guard. -/
theorem entries_guarded :
    ∀ recent m earlier, (reached c runs).log = recent ++ .mutated m :: earlier → m.opens = true →
      ∃ o x rest, earlier = .guarded o :: rest ∧
        Live.entryGuard c.strategy c.runtime.observationTimeoutSeconds o.started o.checkpoint
          o.frame = .ok x ∧
        (c.strategy.band = none →
          ∃ p before, rest = .hedged p.base true :: .inventory p :: before) := by
  intro recent m earlier split opens
  have orderly := (sound_reached c runs).orderly
  rw [split] at orderly
  obtain ⟨⟨-, -, -, -, guarded, -⟩, -⟩ := orderly.allowed
  exact guarded opens

theorem entries_guarded_interrupted :
    (reached (shortWindows 1.8) interruptedDeployment).log.length = 21 ∧
      ∀ recent m earlier, (reached (shortWindows 1.8) interruptedDeployment).log =
          recent ++ .mutated m :: earlier → m.opens = true →
        ∃ o x rest, earlier = .guarded o :: rest ∧
          Live.entryGuard (shortWindows 1.8).strategy
            (shortWindows 1.8).runtime.observationTimeoutSeconds o.started o.checkpoint o.frame =
            .ok x ∧
          ((shortWindows 1.8).strategy.band = none →
            ∃ p before, rest = .hedged p.base true :: .inventory p :: before) :=
  ⟨by decide +kernel, entries_guarded (shortWindows 1.8) interruptedDeployment⟩

/-- One workflow never mints more than the budget of the strategy. -/
theorem minted_within_budget (parsers : Parsers) (valid : c.validate parsers = .ok ()) :
    minted (reached c runs).log ≤ c.strategy.lpBudget :=
  (sound_reached c runs).orderly.minted_le (Config.strategyAccepted valid)

theorem minted_within_budget_interrupted :
    minted (reached (shortWindows 1.8) (interruptedDeployment.take 1)).log = 3972.04 ∧
      minted (reached (shortWindows 1.8) (interruptedDeployment.take 1)).log ≤
        (shortWindows 1.8).strategy.lpBudget := by
  refine ⟨by decide +kernel, minted_within_budget (shortWindows 1.8)
    (interruptedDeployment.take 1) parsers ?_⟩
  exact Config.validate_eq_ok.mpr ⟨by decide +kernel, by decide +kernel, venues_valid false _⟩

end LpMaker.Live
