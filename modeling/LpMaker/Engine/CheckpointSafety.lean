import LpMaker.Engine.RearmSafety

/-!
# The checkpoint and the entry history

The first write of a save is the commit: before it a load finds what it found before, and after
it the new state. A marker or a saved established history makes every later load established,
and nothing takes an established history back.
-/

namespace LpMaker.Runner

open Semantics

variable {F : Type}

/-- A history was recorded or saved, or the directory said so at the start. -/
def settledBy (base : Bool) : List Event → Bool
  | [] => base
  | .recorded :: _ | .saved .established :: _ => true
  | _ :: earlier => settledBy base earlier

/-- Since the last load the state in memory has been established. -/
def firm : List Event → Bool
  | [] => false
  | .loaded history :: _ => history = .established
  | .confirmed history :: earlier | .stepped history :: earlier | .saved history :: earlier =>
      history = .established || firm earlier
  | _ :: earlier => firm earlier

/-- A load or a confirmation after a settled history is established, and an established state
stays established until the next load. -/
def OneWay (base : Bool) : List Event → Prop
  | [] => True
  | .loaded history :: earlier =>
      (settledBy base earlier = true → history = .established) ∧ OneWay base earlier
  | .confirmed history :: earlier =>
      (settledBy base earlier = true ∨ firm earlier = true → history = .established) ∧
        OneWay base earlier
  | .stepped history :: earlier | .saved history :: earlier =>
      (firm earlier = true → history = .established) ∧ OneWay base earlier
  | _ :: earlier => OneWay base earlier

namespace Files

/-- The history which a load reads. -/
def saved (files : Files F) : Option EntryHistory :=
  match files.checkpoint with
  | some checkpoint => some checkpoint.strategy.entryHistory
  | none => files.strategy.map Strategy.entryHistory

/-- The directory shows an earlier position. -/
def durable (files : Files F) : Bool :=
  files.lpHistory.isSome || files.saved = some .established

theorem durable_iff {files : Files F} :
    files.durable = true ↔ files.lpHistory.isSome ∨ files.saved = some .established := by
  simp [durable]

/-- What the recovery of the entry history reads of the directory. -/
def historyStore (files : Files F) : Recovery.HistoryStore :=
  ⟨files.registered, files.lpHistory, false, false⟩

end Files

/-- What a load returns on these files, if nothing fails. -/
def loaded [F64 F] (c : Config F) (now : Nat) (files : Files F) : Except String (Memory F) :=
  match files.checkpoint with
  | some checkpoint => do
      ensure (checkpoint.schema = 1 ∧ checkpoint.mode = c.mode)
        "checkpoint schema/mode mismatch; refusing to reset state"
      ensure (c.mode ≠ .paper ∨ checkpoint.paper.isSome) "paper checkpoint has no ledger"
      let s ← Recovery.restoreEntryHistory files.historyStore checkpoint.strategy
      .ok ⟨s, checkpoint.paper.getD (.new c now)⟩
  | none => do
      ensure (files.strategy.isSome ∨ files.baseline = false)
        ("risk state/checkpoint missing from an existing account; refusing to reset " ++
          "drawdown history")
      ensure (c.mode ≠ .paper ∨ files.strategy.isSome = files.paper.isSome)
        "incomplete legacy paper files; refusing to reset balances or risk phase"
      let s ← Recovery.restoreEntryHistory files.historyStore (files.strategy.getD .default)
      .ok ⟨s, files.paper.getD (.new c now)⟩

/-- The operations of components which leave the checkpoint alone. -/
def Op.aside : Op F → Prop
  | .writeCheckpoint _ | .writeStrategy _ => False
  | .note (.waived _) => True
  | .note _ => False
  | _ => True

/-- What an operation beside the checkpoint leaves in the log. -/
def Event.aside : Event → Prop
  | .recorded | .written _ | .waived _ | .executed _ => True
  | _ => False

/-- Later, with the checkpoint left alone and perhaps a marker written. -/
structure Aside (before after : World F) : Prop where
  checkpoint : after.files.checkpoint = before.files.checkpoint
  strategy : after.files.strategy = before.files.strategy
  marker : before.files.lpHistory.isSome → after.files.lpHistory.isSome
  log : ∃ events : List Event, after.log = events ++ before.log ∧
    ∀ event ∈ events, event.aside ∧ (event = .recorded → after.files.lpHistory.isSome)

namespace Aside

variable {w w' w'' : World F} {event : Event}

theorem refl : Aside w w := ⟨rfl, rfl, id, [], rfl, by simp⟩

theorem trans (first : Aside w w') (second : Aside w' w'') : Aside w w'' := by
  obtain ⟨earlier, same, aside⟩ := first.log
  obtain ⟨later, same', aside'⟩ := second.log
  refine ⟨second.checkpoint.trans first.checkpoint, second.strategy.trans first.strategy,
    fun marked => second.marker (first.marker marked), later ++ earlier,
    by rw [same', same, List.append_assoc], ?_⟩
  intro event mem
  rcases List.mem_append.mp mem with mem | mem
  · exact aside' event mem
  · exact ⟨(aside event mem).1, fun recorded => second.marker ((aside event mem).2 recorded)⟩

theorem effect {input : Input F} (aside : Aside w w') : Aside w (input.effect w w') := by
  unfold Input.effect
  split_ifs
  · exact aside
  · exact refl

theorem note (aside : event.aside) (other : event ≠ .recorded) : Aside w (w.note event) :=
  ⟨rfl, rfl, id, [event], rfl, by simpa [other] using aside⟩

theorem transact (input : Input F) : Aside w (w.transact input) := by
  unfold World.transact World.record
  dsimp only
  split_ifs
  · exact ⟨rfl, rfl, id, [], rfl, by simp⟩
  · exact ⟨rfl, rfl, fun _ => rfl, [.recorded], rfl, by simp [Event.aside]⟩
  · exact ⟨rfl, rfl, id, [], rfl, by simp⟩

theorem step {ids : Nat → String} {op : Op F} {input : Input F} (aside : op.aside) :
    Aside w (step ids op input w).2 := by
  cases op with
  | readCheckpoint | readStrategy | readPaper | readLpHistory | readRegistered | readBaseline
  | readPermit | now | outstanding _ | collateral | hold | positions => exact refl
  | writePaper _ | writeRegistered _ | writeBaseline | writeBackup _ _ =>
      exact effect ⟨rfl, rfl, id, [], rfl, by simp⟩
  | writeCheckpoint _ | writeStrategy _ => exact aside.elim
  | writeLpHistory =>
      exact effect ⟨rfl, rfl, fun _ => rfl, [.recorded], rfl, by simp [Event.aside]⟩
  | writePermit permit =>
      exact effect ⟨rfl, rfl, id, [.written permit], rfl, by simp [Event.aside]⟩
  | newId => exact ⟨rfl, rfl, id, [], rfl, by simp⟩
  | note event =>
      cases event with
      | waived _ => exact note trivial fun same => by cases same
      | _ => exact aside.elim
  | execute d waived =>
      simp only [Runner.step]
      split_ifs with deploys
      · exact (transact input).trans (note trivial fun same => by cases same)
      · exact transact input

theorem saved (aside : Aside w w') : w'.files.saved = w.files.saved := by
  unfold Files.saved
  rw [aside.checkpoint, aside.strategy]

theorem durable (aside : Aside w w') (durable : w.files.durable = true) :
    w'.files.durable = true := by
  rw [Files.durable_iff] at durable ⊢
  rw [aside.saved]
  exact durable.imp_left aside.marker

theorem firm_eq (aside : Aside w w') : firm w'.log = firm w.log := by
  obtain ⟨events, same, silent⟩ := aside.log
  rw [same]
  clear same
  induction events with
  | nil => rfl
  | cons event rest inductionHypothesis =>
      obtain ⟨here, later⟩ := List.forall_mem_cons.mp silent
      cases event with
      | recorded | written _ | waived _ | executed _ => exact inductionHypothesis later
      | _ => exact here.1.elim

theorem oneWay {base : Bool} (aside : Aside w w') (held : OneWay base w.log) :
    OneWay base w'.log := by
  obtain ⟨events, same, silent⟩ := aside.log
  rw [same]
  clear same
  induction events with
  | nil => exact held
  | cons event rest inductionHypothesis =>
      obtain ⟨here, later⟩ := List.forall_mem_cons.mp silent
      cases event with
      | recorded | written _ | waived _ | executed _ => exact inductionHypothesis later
      | _ => exact here.1.elim

/-- The history was settled before, or a marker has been written since. -/
theorem settledBy {base : Bool} (aside : Aside w w') (settled : settledBy base w'.log = true) :
    settledBy base w.log = true ∨ w'.files.lpHistory.isSome := by
  obtain ⟨events, same, silent⟩ := aside.log
  rw [same] at settled
  clear same
  induction events with
  | nil => exact .inl settled
  | cons event rest inductionHypothesis =>
      obtain ⟨here, later⟩ := List.forall_mem_cons.mp silent
      cases event with
      | recorded => exact .inr (here.2 rfl)
      | written _ | waived _ | executed _ => exact inductionHypothesis settled later
      | _ => exact here.1.elim

end Aside

/-- What every moment of a run keeps about the history. -/
structure HistoryInvariant (base : Bool) (w : World F) : Prop where
  oneWay : OneWay base w.log
  durable : settledBy base w.log = true → w.files.durable = true
  /-- A state which has been loaded was committed. -/
  committed : firm w.log = true → w.files.checkpoint.isSome

/-- A state in memory whose saving loses no history. -/
structure Fits (s : Strategy F) (w : World F) : Prop where
  firm : firm w.log = true → s.entryHistory = .established
  saved : w.files.lpHistory = none → w.files.saved = some .established →
    s.entryHistory = .established

/-- An operation on a state never takes an established history back. -/
def KeepsEstablished (s t : Strategy F) : Prop :=
  s.entryHistory = .established → t.entryHistory = .established

section Invariant

variable {base : Bool} {w w' : World F} {s t : Strategy F}

theorem Fits.aside (fits : Fits s w) (aside : Aside w w') (keeps : KeepsEstablished s t) :
    Fits t w' := by
  constructor
  · intro held
    rw [aside.firm_eq] at held
    exact keeps (fits.firm held)
  · intro unmarked saved
    rw [aside.saved] at saved
    have before : w.files.lpHistory = none := by
      cases marker : w.files.lpHistory with
      | none => rfl
      | some everOpened =>
          have marked := aside.marker (by simp [marker])
          simp [unmarked] at marked
    exact keeps (fits.saved before saved)

theorem HistoryInvariant.aside (inv : HistoryInvariant base w) (aside : Aside w w') :
    HistoryInvariant base w' where
  oneWay := aside.oneWay inv.oneWay
  durable := by
    intro settled
    rcases aside.settledBy settled with before | marked
    · exact aside.durable (inv.durable before)
    · exact Files.durable_iff.mpr (.inl marked)
  committed := by
    intro held
    rw [aside.firm_eq] at held
    rw [aside.checkpoint]
    exact inv.committed held

/-- What shows an earlier position makes the state established. -/
def Faithful (s : Strategy F) (w : World F) : Prop :=
  w.files.durable = true → s.entryHistory = .established

theorem Faithful.fits_saved (faithful : Faithful s w) (saved : w.files.saved = some .established) :
    s.entryHistory = .established :=
  faithful (Files.durable_iff.mpr (.inr saved))

theorem settledBy_cons {event : Event} {log : List Event} (same : event ≠ .recorded)
    (other : event ≠ .saved .established) : settledBy base (event :: log) = settledBy base log := by
  cases event with
  | recorded => exact absurd rfl same
  | saved history =>
      cases history with
      | established => exact absurd rfl other
      | initial | legacyUnknown => rfl
  | _ => rfl

/-- Committing a state which fits. -/
theorem HistoryInvariant.commit (checkpoint : Checkpoint F) (inv : HistoryInvariant base w)
    (fits : Fits checkpoint.strategy w) :
    HistoryInvariant base { w with
      files := { w.files with checkpoint := some checkpoint }
      log := .saved checkpoint.strategy.entryHistory :: w.log } where
  oneWay := ⟨fits.firm, inv.oneWay⟩
  durable := by
    intro settled
    rw [Files.durable_iff]
    by_cases established : checkpoint.strategy.entryHistory = .established
    · right
      simp [Files.saved, established]
    · have other : Event.saved checkpoint.strategy.entryHistory ≠ .saved .established := by
        simpa using established
      have settled : settledBy base w.log = true := settledBy_cons (by simp) other ▸ settled
      rcases Files.durable_iff.mp (inv.durable settled) with marked | saved
      · exact .inl marked
      · cases marker : w.files.lpHistory with
        | some _ => exact .inl (by simp)
        | none => exact absurd (fits.saved marker saved) established
  committed := fun _ => rfl

theorem Fits.commit (checkpoint : Checkpoint F) (fits : Fits checkpoint.strategy w) :
    Fits checkpoint.strategy { w with
      files := { w.files with checkpoint := some checkpoint }
      log := .saved checkpoint.strategy.entryHistory :: w.log } where
  firm := by
    intro held
    simp only [Runner.firm, Bool.or_eq_true, decide_eq_true_eq] at held
    exact held.elim id fits.firm
  saved := by
    intro _ saved
    simpa [Files.saved] using saved

end Invariant

/-- A state in memory after a load. -/
structure InMemory (s : Strategy F) (w : World F) : Prop extends Fits s w where
  committed : w.files.checkpoint.isSome

theorem InMemory.aside {s t : Strategy F} {w w' : World F} (held : InMemory s w)
    (aside : Aside w w') (keeps : KeepsEstablished s t) : InMemory t w' where
  toFits := held.toFits.aside aside keeps
  committed := by
    rw [aside.checkpoint]
    exact held.committed

theorem Op.plain.aside {op : Op F} (plain : op.plain) : op.aside := by
  cases op with
  | writeCheckpoint _ | writeStrategy _ | note _ => exact plain.elim
  | _ => trivial

theorem Op.rearms.aside {op : Op F} (rearms : op.rearms) : op.aside := by
  cases op with
  | writeCheckpoint _ | writeStrategy _ => exact rearms.elim
  | note event =>
      cases event with
      | waived _ => trivial
      | _ => exact rearms.elim
  | _ => trivial

section Programs

variable {ids : Nat → String} {base : Bool} {w : World F} {c : Config F} {m : Memory F}
  {s : Strategy F}

theorem aside_spec {α : Type} {program : Program F α} (uses : program.uses Op.aside)
    (inv : HistoryInvariant base w) :
    (machine ids).spec (HistoryInvariant base) program (fun _ w' => Aside w w') w := by
  have kept : (machine ids).wp (Aside w) program (fun _ w' => Aside w w') w :=
    (machine ids).wp_of_uses (fun op input _ aside held => held.trans (Aside.step aside)) uses
      Aside.refl
  have strengthened := Machine.wp_mono_inv kept fun _ aside => inv.aside aside
  exact Machine.wp_mono strengthened fun _ _ _ aside _ _ => aside

theorem beside_spec {α : Type} {program : Program F α} (uses : program.uses Op.plain)
    (inv : HistoryInvariant base w) :
    (machine ids).spec (HistoryInvariant base) program (fun _ w' => Aside w w') w :=
  aside_spec (Program.uses_mono uses fun _ => Op.plain.aside) inv

/-- The compatibility files say nothing beside a checkpoint. -/
structure Exported (before after : World F) : Prop where
  checkpoint : after.files.checkpoint = before.files.checkpoint
  marker : after.files.lpHistory = before.files.lpHistory
  log : after.log = before.log

theorem Exported.saved {w' : World F} (exported : Exported w w')
    (committed : w.files.checkpoint.isSome) : w'.files.saved = w.files.saved := by
  obtain ⟨checkpoint, held⟩ := Option.isSome_iff_exists.mp committed
  simp [Files.saved, exported.checkpoint, held]

theorem HistoryInvariant.exported {w' : World F} (inv : HistoryInvariant base w)
    (exported : Exported w w') (committed : w.files.checkpoint.isSome) :
    HistoryInvariant base w' where
  oneWay := exported.log ▸ inv.oneWay
  durable := by
    intro settled
    rw [exported.log] at settled
    have durable := Files.durable_iff.mp (inv.durable settled)
    rw [Files.durable_iff, exported.marker, exported.saved committed]
    exact durable
  committed := by
    intro _
    rw [exported.checkpoint]
    exact committed

theorem InMemory.exported {w' : World F} (held : InMemory s w) (exported : Exported w w') :
    InMemory s w' where
  firm := by
    intro firm
    rw [exported.log] at firm
    exact held.firm firm
  saved := by
    intro unmarked saved
    rw [exported.marker] at unmarked
    rw [exported.saved held.committed] at saved
    exact held.saved unmarked saved
  committed := by
    rw [exported.checkpoint]
    exact held.committed

/-- Writes of the compatibility files. -/
def Op.exports : Op F → Prop
  | .writeStrategy _ | .writePaper _ => True
  | _ => False

theorem Exported.step {w' : World F} {op : Op F} {input : Input F} (exports : op.exports)
    (exported : Exported w w') : Exported w (step ids op input w').2 := by
  cases op with
  | writeStrategy _ | writePaper _ =>
      simp only [Runner.step, Input.effect]
      split_ifs <;> exact ⟨exported.checkpoint, exported.marker, exported.log⟩
  | _ => exact exports.elim

theorem exportFiles_exports (checkpoint : Checkpoint F) :
    (exportFiles checkpoint).uses Op.exports := by
  refine Program.uses_bind (Program.uses_call.mpr trivial) fun _ => ?_
  cases checkpoint.paper with
  | some _ => exact Program.uses_call.mpr trivial
  | none => exact Program.uses_pure _

theorem exportFiles_spec (checkpoint : Checkpoint F) (inv : HistoryInvariant base w)
    (committed : w.files.checkpoint.isSome) :
    (machine ids).spec (HistoryInvariant base) (exportFiles checkpoint)
      (fun _ w' => Exported w w') w := by
  have kept : (machine ids).wp (Exported w) (exportFiles checkpoint)
      (fun _ w' => Exported w w') w :=
    (machine ids).wp_of_uses (fun _ _ _ exports exported => exported.step exports)
      (exportFiles_exports checkpoint) ⟨rfl, rfl, rfl⟩
  have strengthened := Machine.wp_mono_inv kept fun _ exported => inv.exported exported committed
  exact Machine.wp_mono strengthened fun _ _ _ exported _ _ => exported

/-- Saving commits a state which fits. -/
theorem save_spec (inv : HistoryInvariant base w) (fits : Fits m.strategy w) :
    (machine ids).spec (HistoryInvariant base) (save c m)
      (fun _ w' => InMemory m.strategy w' ∧ w'.files.checkpoint = some (.of c m) ∧
        w'.files.lpHistory = w.files.lpHistory) w := by
  have committed := inv.commit (.of c m) fits
  have held := fits.commit (.of c m)
  refine Machine.spec_bind (Machine.spec_call inv fun input => ⟨?_, fun _ replied => ?_⟩)
  · change HistoryInvariant base (input.effect w _)
    unfold Input.effect
    split_ifs
    · exact committed
    · exact inv
  · have written : (step ids (.writeCheckpoint (.of c m)) input w).2 = { w with
        files := { w.files with checkpoint := some (.of c m) }
        log := .saved m.strategy.entryHistory :: w.log } := effect_of_reply replied
    change (machine ids).spec (HistoryInvariant base) (exportFiles (.of c m)) _
      (step ids (.writeCheckpoint (.of c m)) input w).2
    rw [written]
    refine Machine.spec_mono (exportFiles_spec _ committed rfl) ?_
    intro _ w' _ exported
    have inMemory : InMemory m.strategy { w with
        files := { w.files with checkpoint := some (.of c m) }
        log := .saved m.strategy.entryHistory :: w.log } := ⟨held, rfl⟩
    exact ⟨inMemory.exported exported, exported.checkpoint, exported.marker⟩

theorem recordLpHistory_spec (inv : HistoryInvariant base w) :
    (machine ids).spec (HistoryInvariant base) recordLpHistory
      (fun _ w' => Aside w w' ∧
        Recovery.recordLpHistory w.files.historyStore = .ok w'.files.lpHistory) w := by
  refine Machine.spec_bind (spec_read (fun _ => rfl) inv fun _ history replied => ?_)
  have read : history = w.files.lpHistory := value_of_reply replied
  unfold Recovery.recordLpHistory Files.historyStore
  rw [← read]
  cases history with
  | some everOpened =>
      refine Machine.spec_ofExcept inv fun _ valid => ⟨Aside.refl, ?_⟩
      exact check_bind_eq_ok.mpr ⟨valid, congrArg _ read⟩
  | none =>
      have aside (input : Input F) : Aside w (step ids .writeLpHistory input w).2 :=
        Aside.step trivial
      refine Machine.spec_call inv fun input =>
        ⟨inv.aside (aside input), fun _ replied => ⟨aside input, ?_⟩⟩
      have written : (step ids (.writeLpHistory) input w).2 = { w with
        files := { w.files with lpHistory := some true }
        log := .recorded :: w.log } := effect_of_reply replied
      change _ = Except.ok (step ids (.writeLpHistory) input w).2.files.lpHistory
      rw [written]

/-- A marker makes the state established, which stays so. -/
theorem restoreEntryHistory_keeps {store : Recovery.HistoryStore} {s t : Strategy F}
    (restored : Recovery.restoreEntryHistory store s = .ok t) : KeepsEstablished s t := by
  intro established
  obtain ⟨history, marked, restored⟩ := bind_eq_ok.mp restored
  cases history with
  | some everOpened =>
      obtain ⟨-, restored⟩ := check_bind_eq_ok.mp restored
      cases restored
      rfl
  | none =>
      have unknown : ¬(s.entryHistory = .legacyUnknown ∧ s.phase = .warmup) := by
        simp [established]
      rw [if_neg unknown] at restored
      cases restored
      exact established

theorem restoreEntryHistory_spec (inv : HistoryInvariant base w) :
    (machine ids).spec (HistoryInvariant base) (restoreEntryHistory s)
      (fun t w' => Aside w w' ∧
        Recovery.restoreEntryHistory w.files.historyStore s = .ok t ∧
        (w'.files.lpHistory.isSome → t.entryHistory = .established)) w := by
  refine Machine.spec_bind (spec_read (fun _ => rfl) inv fun _ registered replied => ?_)
  have registry : registered = w.files.historyStore.registered := value_of_reply replied
  have evidence : (machine ids).spec (HistoryInvariant base) (recordEvidence registered s)
      (fun _ w' => Aside w w' ∧
        Recovery.lpHistory w.files.historyStore s = .ok w'.files.lpHistory) w := by
    unfold recordEvidence Recovery.lpHistory
    rw [registry]
    by_cases shown : (w.files.historyStore.registered || decide (s.entryHistory = .established)) = true
    · rw [if_pos shown, if_pos shown]
      exact recordLpHistory_spec inv
    · rw [if_neg shown, if_neg shown]
      exact Machine.spec_pure inv ⟨Aside.refl, rfl⟩
  refine Machine.spec_bind (Machine.spec_mono evidence ?_)
  rintro _ w₁ inv₁ ⟨aside, recovered⟩
  refine Machine.spec_bind (spec_read (fun _ => rfl) inv₁ fun _ history replied => ?_)
  have read : history = w₁.files.lpHistory := value_of_reply replied
  refine Machine.spec_ofExcept inv₁ fun t settled => ⟨aside, ?_, ?_⟩
  · unfold Recovery.restoreEntryHistory
    refine bind_eq_ok.mpr ⟨w₁.files.lpHistory, recovered, ?_⟩
    rw [← read]
    exact settled
  · intro marked
    rw [← read] at marked
    cases history with
    | none => cases marked
    | some everOpened =>
        obtain ⟨-, settled⟩ := check_bind_eq_ok.mp settled
        cases settled
        rfl

variable [F64 F]

theorem paperOrNew_spec {paper : Option (Paper F)} (inv : HistoryInvariant base w) :
    (machine ids).spec (HistoryInvariant base) (paperOrNew c paper)
      (fun found w' => w' = w ∧ ∃ now, found = paper.getD (.new c now)) w := by
  cases paper with
  | some paper => exact Machine.spec_pure inv ⟨rfl, 0, rfl⟩
  | none =>
      refine Machine.spec_bind (spec_read (fun _ => rfl) inv fun _ now _ => ?_)
      exact Machine.spec_pure inv ⟨rfl, now, rfl⟩

/-- A load computes the state of the files, which then shows every settled history. -/
def Loads (c : Config F) (w : World F) (m : Memory F) (w' : World F) : Prop :=
  (∃ now, loaded c now w.files = .ok m) ∧ Faithful m.strategy w' ∧ w'.files.checkpoint.isSome

theorem loadCheckpoint_spec {checkpoint : Checkpoint F} (inv : HistoryInvariant base w)
    (held : w.files.checkpoint = some checkpoint) :
    (machine ids).spec (HistoryInvariant base) (loadCheckpoint c checkpoint) (Loads c w) w := by
  refine Machine.spec_bind (Machine.spec_ofExcept inv fun _ schema => ?_)
  refine Machine.spec_bind (Machine.spec_ofExcept inv fun _ ledger => ?_)
  refine Machine.spec_bind (Machine.spec_mono (restoreEntryHistory_spec inv) ?_)
  rintro t w₁ inv₁ ⟨aside, restored, marked⟩
  have committed : w₁.files.checkpoint.isSome := by simp [aside.checkpoint, held]
  refine Machine.spec_bind (Machine.spec_mono (exportFiles_spec _ inv₁ committed) ?_)
  intro _ w₂ inv₂ exported
  refine Machine.spec_bind (Machine.spec_mono (paperOrNew_spec inv₂) ?_)
  rintro paper w₂ inv₂ ⟨rfl, now, found⟩
  refine Machine.spec_pure inv₂ ⟨⟨now, ?_⟩, ?_, by simp [exported.checkpoint, committed]⟩
  · unfold loaded
    rw [held]
    simp only [bind_eq_ok]
    exact ⟨(), schema, (), ledger, t, restored, by rw [found]⟩
  · intro durable
    rw [Files.durable_iff, exported.marker, exported.saved committed, aside.saved] at durable
    rcases durable with marker | saved
    · exact marked marker
    · refine restoreEntryHistory_keeps restored ?_
      simpa [Files.saved, held] using saved

omit [F64 F] in
theorem requireState_spec {strategy : Option (Strategy F)} (inv : HistoryInvariant base w) :
    (machine ids).spec (HistoryInvariant base) (requireState strategy)
      (fun _ w' => w' = w ∧ (strategy.isSome ∨ w.files.baseline = false)) w := by
  cases strategy with
  | some _ => exact Machine.spec_pure inv ⟨rfl, .inl rfl⟩
  | none =>
      refine Machine.spec_bind (spec_read (fun _ => rfl) inv fun _ baseline replied => ?_)
      have read : baseline = w.files.baseline := value_of_reply replied
      refine Machine.spec_ofExcept inv fun _ absent => ⟨rfl, .inr ?_⟩
      rw [← read]
      exact ensure_eq_ok.mp absent

theorem loadLegacy_spec (inv : HistoryInvariant base w) (absent : w.files.checkpoint = none) :
    (machine ids).spec (HistoryInvariant base) (loadLegacy c) (Loads c w) w := by
  refine Machine.spec_bind (spec_read (fun _ => rfl) inv fun _ strategy replied => ?_)
  have state : strategy = w.files.strategy := value_of_reply replied
  refine Machine.spec_bind (spec_read (fun _ => rfl) inv fun _ paper replied => ?_)
  have ledger : paper = w.files.paper := value_of_reply replied
  subst state ledger
  refine Machine.spec_bind (Machine.spec_mono (requireState_spec inv) ?_)
  rintro _ w₀ inv ⟨rfl, required⟩
  refine Machine.spec_bind (Machine.spec_ofExcept inv fun _ complete => ?_)
  refine Machine.spec_bind (Machine.spec_mono (restoreEntryHistory_spec inv) ?_)
  rintro t w₁ inv₁ ⟨aside, restored, marked⟩
  refine Machine.spec_bind (Machine.spec_mono (paperOrNew_spec inv₁) ?_)
  rintro paper w₁ inv₁ ⟨rfl, now, found⟩
  have uncommitted : w₁.files.checkpoint = none := aside.checkpoint.trans absent
  have saved : w₁.files.saved = some .established → t.entryHistory = .established := by
    intro saved
    refine restoreEntryHistory_keeps restored ?_
    rw [aside.saved, Files.saved, absent] at saved
    obtain ⟨before, held, established⟩ := Option.map_eq_some_iff.mp saved
    rw [held]
    exact established
  have fits : Fits t w₁ := by
    refine ⟨fun held => ?_, fun _ => saved⟩
    have committed := inv₁.committed held
    simp [uncommitted] at committed
  have commits : (machine ids).spec (HistoryInvariant base) (save c ⟨t, paper⟩)
      (fun _ w' => InMemory t w' ∧ w'.files.checkpoint = some (.of c ⟨t, paper⟩) ∧
        w'.files.lpHistory = w₁.files.lpHistory) w₁ := save_spec inv₁ fits
  refine Machine.spec_bind (Machine.spec_mono commits ?_)
  rintro _ w₂ inv₂ ⟨-, written, marker⟩
  refine Machine.spec_pure inv₂ ⟨⟨now, ?_⟩, ?_, by simp [written]⟩
  · unfold loaded
    rw [absent]
    simp only [bind_eq_ok]
    exact ⟨(), ensure_eq_ok.mpr required, (), complete, t, restored, by rw [found]⟩
  · intro durable
    rw [Files.durable_iff, marker] at durable
    rcases durable with marker | saved
    · exact marked marker
    · simpa [Files.saved, written, Checkpoint.of] using saved

theorem load_spec (inv : HistoryInvariant base w) :
    (machine ids).spec (HistoryInvariant base) (load c) (Loads c w) w := by
  refine Machine.spec_bind (spec_read (fun _ => rfl) inv fun _ checkpoint replied => ?_)
  have read : checkpoint = w.files.checkpoint := value_of_reply replied
  cases checkpoint with
  | some checkpoint => exact loadCheckpoint_spec inv read.symm
  | none => exact loadLegacy_spec inv read.symm

omit [F64 F] in
theorem keepsEstablished_observeLp (hasPositions : Bool) :
    KeepsEstablished s (s.observeLp hasPositions) := by
  intro established
  cases hasPositions with
  | true => rfl
  | false => exact established

/-- A confirmation is established where an earlier position is shown. -/
theorem confirmFirstEntry_spec (portfolio : Portfolio F) (inv : HistoryInvariant base w)
    (held : InMemory s w) :
    (machine ids).spec (HistoryInvariant base) (confirmFirstEntry portfolio s)
      (fun t w' => InMemory t w' ∧ Faithful t w') w := by
  refine Machine.spec_bind (Machine.spec_mono (restoreEntryHistory_spec inv) ?_)
  rintro t w₁ inv₁ ⟨aside, restored, marked⟩
  have keeps : KeepsEstablished s t := fun established =>
    restoreEntryHistory_keeps restored (keepsEstablished_observeLp _ established)
  have faithful : Faithful t w₁ := by
    intro durable
    by_cases marker : w₁.files.lpHistory.isSome
    · exact marked marker
    · rw [Files.durable_iff] at durable
      exact (held.aside aside keeps).saved (by simpa using marker) (durable.resolve_left marker)
  by_cases known : t.entryHistory ≠ .legacyUnknown ∨ t.phase = .halted
  · rw [if_pos known]
    exact Machine.spec_pure inv₁ ⟨held.aside aside keeps, faithful⟩
  · rw [if_neg known]
    have unknown : t.entryHistory ≠ .established := by
      intro established
      simp [established] at known
    refine Machine.spec_bind (spec_read (fun _ => rfl) inv₁ fun _ _ _ => ?_)
    refine Machine.spec_bind (spec_read (fun _ => rfl) inv₁ fun _ _ _ => ?_)
    refine Machine.spec_bind (Machine.spec_ofExcept inv₁ fun _ _ => ?_)
    refine Machine.spec_bind (Machine.spec_ofExcept inv₁ fun _ _ => ?_)
    refine Machine.spec_pure inv₁ ⟨held.aside aside fun established => ?_, fun durable => ?_⟩
    · exact absurd (keeps established) unknown
    · exact absurd (faithful durable) unknown

theorem evaluate_aside (setup : Setup F) (f : MarketFrame F) (inv : HistoryInvariant base w)
    (held : InMemory s w) :
    (machine ids).spec (HistoryInvariant base) (evaluate setup f s)
      (fun e w' => InMemory e.strategy w') w := by
  have uses : (evaluate setup f s).uses Op.aside :=
    Program.uses_mono (evaluate_rearms setup f s) fun _ => Op.rearms.aside
  have leaves : (machine ids).spec (HistoryInvariant base) (evaluate setup f s)
      (fun _ w' => Aside w w') w := aside_spec uses inv
  have computes : (machine ids).spec (fun _ => True) (evaluate setup f s)
      (fun e _ => Computes setup f s w e) w := evaluate_computes setup f s
  refine Machine.wp_mono_inv (Machine.spec_mono (Machine.spec_and leaves computes) ?_)
    fun _ held => held.1
  rintro e w' - ⟨aside, _, _, _, -, evaluated, -⟩
  exact held.aside aside (evaluate_keepsHistory evaluated).of_established

theorem deferEntry_entryHistory (previous : Strategy F) (portfolio : Portfolio F)
    (d : Decision F) : (deferEntry previous portfolio s d).1.entryHistory = s.entryHistory := by
  unfold deferEntry
  dsimp only
  split_ifs <;> rfl

theorem preflight_aside (previous : Strategy F) (portfolio : Portfolio F) {e : Evaluated F}
    (inv : HistoryInvariant base w) (held : InMemory e.strategy w) :
    (machine ids).spec (HistoryInvariant base) (preflight c previous portfolio e)
      (fun decided w' => InMemory decided.strategy w') w := by
  unfold preflight
  cases c.mode with
  | live =>
      refine Machine.spec_bind
        (Machine.spec_mono (beside_spec (preflightEntry_plain c _ _) inv) ?_)
      intro funded w' inv' aside
      refine Machine.spec_pure inv' (held.aside aside fun established => ?_)
      unfold Evaluated.deferUnless
      cases funded with
      | true => exact established
      | false => exact (deferEntry_entryHistory ..).trans established
  | paper => exact Machine.spec_pure inv held

omit [F64 F] in
theorem commit_inMemory (setup : Setup F) (d : Decision F) (inv : HistoryInvariant base w)
    (held : InMemory m.strategy w) :
    (machine ids).spec (HistoryInvariant base) (commit setup d m)
      (fun _ w' => InMemory m.strategy w') w := by
  unfold commit
  cases setup.config.mode with
  | live =>
      have uses : (consume setup d).uses Op.aside :=
        Program.uses_mono (consume_rearms setup d) fun _ => Op.rearms.aside
      refine Machine.spec_bind (Machine.spec_mono (aside_spec uses inv) ?_)
      intro _ w₁ inv₁ aside
      refine Machine.spec_mono (save_spec inv₁ (held.aside aside id).toFits) ?_
      rintro _ w₂ - ⟨held₂, -⟩
      exact held₂
  | paper => exact Machine.spec_pure inv held

theorem keepsEstablished_finishWorkflowRecovery (paused invalidated : Nat) :
    KeepsEstablished s (Recovery.finishWorkflowRecovery paused invalidated s) := by
  intro established
  unfold Recovery.finishWorkflowRecovery
  dsimp only
  split_ifs <;> exact established

theorem leaveOnRisk_keeps (done : Bool) (inv : HistoryInvariant base w) (held : InMemory s w) :
    (machine ids).spec (HistoryInvariant base) (leaveOnRisk done s)
      (fun t w' => InMemory t w') w := by
  cases done with
  | true => exact Machine.spec_pure inv held
  | false =>
      refine Machine.spec_bind (spec_read (fun _ => rfl) inv fun _ pending _ => ?_)
      refine Machine.spec_bind (Machine.spec_ofExcept inv fun _ _ => ?_)
      have execution : (call (.execute riskExit none) : Program F Bool).uses Op.aside :=
        Program.uses_call.mpr trivial
      refine Machine.spec_bind (Machine.spec_mono (aside_spec execution inv) ?_)
      intro left w₁ inv₁ aside
      refine Machine.spec_bind (Machine.spec_ofExcept inv₁ fun _ _ => ?_)
      refine Machine.spec_bind (spec_read (fun _ => rfl) inv₁ fun _ paused _ => ?_)
      refine Machine.spec_bind (spec_read (fun _ => rfl) inv₁ fun _ invalidated _ => ?_)
      exact Machine.spec_pure inv₁
        (held.aside aside (keepsEstablished_finishWorkflowRecovery paused invalidated))

theorem performLive_keeps (f : MarketFrame F) (decided : Decided F)
    (inv : HistoryInvariant base w) (held : InMemory m.strategy w) :
    (machine ids).spec (HistoryInvariant base) (performLive f decided m)
      (fun m' w' => InMemory m'.strategy w') w := by
  unfold performLive
  split_ifs
  · refine Machine.spec_bind (spec_read (fun _ => rfl) inv fun _ _ _ => ?_)
    exact Machine.spec_pure inv (held.aside Aside.refl (keepsEstablished_observeLp _))
  · have execution : (call (.execute decided.decision decided.waived) :
        Program F Bool).uses Op.aside := Program.uses_call.mpr trivial
    refine Machine.spec_bind (Machine.spec_mono (aside_spec execution inv) ?_)
    intro done w₁ inv₁ aside
    refine Machine.spec_bind
      (Machine.spec_mono (leaveOnRisk_keeps done inv₁ (held.aside aside id)) ?_)
    intro t w₂ inv₂ held₂
    refine Machine.spec_bind (spec_read (fun _ => rfl) inv₂ fun _ present _ => ?_)
    refine Machine.spec_bind
      (Machine.spec_mono (beside_spec (recordPositions_plain present) inv₂) ?_)
    intro _ w₃ inv₃ aside₃
    exact Machine.spec_pure inv₃ (held₂.aside aside₃ (keepsEstablished_observeLp _))

theorem performPaper_keeps (f : MarketFrame F) (d : Decision F) (inv : HistoryInvariant base w)
    (held : InMemory m.strategy w) :
    (machine ids).spec (HistoryInvariant base) (performPaper c f d m)
      (fun m' w' => InMemory m'.strategy w') w := by
  refine Machine.spec_bind (Machine.spec_ofExcept inv fun widths _ => ?_)
  refine Machine.spec_bind (Machine.spec_ofExcept inv fun paper _ => ?_)
  have observed := held.aside Aside.refl
    (keepsEstablished_observeLp (!paper.portfolio.positions.isEmpty))
  refine Machine.spec_bind (Machine.spec_mono (save_spec inv observed.toFits) ?_)
  rintro _ w' inv' ⟨held', -⟩
  exact Machine.spec_pure inv' held'

theorem perform_keeps (f : MarketFrame F) (decided : Decided F) (inv : HistoryInvariant base w)
    (held : InMemory m.strategy w) :
    (machine ids).spec (HistoryInvariant base) (perform c f decided m)
      (fun m' w' => InMemory m'.strategy w') w := by
  unfold perform
  split_ifs
  · exact Machine.spec_pure inv held
  · cases c.mode with
    | live => exact performLive_keeps f decided inv held
    | paper => exact performPaper_keeps f decided.decision inv held

theorem observe_keeps (o : Observed F) (inv : HistoryInvariant base w)
    (held : InMemory m.strategy w) :
    (machine ids).spec (HistoryInvariant base) (observe c o m)
      (fun observed w' => InMemory observed.1.strategy w') w := by
  unfold observe
  cases c.mode with
  | live =>
      refine Machine.spec_bind (Machine.spec_mono (beside_spec (recordPositions_plain _) inv) ?_)
      intro _ w' inv' aside
      exact Machine.spec_pure inv' (held.aside aside id)
  | paper => exact Machine.spec_pure inv held

theorem iterate_keeps (setup : Setup F) (o : Observed F) (inv : HistoryInvariant base w)
    (held : InMemory m.strategy w) :
    (machine ids).spec (HistoryInvariant base) (iterate setup o m)
      (fun m' w' => InMemory m'.strategy w') w := by
  refine Machine.spec_bind (Machine.spec_mono (observe_keeps o inv held) ?_)
  intro observed w₁ inv₁ held₁
  refine Machine.spec_bind (Machine.spec_ofExcept inv₁ fun _ _ => ?_)
  refine Machine.spec_bind (Machine.spec_ofExcept inv₁ fun _ _ => ?_)
  refine Machine.spec_bind (Machine.spec_mono (beside_spec equityBaseline_plain inv₁) ?_)
  intro _ w₂ inv₂ aside
  refine Machine.spec_bind
    (Machine.spec_mono (evaluate_aside setup _ inv₂ (held₁.aside aside id)) ?_)
  intro evaluated w₃ inv₃ held₃
  refine Machine.spec_bind (Machine.spec_mono (preflight_aside _ _ inv₃ held₃) ?_)
  intro decided w₄ inv₄ held₄
  refine Machine.spec_bind (Machine.spec_mono (commit_inMemory setup _ inv₄ held₄) ?_)
  intro _ w₅ inv₅ held₅
  refine Machine.spec_bind (Machine.spec_mono (perform_keeps _ decided inv₅ held₅) ?_)
  intro m' w₆ inv₆ held₆
  refine Machine.spec_bind (Machine.spec_mono (save_spec inv₆ held₆.toFits) ?_)
  rintro _ w₇ inv₇ ⟨held₇, -⟩
  exact Machine.spec_pure inv₇ held₇

omit [F64 F] in
theorem HistoryInvariant.step_noted {history : EntryHistory} (inv : HistoryInvariant base w)
    (held : InMemory s w) (same : history = s.entryHistory) :
    HistoryInvariant base (w.note (.stepped history)) ∧
      InMemory s (w.note (.stepped history)) := by
  subst same
  refine ⟨⟨⟨held.firm, inv.oneWay⟩, inv.durable, fun _ => held.committed⟩,
    ⟨fun firm => ?_, held.saved⟩, held.committed⟩
  simp only [World.note, Runner.firm, Bool.or_eq_true, decide_eq_true_eq] at firm
  exact firm.elim id held.firm

omit [F64 F] in
theorem HistoryInvariant.confirm_noted {history : EntryHistory} (inv : HistoryInvariant base w)
    (held : InMemory s w) (faithful : Faithful s w) (same : history = s.entryHistory) :
    HistoryInvariant base (w.note (.confirmed history)) ∧
      InMemory s (w.note (.confirmed history)) := by
  subst same
  have settles : settledBy base w.log = true ∨ firm w.log = true →
      s.entryHistory = .established := by
    rintro (settled | firm)
    · exact faithful (inv.durable settled)
    · exact held.firm firm
  refine ⟨⟨⟨settles, inv.oneWay⟩, inv.durable, fun _ => held.committed⟩,
    ⟨fun firm => ?_, held.saved⟩, held.committed⟩
  simp only [World.note, Runner.firm, Bool.or_eq_true, decide_eq_true_eq] at firm
  exact firm.elim id held.firm

omit [F64 F] in
theorem HistoryInvariant.load_noted {history : EntryHistory} (inv : HistoryInvariant base w)
    (faithful : Faithful s w) (committed : w.files.checkpoint.isSome)
    (same : history = s.entryHistory) :
    HistoryInvariant base (w.note (.loaded history)) ∧
      InMemory s (w.note (.loaded history)) := by
  subst same
  refine ⟨⟨⟨fun settled => faithful (inv.durable settled), inv.oneWay⟩, inv.durable,
      fun _ => committed⟩,
    ⟨fun firm => ?_, fun _ saved => faithful (Files.durable_iff.mpr (.inr saved))⟩, committed⟩
  simpa [World.note, Runner.firm] using firm

theorem pauseIncompleteInventory_keepsEstablished (actualLayers : List String)
    (paused invalidated : Nat) :
    KeepsEstablished s
      (Recovery.pauseIncompleteInventory actualLayers c paused invalidated s).1 := by
  intro established
  unfold Recovery.pauseIncompleteInventory
  split_ifs <;> exact established

theorem command_keeps (setup : Setup F) (command : Command F) (inv : HistoryInvariant base w)
    (held : InMemory m.strategy w) :
    (machine ids).spec (HistoryInvariant base) (command.run setup m)
      (fun m' w' => InMemory m'.strategy w') w := by
  cases command with
  | iterate o => exact iterate_keeps setup o inv held
  | arm actual =>
      have uses : (arm setup m.strategy actual).uses Op.aside :=
        Program.uses_mono (arm_rearms setup _ actual) fun _ => Op.rearms.aside
      refine Machine.spec_bind (Machine.spec_mono (aside_spec uses inv) ?_)
      intro _ w' inv' aside
      exact Machine.spec_pure inv' (held.aside aside id)
  | save =>
      refine Machine.spec_bind (Machine.spec_mono (save_spec inv held.toFits) ?_)
      rintro _ w' inv' ⟨held', -⟩
      exact Machine.spec_pure inv' held'
  | confirmFirstEntry portfolio =>
      refine Machine.spec_bind (Machine.spec_mono (confirmFirstEntry_spec portfolio inv held) ?_)
      rintro t w₁ inv₁ ⟨held₁, faithful⟩
      obtain ⟨inv₂, held₂⟩ := inv₁.confirm_noted held₁ faithful rfl
      refine Machine.spec_bind (Machine.spec_call inv₁ fun _ => ⟨inv₂, fun _ _ => ?_⟩)
      exact Machine.spec_pure inv₂ held₂
  | recordLpHistory =>
      refine Machine.spec_bind (Machine.spec_mono (beside_spec recordLpHistory_plain inv) ?_)
      intro _ w' inv' aside
      exact Machine.spec_pure inv' (held.aside aside id)
  | register registered =>
      have uses : (call (.writeRegistered registered) : Program F Unit).uses Op.plain :=
        Program.uses_call.mpr trivial
      refine Machine.spec_bind (Machine.spec_mono (beside_spec uses inv) ?_)
      intro _ w' inv' aside
      exact Machine.spec_pure inv' (held.aside aside id)
  | observeLp hasPositions =>
      exact Machine.spec_pure inv
        (held.aside Aside.refl (keepsEstablished_observeLp hasPositions))
  | prepareObservationRevalidation | invalidateObservationStreaks _ =>
      exact Machine.spec_pure inv (held.aside Aside.refl fun established => established)
  | finishWorkflowRecovery paused invalidated =>
      exact Machine.spec_pure inv
        (held.aside Aside.refl (keepsEstablished_finishWorkflowRecovery paused invalidated))
  | pauseIncompleteInventory actualLayers paused invalidated =>
      exact Machine.spec_pure inv (held.aside Aside.refl
        (pauseIncompleteInventory_keepsEstablished actualLayers paused invalidated))

theorem commands_keep (setup : Setup F) (list : List (Command F))
    (inv : HistoryInvariant base w) (held : InMemory m.strategy w) :
    (machine ids).spec (HistoryInvariant base) (commands setup list m) (fun _ _ => True) w := by
  induction list generalizing m w with
  | nil => exact Machine.spec_pure inv trivial
  | cons command rest inductionHypothesis =>
      refine Machine.spec_bind (Machine.spec_mono (command_keeps setup command inv held) ?_)
      intro m' w₁ inv₁ held₁
      obtain ⟨inv₂, held₂⟩ := inv₁.step_noted held₁ rfl
      exact Machine.spec_bind (Machine.spec_call inv₁ fun _ =>
        ⟨inv₂, fun _ _ => inductionHypothesis inv₂ held₂⟩)

theorem session_keeps (setup : Setup F) (list : List (Command F))
    (inv : HistoryInvariant base w) :
    (machine ids).spec (HistoryInvariant base) (session setup list) (fun _ _ => True) w := by
  refine Machine.spec_bind (Machine.spec_mono (load_spec inv) ?_)
  rintro m w₁ inv₁ ⟨-, faithful, committed⟩
  obtain ⟨inv₂, held⟩ := inv₁.load_noted faithful committed rfl
  exact Machine.spec_bind (Machine.spec_call inv₁ fun _ =>
    ⟨inv₂, fun _ _ => commands_keep setup list inv₂ held⟩)

end Programs

section Atomic

variable [F64 F] {ids : Nat → String} {c : Config F} {m : Memory F} {w w' : World F}

/-- The checkpoint is the new one, and the evidence of an earlier position is as before. -/
structure Committed (c : Config F) (m : Memory F) (before after : World F) : Prop where
  checkpoint : after.files.checkpoint = some (.of c m)
  marker : after.files.lpHistory = before.files.lpHistory
  registered : after.files.registered = before.files.registered

omit [F64 F] in
theorem Committed.step {op : Op F} {input : Input F} (committed : Committed c m w w')
    (exports : op.exports) : Committed c m w (step ids op input w').2 := by
  cases op with
  | writeStrategy _ | writePaper _ =>
      simp only [Runner.step, Input.effect]
      split_ifs <;> exact ⟨committed.checkpoint, committed.marker, committed.registered⟩
  | _ => exact exports.elim

omit [F64 F] in
/-- At each moment of a save the files are those of before, or the checkpoint is committed. -/
theorem save_commits :
    (machine ids).spec (fun w' => w'.files = w.files ∨ Committed c m w w') (save c m)
      (fun _ w' => Committed c m w w') w := by
  refine Machine.spec_bind (Machine.spec_call (.inl rfl) fun input => ⟨?_, fun _ replied => ?_⟩)
  · change (input.effect w _).files = w.files ∨ Committed c m w (input.effect w _)
    unfold Input.effect
    split_ifs
    · exact .inr ⟨rfl, rfl, rfl⟩
    · exact .inl rfl
  · have written : (step ids (.writeCheckpoint (.of c m)) input w).2 = { w with
        files := { w.files with checkpoint := some (.of c m) }
        log := .saved m.strategy.entryHistory :: w.log } := effect_of_reply replied
    have committed : Committed c m w (step ids (.writeCheckpoint (.of c m)) input w).2 := by
      rw [written]
      exact ⟨rfl, rfl, rfl⟩
    have kept := (machine ids).wp_of_uses
      (fun _ _ _ exports committed => Committed.step committed exports)
      (exportFiles_exports (.of c m)) committed
    exact Machine.wp_mono (Machine.wp_mono_inv kept fun _ => .inr)
      fun _ _ _ committed _ _ => committed

/-- What a load returns of a committed state. -/
def reloaded (c : Config F) (m : Memory F) (now : Nat) (files : Files F) :
    Except String (Memory F) := do
  let s ← Recovery.restoreEntryHistory files.historyStore m.strategy
  .ok ⟨s, if c.mode = .paper then m.paper else .new c now⟩

theorem Committed.loaded_eq (committed : Committed c m w w') (now : Nat) :
    loaded c now w'.files = reloaded c m now w.files := by
  have store : w'.files.historyStore = w.files.historyStore := by
    simp only [Files.historyStore, committed.marker, committed.registered]
  unfold loaded reloaded
  rw [committed.checkpoint, store]
  by_cases paper : c.mode = .paper
  · simp [Checkpoint.of, ensure, paper, bind, Except.bind]
  · simp [Checkpoint.of, ensure, paper, bind, Except.bind]

omit [F64 F] in
/-- The log is no part of what a program reads. -/
theorem step_congr (op : Op F) (input : Input F) (w w' : World F)
    (alike : w.files = w'.files ∧ w.generated = w'.generated) :
    (step ids op input w).1 = (step ids op input w').1 ∧
      (step ids op input w).2.files = (step ids op input w').2.files ∧
      (step ids op input w).2.generated = (step ids op input w').2.generated := by
  obtain ⟨files, generated, log⟩ := w
  obtain ⟨files', generated', log'⟩ := w'
  obtain ⟨rfl, rfl⟩ := alike
  cases op with
  | writeCheckpoint _ | writeStrategy _ | writePaper _ | writeLpHistory | writeRegistered _
  | writeBaseline | writePermit _ | writeBackup _ _ =>
      refine ⟨rfl, ?_⟩
      simp only [step, Input.effect]
      split_ifs <;> exact ⟨rfl, rfl⟩
  | execute _ _ =>
      refine ⟨rfl, ?_⟩
      simp only [step, World.transact, World.record, World.note]
      split_ifs <;> exact ⟨rfl, rfl⟩
  | _ => exact ⟨rfl, rfl, rfl⟩

/-- A load which returns has found what its files say. -/
theorem load_computes (inputs : List (Input F))
    (finished : ((machine ids).run (load c) inputs w).1 = .finished (.ok m)) :
    ∃ now, loaded c now w.files = .ok m := by
  let silent : World F := { w with log := [] }
  have starts : HistoryInvariant w.files.durable silent := ⟨trivial, id, nofun⟩
  have same := ((machine ids).run_congr step_congr (load c) inputs
    (⟨rfl, rfl⟩ : w.files = silent.files ∧ w.generated = silent.generated)).1
  exact ((Machine.spec_sound (load_spec starts) inputs).2 m (same.symm.trans finished)).1

end Atomic

section Safety

variable [F64 F]

theorem sessions_history {ids : Nat → String} {base : Bool} {w : World F}
    (inv : HistoryInvariant base w)
    (list : List ((Setup F × List (Command F)) × List (Input F))) :
    HistoryInvariant base (sessions ids list w) :=
  Machine.sessions_inv_of_spec (P := fun _ _ _ => True) inv
    (fun command _ inv => session_keeps command.1 command.2 inv) list

/-- Wherever a save stops, a load finds the complete state of before or the complete new one,
and the new one where the save has returned. However often processes are started and wherever
they stop: once a marker or an established history was written, every load and every
confirmation is established, and an established state stays so until the next load. -/
theorem checkpoint_safe (ids : Nat → String) (files : Files F) (generated : Nat)
    (list : List ((Setup F × List (Command F)) × List (Input F))) :
    (∀ (w : World F) (c : Config F) (m : Memory F) (inputs : List (Input F)),
      ((∀ now, loaded c now ((machine ids).run (save c m) inputs w).2.files =
            loaded c now w.files) ∨
          ∀ now, loaded c now ((machine ids).run (save c m) inputs w).2.files =
            reloaded c m now w.files) ∧
        (((machine ids).run (save c m) inputs w).1 = .finished (.ok ()) →
          ∀ now, loaded c now ((machine ids).run (save c m) inputs w).2.files =
            reloaded c m now w.files) ∧
        ∀ later found,
          ((machine ids).run (load c) later ((machine ids).run (save c m) inputs w).2).1 =
            .finished (.ok found) →
          ∃ now, loaded c now ((machine ids).run (save c m) inputs w).2.files = .ok found) ∧
      OneWay files.durable (sessions ids list ⟨files, generated, []⟩).log := by
  have starts : HistoryInvariant files.durable (⟨files, generated, []⟩ : World F) :=
    ⟨trivial, id, nofun⟩
  refine ⟨fun w c m inputs => ?_, (sessions_history starts list).oneWay⟩
  have commits : (machine ids).spec (fun w' => w'.files = w.files ∨ Committed c m w w')
      (save c m) (fun _ w' => Committed c m w w') w := save_commits
  obtain ⟨moment, finished⟩ := Machine.spec_sound commits inputs
  refine ⟨?_, fun returned now => (finished () returned).loaded_eq now,
    fun later found returned => load_computes later returned⟩
  rcases moment with same | committed
  · left
    intro now
    rw [same]
  · right
    exact committed.loaded_eq

/-- A directory before the first entry. -/
def firstEntryDirectory : World ℚ where
  files := {
    checkpoint := some { schema := 1, mode := .live, strategy := Strategy.default, paper := none }
    strategy := none
    paper := none
    lpHistory := none
    registered := false
    baseline := true
    permit := none
    backups := [] }
  generated := 0
  log := []

/-- A state which was loaded before the marker was written keeps its first entry. -/
theorem stepped_initial_after_recorded :
    ¬∀ (list : List ((Setup ℚ × List (Command ℚ)) × List (Input ℚ))) later earlier history,
      (sessions digits list firstEntryDirectory).log = later ++ .stepped history :: earlier →
      .recorded ∈ earlier → history = .established := by
  intro established
  have logged : (sessions digits
      [((liveBand, [.recordLpHistory]), List.replicate 20 .smooth)] firstEntryDirectory).log =
      [] ++ .stepped .initial :: [.recorded, .loaded .initial] := by
    decide +kernel
  have wrong := established _ _ _ _ logged (by decide)
  cases wrong

end Safety

end LpMaker.Runner
