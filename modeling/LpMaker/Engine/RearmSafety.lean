import LpMaker.Engine.Runner
import LpMaker.Strategy.EntryHistory
import LpMaker.Shipped

/-!
# A permit is used once

A permit is written as consumed before its deployment is committed or executed, and a written
permit is armed only with a new identifier. So a spent permit waives nothing again, and each
permit stands for at most one deployment, wherever the processes stop.
-/

namespace LpMaker.Runner

open Semantics
open EntryRearm (Permit)

variable {F : Type}

/-- The permit was written as consumed or canceled. -/
def Spent (log : List Event) (id : String) : Prop :=
  ∃ permit, .written permit ∈ log ∧ permit.id = id ∧ permit.status ≠ .armed

/-- The permit was written as consumed. -/
def Consumed (log : List Event) (id : String) : Prop :=
  ∃ permit, .written permit ∈ log ∧ permit.id = id ∧ permit.status = .consumed

/-- Only unspent permits waive, and a permit is consumed before its only deployment. -/
def UsedOnce : List Event → Prop
  | [] => True
  | .waived id :: earlier => ¬Spent earlier id ∧ UsedOnce earlier
  | .executed (some id) :: earlier =>
      (Consumed earlier id ∧ .executed (some id) ∉ earlier) ∧ UsedOnce earlier
  | _ :: earlier => UsedOnce earlier

section Log

variable {log later : List Event} {id : String}

theorem Consumed.spent (consumed : Consumed log id) : Spent log id := by
  obtain ⟨permit, written, same, status⟩ := consumed
  exact ⟨permit, written, same, by simp [status]⟩

theorem Consumed.append (later : List Event) (consumed : Consumed log id) :
    Consumed (later ++ log) id := by
  obtain ⟨permit, written, rest⟩ := consumed
  exact ⟨permit, List.mem_append_right _ written, rest⟩

theorem UsedOnce.of_append (later : List Event) (once : UsedOnce (later ++ log)) :
    UsedOnce log := by
  induction later with
  | nil => exact once
  | cons event rest inductionHypothesis =>
      refine inductionHypothesis ?_
      cases event with
      | waived _ => exact once.2
      | executed waived =>
          cases waived with
          | none => exact once
          | some _ => exact once.2
      | _ => exact once

/-- A waiver finds its permit unspent. -/
theorem UsedOnce.waived (once : UsedOnce (later ++ .waived id :: log)) : ¬Spent log id :=
  (once.of_append later).1

/-- A deployment finds its permit consumed. -/
theorem UsedOnce.consumed (once : UsedOnce (later ++ .executed (some id) :: log)) :
    Consumed log id :=
  (once.of_append later).1.1

theorem UsedOnce.count_le (once : UsedOnce log) (id : String) :
    log.count (.executed (some id)) ≤ 1 := by
  induction log with
  | nil => simp
  | cons event rest inductionHypothesis =>
      have earlier : rest.count (.executed (some id)) ≤ 1 :=
        inductionHypothesis (UsedOnce.of_append [event] once)
      rw [List.count_cons]
      by_cases same : event = .executed (some id)
      · subst same
        have absent : rest.count (.executed (some id)) = 0 := List.count_eq_zero.mpr once.1.2
        simp [absent]
      · have different : (event == .executed (some id)) = false := by simpa using same
        simpa [different] using earlier

end Log

/-- What concerns no permit. -/
def Event.quiet : Event → Prop
  | .written _ | .waived _ | .executed (some _) => False
  | _ => True

/-- Operations which neither write a permit nor use one. -/
def Op.quiet : Op F → Prop
  | .writePermit _ => False
  | .note event => event.quiet
  | .execute d waived => d.lp.isDeploy = true → waived = none
  | _ => True

/-- Operations which only look. -/
def Op.reads : Op F → Prop
  | .readCheckpoint | .readStrategy | .readPaper | .readLpHistory | .readRegistered
  | .readBaseline | .readPermit | .now | .outstanding _ | .collateral | .positions => True
  | _ => False

/-- Operations which concern neither the checkpoint nor a permit. -/
def Op.plain : Op F → Prop
  | .writeLpHistory | .writeRegistered _ | .writeBaseline | .hold => True
  | .execute _ waived => waived = none
  | op => op.reads

theorem Op.reads.plain {op : Op F} (reads : op.reads) : op.plain := by
  cases op with
  | execute _ _ => exact reads.elim
  | writeLpHistory | writeRegistered _ | writeBaseline | hold => trivial
  | _ => exact reads

theorem Op.plain.quiet {op : Op F} (plain : op.plain) : op.quiet := by
  cases op with
  | writePermit _ | note _ => exact plain.elim
  | execute _ _ => exact fun _ => plain
  | _ => trivial

/-- Later, with nothing done to a permit in between. -/
structure Quiet (before after : World F) : Prop where
  permit : after.files.permit = before.files.permit
  generated : before.generated ≤ after.generated
  log : ∃ events : List Event, after.log = events ++ before.log ∧ ∀ event ∈ events, event.quiet

namespace Quiet

variable {w w' w'' : World F} {event : Event}

theorem refl : Quiet w w := ⟨rfl, le_rfl, [], rfl, by simp⟩

theorem trans (first : Quiet w w') (second : Quiet w' w'') : Quiet w w'' := by
  obtain ⟨earlier, same, quiet⟩ := first.log
  obtain ⟨later, same', quiet'⟩ := second.log
  refine ⟨second.permit.trans first.permit, first.generated.trans second.generated,
    later ++ earlier, by rw [same', same, List.append_assoc], ?_⟩
  intro event mem
  rcases List.mem_append.mp mem with mem | mem
  · exact quiet' event mem
  · exact quiet event mem

theorem effect {input : Input F} (quiet : Quiet w w') : Quiet w (input.effect w w') := by
  unfold Input.effect
  split_ifs
  · exact quiet
  · exact refl

theorem note (quiet : event.quiet) : Quiet w (w.note event) :=
  ⟨rfl, le_rfl, [event], rfl, by simpa using quiet⟩

theorem transact (input : Input F) : Quiet w (w.transact input) := by
  unfold World.transact World.record
  dsimp only
  split_ifs
  · exact ⟨rfl, le_rfl, [], rfl, by simp⟩
  · exact ⟨rfl, le_rfl, [.recorded], rfl, by simp [Event.quiet]⟩
  · exact ⟨rfl, le_rfl, [], rfl, by simp⟩

theorem step {ids : Nat → String} {op : Op F} {input : Input F} (quiet : op.quiet) :
    Quiet w (step ids op input w).2 := by
  cases op with
  | readCheckpoint | readStrategy | readPaper | readLpHistory | readRegistered | readBaseline
  | readPermit | now | outstanding _ | collateral | hold | positions => exact refl
  | writeStrategy _ | writePaper _ | writeRegistered _ | writeBaseline | writeBackup _ _ =>
      exact effect ⟨rfl, le_rfl, [], rfl, by simp⟩
  | writeCheckpoint checkpoint =>
      exact effect
        ⟨rfl, le_rfl, [.saved checkpoint.strategy.entryHistory], rfl, by simp [Event.quiet]⟩
  | writeLpHistory => exact effect ⟨rfl, le_rfl, [.recorded], rfl, by simp [Event.quiet]⟩
  | newId => exact ⟨rfl, Nat.le_succ _, [], rfl, by simp⟩
  | note event => exact note quiet
  | writePermit _ => exact quiet.elim
  | execute d waived =>
      simp only [Runner.step]
      split_ifs with deploys
      · have unwaived : waived = none := quiet deploys
        exact (transact input).trans (note (by simp [unwaived, Event.quiet]))
      · exact transact input

variable {id : String}

theorem spent_iff (quiet : Quiet w w') : Spent w'.log id ↔ Spent w.log id := by
  obtain ⟨events, same, silent⟩ := quiet.log
  constructor
  · rintro ⟨permit, written, rest⟩
    rw [same] at written
    rcases List.mem_append.mp written with written | written
    · exact (silent _ written).elim
    · exact ⟨permit, written, rest⟩
  · rintro ⟨permit, written, rest⟩
    exact ⟨permit, same ▸ List.mem_append_right _ written, rest⟩

theorem executed_iff (quiet : Quiet w w') :
    .executed (some id) ∈ w'.log ↔ .executed (some id) ∈ w.log := by
  obtain ⟨events, same, silent⟩ := quiet.log
  constructor
  · intro executed
    rw [same] at executed
    rcases List.mem_append.mp executed with executed | executed
    · exact (silent _ executed).elim
    · exact executed
  · intro executed
    exact same ▸ List.mem_append_right _ executed

theorem written_iff {permit : Permit} (quiet : Quiet w w') :
    .written permit ∈ w'.log ↔ .written permit ∈ w.log := by
  obtain ⟨events, same, silent⟩ := quiet.log
  constructor
  · intro written
    rw [same] at written
    rcases List.mem_append.mp written with written | written
    · exact (silent _ written).elim
    · exact written
  · intro written
    exact same ▸ List.mem_append_right _ written

theorem consumed (quiet : Quiet w w') (consumed : Consumed w.log id) : Consumed w'.log id := by
  obtain ⟨events, same, -⟩ := quiet.log
  exact same ▸ consumed.append events

theorem usedOnce (quiet : Quiet w w') (once : UsedOnce w.log) : UsedOnce w'.log := by
  obtain ⟨events, same, silent⟩ := quiet.log
  rw [same]
  clear same
  induction events with
  | nil => exact once
  | cons event rest inductionHypothesis =>
      obtain ⟨here, later⟩ := List.forall_mem_cons.mp silent
      have held := inductionHypothesis later
      cases event with
      | written _ | waived _ => exact here.elim
      | executed waived =>
          cases waived with
          | none => exact held
          | some _ => exact here.elim
      | _ => exact held

end Quiet

/-- What every moment of a run keeps about the permits. -/
structure PermitInvariant (ids : Nat → String) (w : World F) : Prop where
  once : UsedOnce w.log
  /-- Only generated identifiers are written. -/
  known : ∀ permit, .written permit ∈ w.log → ∃ n < w.generated, permit.id = ids n
  /-- The permit on disk was written. -/
  written : ∀ permit ∈ w.files.permit, .written permit ∈ w.log
  /-- An armed permit on disk is unspent. -/
  unspent : ∀ permit ∈ w.files.permit, permit.status = .armed → ¬Spent w.log permit.id
  consumed : ∀ id, .executed (some id) ∈ w.log → Consumed w.log id

namespace PermitInvariant

variable {ids : Nat → String} {w w' : World F}

theorem quiet (inv : PermitInvariant ids w) (quiet : Quiet w w') : PermitInvariant ids w' where
  once := quiet.usedOnce inv.once
  known := by
    intro permit written
    obtain ⟨n, bound, same⟩ := inv.known permit (quiet.written_iff.mp written)
    exact ⟨n, bound.trans_le quiet.generated, same⟩
  written := by
    intro permit held
    rw [quiet.permit] at held
    exact quiet.written_iff.mpr (inv.written permit held)
  unspent := by
    intro permit held armed
    rw [quiet.permit] at held
    exact quiet.spent_iff.not.mpr (inv.unspent permit held armed)
  consumed := by
    intro id executed
    exact quiet.consumed (inv.consumed id (quiet.executed_iff.mp executed))

/-- A permit is written as spent, or with an identifier which is not spent. -/
theorem write {permit : Permit} (inv : PermitInvariant ids w)
    (known : ∃ n < w.generated, permit.id = ids n)
    (unspent : permit.status = .armed → ¬Spent w.log permit.id) :
    PermitInvariant ids { w with
      files := { w.files with permit := some permit }
      log := .written permit :: w.log } where
  once := inv.once
  known := by
    intro other written
    rcases List.mem_cons.mp written with same | written
    · cases same
      exact known
    · exact inv.known other written
  written := by
    intro other held
    cases held
    exact List.mem_cons_self
  unspent := by
    rintro other held armed ⟨spent, written, same, status⟩
    cases held
    rcases List.mem_cons.mp written with itself | written
    · cases itself
      exact status armed
    · exact unspent armed ⟨spent, written, same, status⟩
  consumed := by
    intro id executed
    rcases List.mem_cons.mp executed with same | executed
    · cases same
    · exact (inv.consumed id executed).append [.written permit]

theorem waive {id : String} (inv : PermitInvariant ids w) (unspent : ¬Spent w.log id) :
    PermitInvariant ids (w.note (.waived id)) where
  once := ⟨unspent, inv.once⟩
  known := by
    intro permit written
    exact inv.known permit (by simpa [World.note] using written)
  written := by
    intro permit held
    exact List.mem_cons_of_mem _ (inv.written permit held)
  unspent := by
    rintro permit held armed ⟨spent, written, rest⟩
    exact inv.unspent permit held armed ⟨spent, by simpa [World.note] using written, rest⟩
  consumed := by
    intro other executed
    have earlier : .executed (some other) ∈ w.log := by simpa [World.note] using executed
    exact (inv.consumed other earlier).append [.waived id]

/-- The only deployment under a consumed permit. -/
theorem execute {id : String} (inv : PermitInvariant ids w) (consumed : Consumed w.log id)
    (first : .executed (some id) ∉ w.log) :
    PermitInvariant ids (w.note (.executed (some id))) where
  once := ⟨⟨consumed, first⟩, inv.once⟩
  known := by
    intro permit written
    exact inv.known permit (by simpa [World.note] using written)
  written := by
    intro permit held
    exact List.mem_cons_of_mem _ (inv.written permit held)
  unspent := by
    rintro permit held armed ⟨spent, written, rest⟩
    exact inv.unspent permit held armed ⟨spent, by simpa [World.note] using written, rest⟩
  consumed := by
    intro other executed
    rcases List.mem_cons.mp executed with same | executed
    · cases same
      exact consumed.append [.executed (some id)]
    · exact (inv.consumed other executed).append [.executed (some id)]

/-- An unspent permit has not been used for a deployment. -/
theorem not_executed {id : String} (inv : PermitInvariant ids w) (unspent : ¬Spent w.log id) :
    .executed (some id) ∉ w.log :=
  fun executed => unspent (inv.consumed id executed).spent

end PermitInvariant

section Programs

variable {ids : Nat → String} {w : World F}

/-- A program without operations on permits keeps the invariant and what it found. -/
theorem quiet_spec {α : Type} {program : Program F α} (uses : program.uses Op.quiet)
    (inv : PermitInvariant ids w) :
    (machine ids).spec (PermitInvariant ids) program (fun _ w' => Quiet w w') w := by
  have kept : (machine ids).wp (Quiet w) program (fun _ w' => Quiet w w') w :=
    (machine ids).wp_of_uses (fun op input _ quiet held => held.trans (Quiet.step quiet)) uses
      Quiet.refl
  have strengthened := Machine.wp_mono_inv kept fun _ quiet => inv.quiet quiet
  exact Machine.wp_mono strengthened fun _ _ _ quiet _ _ => quiet

theorem quiet_of_plain {α : Type} {program : Program F α} (uses : program.uses Op.plain) :
    program.uses Op.quiet :=
  Program.uses_mono uses fun _ => Op.plain.quiet

theorem plain_spec {α : Type} {program : Program F α} (uses : program.uses Op.plain)
    (inv : PermitInvariant ids w) :
    (machine ids).spec (PermitInvariant ids) program (fun _ w' => Quiet w w') w :=
  quiet_spec (quiet_of_plain uses) inv

theorem recordLpHistory_plain : (recordLpHistory : Program F Unit).uses Op.plain := by
  refine Program.uses_bind (Program.uses_call.mpr trivial) fun history => ?_
  cases history with
  | some _ => exact Program.uses_ofExcept _
  | none => exact Program.uses_call.mpr trivial

theorem restoreEntryHistory_plain (s : Strategy F) :
    (restoreEntryHistory s).uses Op.plain := by
  refine Program.uses_bind (Program.uses_call.mpr trivial) fun registered => ?_
  refine Program.uses_bind ?_ fun _ => ?_
  · unfold recordEvidence
    split_ifs
    · exact recordLpHistory_plain
    · exact Program.uses_pure _
  · refine Program.uses_bind (Program.uses_call.mpr trivial) fun history => ?_
    exact Program.uses_ofExcept _

theorem exportFiles_quiet (checkpoint : Checkpoint F) :
    (exportFiles checkpoint).uses Op.quiet := by
  refine Program.uses_bind (Program.uses_call.mpr trivial) fun _ => ?_
  cases checkpoint.paper with
  | some _ => exact Program.uses_call.mpr trivial
  | none => exact Program.uses_pure _

theorem save_quiet (c : Config F) (m : Memory F) : (save c m).uses Op.quiet :=
  Program.uses_bind (Program.uses_call.mpr trivial) fun _ => exportFiles_quiet _

theorem readPermit_reads (setup : Setup F) : (readPermit setup).uses Op.reads := by
  refine Program.uses_bind (Program.uses_call.mpr trivial) fun _ => ?_
  exact Program.uses_bind (Program.uses_ofExcept _) fun _ => Program.uses_pure _

theorem settled_reads (permit : Option Permit) :
    (settled permit : Program F EntryRearm.Store).uses Op.reads := by
  refine Program.uses_bind (Program.uses_call.mpr trivial) fun _ => ?_
  refine Program.uses_bind (Program.uses_call.mpr trivial) fun _ => ?_
  refine Program.uses_bind (Program.uses_call.mpr trivial) fun _ => ?_
  refine Program.uses_bind (Program.uses_call.mpr trivial) fun _ => ?_
  exact Program.uses_bind (Program.uses_ofExcept _) fun _ => Program.uses_pure _

theorem recordPositions_plain (present : Bool) :
    (recordPositions present : Program F Unit).uses Op.plain := by
  cases present with
  | true => exact recordLpHistory_plain
  | false => exact Program.uses_pure _

theorem equityBaseline_plain : (equityBaseline : Program F Unit).uses Op.plain := by
  refine Program.uses_bind (Program.uses_call.mpr trivial) fun baseline => ?_
  cases baseline with
  | true => exact Program.uses_pure _
  | false => exact Program.uses_call.mpr trivial

variable [F64 F]

theorem paperOrNew_plain (c : Config F) (paper : Option (Paper F)) :
    (paperOrNew c paper).uses Op.plain := by
  cases paper with
  | some _ => exact Program.uses_pure _
  | none => exact Program.uses_bind (Program.uses_call.mpr trivial) fun _ => Program.uses_pure _

theorem load_quiet (c : Config F) : (load c).uses Op.quiet := by
  refine Program.uses_bind (Program.uses_call.mpr trivial) fun checkpoint => ?_
  cases checkpoint with
  | some checkpoint =>
      refine Program.uses_bind (Program.uses_ofExcept _) fun _ => ?_
      refine Program.uses_bind (Program.uses_ofExcept _) fun _ => ?_
      refine Program.uses_bind (quiet_of_plain (restoreEntryHistory_plain _)) fun strategy => ?_
      refine Program.uses_bind (exportFiles_quiet _) fun _ => ?_
      exact Program.uses_bind (quiet_of_plain (paperOrNew_plain c _)) fun _ =>
        Program.uses_pure _
  | none =>
      refine Program.uses_bind (Program.uses_call.mpr trivial) fun strategy => ?_
      refine Program.uses_bind (Program.uses_call.mpr trivial) fun paper => ?_
      refine Program.uses_bind ?_ fun _ => ?_
      · cases strategy with
        | some _ => exact Program.uses_pure _
        | none =>
            exact Program.uses_bind (Program.uses_call.mpr trivial) fun _ =>
              Program.uses_ofExcept _
      · refine Program.uses_bind (Program.uses_ofExcept _) fun _ => ?_
        refine Program.uses_bind (quiet_of_plain (restoreEntryHistory_plain _)) fun strategy => ?_
        refine Program.uses_bind (quiet_of_plain (paperOrNew_plain c _)) fun paper => ?_
        exact Program.uses_bind (save_quiet c _) fun _ => Program.uses_pure _

theorem confirmFirstEntry_plain (portfolio : Portfolio F) (s : Strategy F) :
    (confirmFirstEntry portfolio s).uses Op.plain := by
  refine Program.uses_bind (restoreEntryHistory_plain _) fun s => ?_
  split_ifs
  · exact Program.uses_pure _
  · refine Program.uses_bind (Program.uses_call.mpr trivial) fun _ => ?_
    refine Program.uses_bind (Program.uses_call.mpr trivial) fun _ => ?_
    refine Program.uses_bind (Program.uses_ofExcept _) fun _ => ?_
    exact Program.uses_bind (Program.uses_ofExcept _) fun _ => Program.uses_pure _

theorem observe_plain (c : Config F) (o : Observed F) (m : Memory F) :
    (observe c o m).uses Op.plain := by
  unfold observe
  cases c.mode with
  | live => exact Program.uses_bind (recordPositions_plain _) fun _ => Program.uses_pure _
  | paper => exact Program.uses_pure _

theorem preflightEntry_plain (c : Config F) (d : Decision F) (portfolio : Portfolio F) :
    (preflightEntry c d portfolio).uses Op.plain := by
  unfold preflightEntry
  split
  · split_ifs
    · refine Program.uses_bind (Program.uses_ofExcept _) fun _ => ?_
      refine Program.uses_bind (Program.uses_call.mpr trivial) fun funds => ?_
      exact Program.uses_bind (Program.uses_ofExcept _) fun _ => Program.uses_pure _
    · exact Program.uses_pure _
  · exact Program.uses_pure _

theorem leaveOnRisk_plain (done : Bool) (s : Strategy F) :
    (leaveOnRisk done s).uses Op.plain := by
  cases done with
  | true => exact Program.uses_pure _
  | false =>
      refine Program.uses_bind (Program.uses_call.mpr trivial) fun pending => ?_
      refine Program.uses_bind (Program.uses_ofExcept _) fun _ => ?_
      refine Program.uses_bind (Program.uses_call.mpr rfl) fun left => ?_
      refine Program.uses_bind (Program.uses_ofExcept _) fun _ => ?_
      refine Program.uses_bind (Program.uses_call.mpr trivial) fun paused => ?_
      exact Program.uses_bind (Program.uses_call.mpr trivial) fun _ => Program.uses_pure _

theorem performPaper_quiet (c : Config F) (f : MarketFrame F) (d : Decision F) (m : Memory F) :
    (performPaper c f d m).uses Op.quiet := by
  refine Program.uses_bind (Program.uses_ofExcept _) fun widths => ?_
  refine Program.uses_bind (Program.uses_ofExcept _) fun paper => ?_
  exact Program.uses_bind (save_quiet c _) fun _ => Program.uses_pure _

omit [F64 F] in
theorem effect_of_reply {α : Type} {input : Input F} {value value' : α} {before after : World F}
    (replied : input.reply value = .ok value') : input.effect before after = after := by
  unfold Input.reply at replied
  split_ifs at replied with succeeds
  simp [Input.effect, succeeds]

omit [F64 F] in
/-- Writing a permit which may be written. -/
theorem writePermit_spec {permit : Permit} (inv : PermitInvariant ids w)
    (known : ∃ n < w.generated, permit.id = ids n)
    (unspent : permit.status = .armed → ¬Spent w.log permit.id) :
    (machine ids).spec (PermitInvariant ids) (call (.writePermit permit))
      (fun _ w' => w' = { w with
        files := { w.files with permit := some permit }
        log := .written permit :: w.log }) w := by
  refine Machine.spec_call inv fun input => ⟨?_, fun _ replied => effect_of_reply replied⟩
  change PermitInvariant ids (input.effect w _)
  unfold Input.effect
  split_ifs
  · exact inv.write known unspent
  · exact inv

omit [F64 F] in
/-- Reading changes nothing. -/
theorem spec_read {Inv : World F → Prop} {op : Op F} {P : op.Reply → World F → Prop}
    (reads : ∀ input, (step ids op input w).2 = w) (inv : Inv w)
    (holds : ∀ input value, (step ids op input w).1 = .ok value → P value w) :
    (machine ids).spec Inv (call op) P w := by
  refine Machine.spec_call inv fun input => ?_
  change Inv (step ids op input w).2 ∧
    ∀ value, (step ids op input w).1 = .ok value → P value (step ids op input w).2
  rw [reads input]
  exact ⟨inv, holds input⟩

omit [F64 F] in
theorem value_of_reply {α : Type} {input : Input F} {value value' : α}
    (replied : input.reply value = .ok value') : value' = value := by
  unfold Input.reply at replied
  split_ifs at replied
  exact (Except.ok.inj replied).symm

omit [F64 F] in
theorem readPermit_spec {Inv : World F → Prop} (setup : Setup F) (inv : Inv w) :
    (machine ids).spec Inv (readPermit setup)
      (fun permit w' => permit = w.files.permit ∧ w' = w ∧ permit.all fun permit =>
        permit.schema = 1 ∧ permit.binding = setup.binding) w := by
  refine Machine.spec_bind (spec_read (fun _ => rfl) inv fun input permit replied => ?_)
  have read : permit = w.files.permit := value_of_reply replied
  refine Machine.spec_bind (Machine.spec_ofExcept inv fun _ accepted => ?_)
  exact Machine.spec_pure inv ⟨read, rfl, ensure_eq_ok.mp accepted⟩

omit [F64 F] in
/-- Canceling keeps the identifier on disk. -/
theorem cancel_spec {permit : Permit} (inv : PermitInvariant ids w)
    (written : .written permit ∈ w.log) :
    (machine ids).spec (PermitInvariant ids) (cancel permit)
      (fun _ w' => ∃ held ∈ w'.files.permit, held.id = permit.id) w := by
  refine Machine.spec_bind (spec_read (fun _ => rfl) inv fun _ now _ => ?_)
  refine Machine.spec_mono (writePermit_spec inv (inv.known permit written) nofun) ?_
  rintro _ w' - rfl
  exact ⟨_, rfl, rfl⟩

/-- A waiver belongs to the permit on disk, and a waived deployment names a permit. -/
structure Backed (decision : Decision F) (waived : Option String) (w : World F) : Prop where
  held : ∀ id, waived = some id → ∃ permit ∈ w.files.permit, permit.id = id
  named : waived.isSome → decision.lp.isDeploy → (waiverOf decision).isSome

omit [F64 F] in
theorem Backed.unwaived {decision : Decision F} : Backed decision none w :=
  ⟨nofun, nofun⟩

omit [F64 F] in
theorem Backed.quiet {decision : Decision F} {waived : Option String} {w' : World F}
    (backed : Backed decision waived w) (quiet : Quiet w w') : Backed decision waived w' := by
  refine ⟨?_, backed.named⟩
  rw [quiet.permit]
  exact backed.held

omit [F64 F] in
theorem stripPrefix_append (mark text : String) :
    stripPrefix mark (mark ++ text) = some text := by
  unfold stripPrefix
  have starts : mark.toList.isPrefixOf (mark ++ text).toList = true := by
    rw [List.isPrefixOf_iff_prefix, String.toList_append]
    exact List.prefix_append _ _
  rw [if_pos starts, String.toList_append, List.drop_left, String.ofList_toList]

omit [F64 F] in
/-- A deployment which names its waiver can be consumed under a permit. -/
theorem waiverOf_nameWaiver {permit : Permit} {d : Decision F} (deploys : d.lp.isDeploy) :
    (waiverOf (nameWaiver permit d)).isSome := by
  unfold waiverOf nameWaiver
  rw [if_pos deploys, List.findSome?_isSome_iff]
  refine ⟨EntryRearm.reason ++ permit.id, by simp, ?_⟩
  rw [stripPrefix_append]
  rfl

omit [F64 F] in
theorem nameWaiver_lp {permit : Permit} {d : Decision F} : (nameWaiver permit d).lp = d.lp := by
  unfold nameWaiver
  split_ifs <;> rfl

theorem evaluateWaived_spec (setup : Setup F) (f : MarketFrame F) (s : Strategy F)
    {permit : Permit} (inv : PermitInvariant ids w) (held : w.files.permit = some permit)
    (armed : permit.status = .armed) :
    (machine ids).spec (PermitInvariant ids) (evaluateWaived setup permit f s)
      (fun e w' => Backed e.decision e.waived w') w := by
  refine Machine.spec_bind (Machine.spec_mono (plain_spec (Program.uses_mono (settled_reads _) fun _ => Op.reads.plain) inv) ?_)
  rintro _ w₁ inv₁ quiet₁
  have held₁ : w₁.files.permit = some permit := quiet₁.permit.trans held
  have waived : PermitInvariant ids (w₁.note (.waived permit.id)) :=
    inv₁.waive (inv₁.unspent permit held₁ armed)
  refine Machine.spec_bind (Machine.spec_call inv₁ fun _ => ⟨waived, fun _ _ => ?_⟩)
  have kept : (machine ids).spec (PermitInvariant ids)
      (cancelOnHalt permit (EntryRearm.evaluateTrial setup.config.strategy f s).1)
      (fun _ w' => ∃ held ∈ w'.files.permit, held.id = permit.id)
      (w₁.note (.waived permit.id)) := by
    unfold cancelOnHalt
    split_ifs
    · exact cancel_spec waived (waived.written permit held₁)
    · exact Machine.spec_pure waived ⟨permit, held₁, rfl⟩
  refine Machine.spec_bind (Machine.spec_mono kept ?_)
  rintro _ w₂ inv₂ ⟨permit', held₂, same⟩
  refine Machine.spec_pure inv₂ ⟨?_, ?_⟩
  · intro id waiver
    cases waiver
    exact ⟨permit', held₂, same⟩
  · intro _ deploys
    exact waiverOf_nameWaiver (nameWaiver_lp ▸ deploys)

theorem evaluate_spec (setup : Setup F) (f : MarketFrame F) (s : Strategy F)
    (inv : PermitInvariant ids w) :
    (machine ids).spec (PermitInvariant ids) (evaluate setup f s)
      (fun e w' => Backed e.decision e.waived w') w := by
  refine Machine.spec_bind (Machine.spec_mono (readPermit_spec setup inv) ?_)
  rintro permit w - ⟨read, rfl, -⟩
  cases found : permit.filter fun permit => permit.status = .armed with
  | none => exact Machine.spec_pure inv .unwaived
  | some armed =>
      obtain ⟨same, status⟩ := Option.filter_eq_some_iff.mp found
      have held : w.files.permit = some armed := read.symm.trans same
      refine Machine.spec_bind (Machine.spec_ofExcept inv fun _ _ => ?_)
      split_ifs
      · refine Machine.spec_bind (Machine.spec_mono (cancel_spec inv (inv.written armed held)) ?_)
        rintro _ w' inv' -
        exact Machine.spec_pure inv' .unwaived
      · exact evaluateWaived_spec setup f s inv held (by simpa using status)

/-- The permit behind a waiver is used up for its only deployment. -/
def Ready (decision : Decision F) (waived : Option String) (w : World F) : Prop :=
  ∀ id, waived = some id → decision.lp.isDeploy = true →
    Consumed w.log id ∧ .executed (some id) ∉ w.log

omit [F64 F] in
theorem Ready.quiet {decision : Decision F} {waived : Option String} {w' : World F}
    (ready : Ready decision waived w) (quiet : Quiet w w') : Ready decision waived w' := by
  intro id waiver deploys
  obtain ⟨consumed, first⟩ := ready id waiver deploys
  exact ⟨quiet.consumed consumed, quiet.executed_iff.not.mpr first⟩

omit [F64 F] in
theorem consumePermit_spec (setup : Setup F) (id : String) (inv : PermitInvariant ids w) :
    (machine ids).spec (PermitInvariant ids) (consumePermit setup id)
      (fun _ w' => ∀ permit ∈ w.files.permit,
        Consumed w'.log permit.id ∧ .executed (some permit.id) ∉ w'.log) w := by
  refine Machine.spec_bind (Machine.spec_mono (readPermit_spec setup inv) ?_)
  rintro permit w - ⟨read, rfl, -⟩
  refine Machine.spec_bind (Machine.spec_ofExcept inv fun permit present => ?_)
  have held : w.files.permit = some permit := read.symm.trans (context_eq_ok.mp present)
  refine Machine.spec_bind (Machine.spec_ofExcept inv fun _ armed => ?_)
  have armed : permit.status = .armed := (ensure_eq_ok.mp armed).2
  have unused : .executed (some permit.id) ∉ w.log :=
    inv.not_executed (inv.unspent permit held armed)
  refine Machine.spec_bind (spec_read (fun _ => rfl) inv fun _ now _ => ?_)
  have known := inv.known permit (inv.written permit held)
  refine Machine.spec_mono (writePermit_spec inv known nofun) ?_
  rintro _ w' - rfl other same
  rw [held] at same
  cases same
  exact ⟨⟨_, List.mem_cons_self, rfl, rfl⟩, by simpa using unused⟩

omit [F64 F] in
theorem consume_spec (setup : Setup F) {d : Decision F} {waived : Option String}
    (inv : PermitInvariant ids w) (backed : Backed d waived w) :
    (machine ids).spec (PermitInvariant ids) (consume setup d)
      (fun _ w' => Ready d waived w') w := by
  unfold consume
  by_cases deploys : d.lp.isDeploy = true
  · rw [if_pos deploys]
    cases named : waiverOf d with
    | none =>
        refine Machine.spec_pure inv fun id waiver _ => ?_
        have some := backed.named (by simp [waiver]) deploys
        simp [named] at some
    | some id =>
        refine Machine.spec_mono (consumePermit_spec setup id inv) ?_
        intro _ w' _ used other waiver _
        obtain ⟨permit, held, rfl⟩ := backed.held other waiver
        exact used permit held
  · rw [if_neg deploys]
    exact Machine.spec_pure inv fun _ _ deployed => absurd deployed deploys

omit [F64 F] in
/-- In live mode a decision is ready once it has been committed. -/
theorem commit_spec (setup : Setup F) {d : Decision F} {waived : Option String} (m : Memory F)
    (inv : PermitInvariant ids w) (backed : Backed d waived w) :
    (machine ids).spec (PermitInvariant ids) (commit setup d m)
      (fun _ w' => setup.config.mode = .live → Ready d waived w') w := by
  unfold commit
  cases setup.config.mode with
  | live =>
      refine Machine.spec_bind (Machine.spec_mono (consume_spec setup inv backed) ?_)
      intro _ w₁ inv₁ ready
      refine Machine.spec_mono (quiet_spec (save_quiet _ m) inv₁) ?_
      intro _ w₂ _ quiet _
      exact ready.quiet quiet
  | paper => exact Machine.spec_pure inv nofun

/-- A deferred deployment is no deployment any more. -/
theorem Backed.deferUnless {e : Evaluated F} (backed : Backed e.decision e.waived w)
    (funded : Bool) (previous : Strategy F) (portfolio : Portfolio F) :
    Backed (e.deferUnless funded previous portfolio).decision
      (e.deferUnless funded previous portfolio).waived w := by
  unfold Evaluated.deferUnless
  cases funded with
  | true => exact backed
  | false =>
      refine ⟨backed.held, fun _ deploys => ?_⟩
      have closed := deferEntry_opens previous portfolio e.strategy e.decision
      dsimp only [Bool.false_eq_true, if_false] at deploys
      cases intent : (deferEntry previous portfolio e.strategy e.decision).2.lp with
      | deploy _ => simp [intent] at closed
      | hold | exitToQuote | recenter _ => simp [intent, LpIntent.isDeploy] at deploys

theorem preflight_spec (c : Config F) (previous : Strategy F) (portfolio : Portfolio F)
    {e : Evaluated F} (inv : PermitInvariant ids w) (backed : Backed e.decision e.waived w) :
    (machine ids).spec (PermitInvariant ids) (preflight c previous portfolio e)
      (fun decided w' => Backed decided.decision decided.waived w') w := by
  unfold preflight
  cases c.mode with
  | live =>
      refine Machine.spec_bind (Machine.spec_mono (plain_spec (preflightEntry_plain c _ _) inv) ?_)
      intro funded w' inv' quiet
      exact Machine.spec_pure inv' ((backed.quiet quiet).deferUnless funded previous portfolio)
  | paper => exact Machine.spec_pure inv backed

omit [F64 F] in
theorem execute_spec {d : Decision F} {waived : Option String} (inv : PermitInvariant ids w)
    (ready : Ready d waived w) :
    (machine ids).spec (PermitInvariant ids) (call (.execute d waived)) (fun _ _ => True) w := by
  refine Machine.spec_call inv fun input => ⟨?_, fun _ _ => trivial⟩
  change PermitInvariant ids (step ids (.execute d waived) input w).2
  cases waived with
  | none => exact inv.quiet (Quiet.step fun _ => rfl)
  | some id =>
      simp only [step]
      have moved : Quiet w (w.transact input) := Quiet.transact input
      split_ifs with deploys
      · obtain ⟨consumed, first⟩ := ready.quiet moved id rfl deploys
        exact (inv.quiet moved).execute consumed first
      · exact inv.quiet moved

theorem performLive_spec (f : MarketFrame F) (decided : Decided F) (m : Memory F)
    (inv : PermitInvariant ids w) (ready : Ready decided.decision decided.waived w) :
    (machine ids).spec (PermitInvariant ids) (performLive f decided m) (fun _ _ => True) w := by
  unfold performLive
  split_ifs
  · refine Machine.spec_bind (spec_read (fun _ => rfl) inv fun _ _ _ => ?_)
    exact Machine.spec_pure inv trivial
  · refine Machine.spec_bind (Machine.spec_mono (execute_spec inv ready) ?_)
    intro done w₁ inv₁ _
    refine Machine.spec_bind (Machine.spec_mono (plain_spec (leaveOnRisk_plain done _) inv₁) ?_)
    intro s w₂ inv₂ _
    refine Machine.spec_bind (spec_read (fun _ => rfl) inv₂ fun _ present _ => ?_)
    refine Machine.spec_bind (Machine.spec_mono (plain_spec (recordPositions_plain _) inv₂) ?_)
    intro _ w₃ inv₃ _
    exact Machine.spec_pure inv₃ trivial

theorem perform_spec (c : Config F) (f : MarketFrame F) (decided : Decided F) (m : Memory F)
    (inv : PermitInvariant ids w)
    (ready : c.mode = .live → Ready decided.decision decided.waived w) :
    (machine ids).spec (PermitInvariant ids) (perform c f decided m) (fun _ _ => True) w := by
  unfold perform
  split_ifs
  · exact Machine.spec_pure inv trivial
  · cases live : c.mode with
    | live => exact performLive_spec f decided m inv (ready live)
    | paper =>
        refine Machine.spec_mono (quiet_spec (performPaper_quiet c f _ m) inv) ?_
        intros
        trivial

theorem iterate_spec (setup : Setup F) (o : Observed F) (m : Memory F)
    (inv : PermitInvariant ids w) :
    (machine ids).spec (PermitInvariant ids) (iterate setup o m) (fun _ _ => True) w := by
  refine Machine.spec_bind (Machine.spec_mono (plain_spec (observe_plain _ o m) inv) ?_)
  intro observed w₁ inv₁ _
  refine Machine.spec_bind (Machine.spec_ofExcept inv₁ fun _ _ => ?_)
  refine Machine.spec_bind (Machine.spec_ofExcept inv₁ fun _ _ => ?_)
  refine Machine.spec_bind (Machine.spec_mono (plain_spec equityBaseline_plain inv₁) ?_)
  intro _ w₂ inv₂ _
  refine Machine.spec_bind (Machine.spec_mono (evaluate_spec setup _ _ inv₂) ?_)
  intro evaluated w₃ inv₃ backed
  refine Machine.spec_bind (Machine.spec_mono (preflight_spec _ _ _ inv₃ backed) ?_)
  intro decided w₄ inv₄ backed₄
  refine Machine.spec_bind (Machine.spec_mono (commit_spec setup _ inv₄ backed₄) ?_)
  intro _ w₅ inv₅ ready
  refine Machine.spec_bind (Machine.spec_mono (perform_spec _ _ decided _ inv₅ ready) ?_)
  intro m' w₆ inv₆ _
  refine Machine.spec_bind (Machine.spec_mono (quiet_spec (save_quiet _ m') inv₆) ?_)
  intro _ w₇ inv₇ _
  exact Machine.spec_pure inv₇ trivial

omit [F64 F] in
/-- A new permit has an identifier which no written permit has. -/
theorem armAnew_spec (unique : Function.Injective ids) (setup : Setup F)
    (inv : PermitInvariant ids w) :
    (machine ids).spec (PermitInvariant ids) (armAnew setup) (fun _ _ => True) w := by
  refine Machine.spec_bind (spec_read (fun _ => rfl) inv fun _ checkpoint _ => ?_)
  refine Machine.spec_bind (Machine.spec_ofExcept inv fun checkpoint _ => ?_)
  refine Machine.spec_bind (Machine.spec_ofExcept inv fun _ _ => ?_)
  have counted : Quiet w { w with generated := w.generated + 1 } :=
    ⟨rfl, Nat.le_succ _, [], rfl, by simp⟩
  have inv₁ := inv.quiet counted
  refine Machine.spec_bind (Machine.spec_call inv fun input => ⟨inv₁, fun id replied => ?_⟩)
  have fresh : id = ids w.generated := value_of_reply replied
  have unspent : ¬Spent w.log id := by
    rintro ⟨permit, written, same, -⟩
    obtain ⟨n, bound, known⟩ := inv.known permit written
    have equal : n = w.generated := unique (known.symm.trans (same.trans fresh))
    omega
  refine Machine.spec_bind (spec_read (fun _ => rfl) inv₁ fun _ requested _ => ?_)
  refine Machine.spec_bind (spec_read (fun _ => rfl) inv₁ fun _ updated _ => ?_)
  refine Machine.spec_bind (Machine.spec_mono
    (quiet_spec (Program.uses_call.mpr trivial) inv₁) ?_)
  intro _ w₂ inv₂ quiet
  have known : ∃ n < w₂.generated, id = ids n :=
    ⟨w.generated, (Nat.lt_succ_self _).trans_le quiet.generated, fresh⟩
  refine Machine.spec_bind (Machine.spec_mono
    (writePermit_spec inv₂ known fun _ => quiet.spent_iff.not.mpr unspent) ?_)
  rintro _ w₃ inv₃ -
  exact Machine.spec_pure inv₃ trivial

theorem arm_spec (unique : Function.Injective ids) (setup : Setup F) (s : Strategy F)
    (actual : Portfolio F) (inv : PermitInvariant ids w) :
    (machine ids).spec (PermitInvariant ids) (arm setup s actual) (fun _ _ => True) w := by
  refine Machine.spec_bind (Machine.spec_ofExcept inv fun _ _ => ?_)
  refine Machine.spec_bind (Machine.spec_ofExcept inv fun _ _ => ?_)
  refine Machine.spec_bind (Machine.spec_ofExcept inv fun _ _ => ?_)
  refine Machine.spec_bind (Machine.spec_mono (plain_spec (Program.uses_mono (settled_reads _) fun _ => Op.reads.plain) inv) ?_)
  intro _ w₁ inv₁ _
  refine Machine.spec_bind (Machine.spec_mono (readPermit_spec setup inv₁) ?_)
  rintro permit w₁ inv₁ ⟨-, rfl, -⟩
  cases permit.filter fun permit => permit.status = .armed with
  | some _ => exact Machine.spec_pure inv₁ trivial
  | none => exact armAnew_spec unique setup inv₁

theorem command_spec (unique : Function.Injective ids) (setup : Setup F) (m : Memory F)
    (command : Command F) (inv : PermitInvariant ids w) :
    (machine ids).spec (PermitInvariant ids) (command.run setup m) (fun _ _ => True) w := by
  cases command with
  | iterate o => exact iterate_spec setup o m inv
  | arm actual =>
      refine Machine.spec_bind (Machine.spec_mono (arm_spec unique setup _ actual inv) ?_)
      intro _ w' inv' _
      exact Machine.spec_pure inv' trivial
  | save =>
      refine Machine.spec_bind (Machine.spec_mono (quiet_spec (save_quiet _ m) inv) ?_)
      intro _ w' inv' _
      exact Machine.spec_pure inv' trivial
  | confirmFirstEntry portfolio =>
      refine Machine.spec_bind (Machine.spec_mono
        (plain_spec (confirmFirstEntry_plain portfolio _) inv) ?_)
      intro s w₁ inv₁ _
      refine Machine.spec_bind (Machine.spec_mono
        (quiet_spec (Program.uses_call.mpr trivial) inv₁) ?_)
      intro _ w₂ inv₂ _
      exact Machine.spec_pure inv₂ trivial
  | recordLpHistory =>
      refine Machine.spec_bind (Machine.spec_mono (plain_spec recordLpHistory_plain inv) ?_)
      intro _ w' inv' _
      exact Machine.spec_pure inv' trivial
  | register registered =>
      refine Machine.spec_bind (Machine.spec_mono
        (quiet_spec (Program.uses_call.mpr trivial) inv) ?_)
      intro _ w' inv' _
      exact Machine.spec_pure inv' trivial
  | observeLp _ | prepareObservationRevalidation | invalidateObservationStreaks _
  | finishWorkflowRecovery _ _ | pauseIncompleteInventory _ _ _ =>
      exact Machine.spec_pure inv trivial

theorem commands_spec (unique : Function.Injective ids) (setup : Setup F)
    (list : List (Command F)) (m : Memory F) (inv : PermitInvariant ids w) :
    (machine ids).spec (PermitInvariant ids) (commands setup list m) (fun _ _ => True) w := by
  induction list generalizing m w with
  | nil => exact Machine.spec_pure inv trivial
  | cons command rest inductionHypothesis =>
      refine Machine.spec_bind (Machine.spec_mono (command_spec unique setup m command inv) ?_)
      intro m' w₁ inv₁ _
      refine Machine.spec_bind (Machine.spec_mono
        (quiet_spec (Program.uses_call.mpr trivial) inv₁) ?_)
      intro _ w₂ inv₂ _
      exact inductionHypothesis m' inv₂

theorem session_spec (unique : Function.Injective ids) (setup : Setup F)
    (list : List (Command F)) (inv : PermitInvariant ids w) :
    (machine ids).spec (PermitInvariant ids) (session setup list) (fun _ _ => True) w := by
  refine Machine.spec_bind (Machine.spec_mono (quiet_spec (load_quiet _) inv) ?_)
  intro m w₁ inv₁ _
  refine Machine.spec_bind (Machine.spec_mono
    (quiet_spec (Program.uses_call.mpr trivial) inv₁) ?_)
  intro _ w₂ inv₂ _
  exact commands_spec unique setup list m inv₂

end Programs

section History

variable [F64 F] {ids : Nat → String} {w : World F}

theorem evaluate_keepsHistory {binding : String} {now : Nat} {store : EntryRearm.Store}
    {c : Config F} {f : MarketFrame F} {s t : Strategy F} {d : Decision F}
    {written : Option Permit}
    (evaluated : EntryRearm.evaluate binding now store c f s = .ok (t, d, written)) :
    KeepsHistory f s.entryHistory t.entryHistory := by
  rcases EntryRearm.evaluate_eq_ok evaluated with ordinary | ⟨-, -, rfl, -⟩
  · have kept := Strategy.evaluateWithContinuity_keepsHistory (c := c.strategy) (f := f) (s := s)
    rw [ordinary] at kept
    exact kept
  · exact .inl rfl

/-- What a rearmed evaluation computed on the files it found. -/
def Computes (setup : Setup F) (f : MarketFrame F) (s : Strategy F) (w : World F)
    (e : Evaluated F) : Prop :=
  ∃ now store written, store.permit = w.files.permit ∧
    EntryRearm.evaluate setup.binding now store setup.config f s =
      .ok (e.strategy, e.decision, written) ∧
    (e.waived.isSome → e.strategy.entryHistory = s.entryHistory)

omit [F64 F] in
theorem read_eq {binding : String} {store : EntryRearm.Store}
    (accepted : store.permit.all fun permit => permit.schema = 1 ∧ permit.binding = binding) :
    EntryRearm.read binding store = .ok store.permit := by
  unfold EntryRearm.read
  cases held : store.permit with
  | none => rfl
  | some permit =>
      have belongs : permit.schema = 1 ∧ permit.binding = binding := by simpa [held] using accepted
      dsimp only
      rw [check_bind_eq_ok]
      exact ⟨ensure_eq_ok.mpr belongs, rfl⟩

omit [F64 F] in
theorem settled_spec {Inv : World F → Prop} (permit : Option Permit) (inv : Inv w) :
    (machine ids).spec Inv (settled permit)
      (fun store w' => store.permit = permit ∧ EntryRearm.settled store = .ok () ∧ w' = w) w := by
  refine Machine.spec_bind (spec_read (fun _ => rfl) inv fun _ pending _ => ?_)
  refine Machine.spec_bind (spec_read (fun _ => rfl) inv fun _ workflow _ => ?_)
  refine Machine.spec_bind (spec_read (fun _ => rfl) inv fun _ hedgeOrder _ => ?_)
  refine Machine.spec_bind (spec_read (fun _ => rfl) inv fun _ openOrders _ => ?_)
  refine Machine.spec_bind (Machine.spec_ofExcept inv fun _ settled => ?_)
  exact Machine.spec_pure inv ⟨rfl, settled, rfl⟩

section Pure

variable {setup : Setup F} {now : Nat} {store : EntryRearm.Store} {f : MarketFrame F}
  {s : Strategy F} {permit : Permit}

theorem evaluate_unarmed
    (accepted : store.permit.all fun permit =>
      permit.schema = 1 ∧ permit.binding = setup.binding)
    (unarmed : (store.permit.filter fun permit => permit.status = .armed) = none) :
    EntryRearm.evaluate setup.binding now store setup.config f s =
      .ok ((Evaluated.ordinary setup.config f s).strategy,
        (Evaluated.ordinary setup.config f s).decision, none) := by
  unfold EntryRearm.evaluate
  rw [bind_eq_ok]
  refine ⟨store.permit, read_eq accepted, ?_⟩
  simp only [unarmed]
  rfl

theorem evaluate_refused
    (accepted : store.permit.all fun permit =>
      permit.schema = 1 ∧ permit.binding = setup.binding)
    (armed : (store.permit.filter fun permit => permit.status = .armed) = some permit)
    (live : setup.config.mode = .live)
    (refused : s.phase ≠ .paused ∨ (!EntryRearm.flat f.portfolio) = true) :
    EntryRearm.evaluate setup.binding now store setup.config f s =
      .ok ((Evaluated.ordinary setup.config f s).strategy,
        (Evaluated.ordinary setup.config f s).decision, some (permit.cancel now)) := by
  unfold EntryRearm.evaluate
  rw [bind_eq_ok]
  refine ⟨store.permit, read_eq accepted, ?_⟩
  simp only [armed]
  rw [check_bind_eq_ok, if_pos refused]
  exact ⟨ensure_eq_ok.mpr live, rfl⟩

theorem evaluate_waived
    (accepted : store.permit.all fun permit =>
      permit.schema = 1 ∧ permit.binding = setup.binding)
    (armed : (store.permit.filter fun permit => permit.status = .armed) = some permit)
    (live : setup.config.mode = .live)
    (flat : ¬(s.phase ≠ .paused ∨ (!EntryRearm.flat f.portfolio) = true))
    (settled : EntryRearm.settled store = .ok ()) :
    EntryRearm.evaluate setup.binding now store setup.config f s =
      .ok ((EntryRearm.evaluateTrial setup.config.strategy f s).1,
        nameWaiver permit (EntryRearm.evaluateTrial setup.config.strategy f s).2,
        if (EntryRearm.evaluateTrial setup.config.strategy f s).1.phase = .halted then
          some (permit.cancel now)
        else none) := by
  unfold EntryRearm.evaluate
  rw [bind_eq_ok]
  refine ⟨store.permit, read_eq accepted, ?_⟩
  simp only [armed]
  rw [check_bind_eq_ok, if_neg flat, check_bind_eq_ok]
  exact ⟨ensure_eq_ok.mpr live, settled, rfl⟩

end Pure

/-- The program computes what the evaluation over the files does. -/
theorem evaluate_computes (setup : Setup F) (f : MarketFrame F) (s : Strategy F) :
    (machine ids).spec (fun _ => True) (evaluate setup f s)
      (fun e _ => Computes setup f s w e) w := by
  refine Machine.spec_bind (Machine.spec_mono (readPermit_spec setup trivial) ?_)
  rintro permit w - ⟨read, rfl, accepted⟩
  subst read
  let idle : EntryRearm.Store := ⟨w.files.permit, false, false, false, false⟩
  cases found : w.files.permit.filter fun permit => permit.status = .armed with
  | none =>
      exact Machine.spec_pure trivial
        ⟨0, idle, none, rfl, evaluate_unarmed accepted found, nofun⟩
  | some armed =>
      refine Machine.spec_bind (Machine.spec_ofExcept trivial fun _ live => ?_)
      have live : setup.config.mode = .live := ensure_eq_ok.mp live
      split_ifs with refused
      · refine Machine.spec_bind (Machine.spec_mono (Machine.spec_always (cancel armed) w) ?_)
        intro _ _ _ _
        exact Machine.spec_pure trivial
          ⟨0, idle, _, rfl, evaluate_refused accepted found live refused, nofun⟩
      · have held : w.files.permit = some armed := (Option.filter_eq_some_iff.mp found).1
        refine Machine.spec_bind (Machine.spec_mono (settled_spec _ trivial) ?_)
        rintro store w - ⟨same, settled, rfl⟩
        have permit : store.permit = w.files.permit := same.trans held.symm
        have computed := @evaluate_waived _ _ setup 0 store f s armed (permit ▸ accepted)
          (permit ▸ found) live refused settled
        refine Machine.spec_bind (Machine.spec_call trivial fun _ => ⟨trivial, fun _ _ => ?_⟩)
        refine Machine.spec_bind (Machine.spec_mono (Machine.spec_always
          (cancelOnHalt armed (EntryRearm.evaluateTrial setup.config.strategy f s).1) _) ?_)
        intro _ _ _ _
        exact Machine.spec_pure trivial ⟨0, store, _, permit, computed, fun _ => rfl⟩

/-- Everything but the permit and the backups beside it. -/
def Files.apart (files : Files F) : Files F := { files with permit := none, backups := [] }

/-- Operations which write at most the permit and its backup. -/
def Op.rearms : Op F → Prop
  | .writeCheckpoint _ | .writeStrategy _ | .writePaper _ | .writeLpHistory
  | .writeRegistered _ | .writeBaseline | .execute _ _ => False
  | .note (.waived _) => True
  | .note _ => False
  | _ => True

omit [F64 F] in
theorem step_apart {op : Op F} {input : Input F} (rearms : op.rearms) :
    (step ids op input w).2.files.apart = w.files.apart := by
  cases op with
  | writeCheckpoint _ | writeStrategy _ | writePaper _ | writeLpHistory | writeRegistered _
  | writeBaseline | execute _ _ => exact rearms.elim
  | writePermit _ | writeBackup _ _ =>
      simp only [step, Input.effect]
      split_ifs <;> rfl
  | _ => rfl

omit [F64 F] in
theorem run_apart {α : Type} {program : Program F α} (uses : program.uses Op.rearms)
    (inputs : List (Input F)) :
    ((machine ids).run program inputs w).2.files.apart = w.files.apart := by
  have kept : (machine ids).wp (fun w' => w'.files.apart = w.files.apart) program
      (fun _ w' => w'.files.apart = w.files.apart) w :=
    (machine ids).wp_of_uses (fun _ _ _ rearms held => (step_apart rearms).trans held) uses rfl
  exact (Machine.wp_sound kept inputs).1

omit [F64 F] in
theorem Op.reads.rearms {op : Op F} (reads : op.reads) : op.rearms := by
  cases op with
  | writeCheckpoint _ | writeStrategy _ | writePaper _ | writeLpHistory | writeRegistered _
  | writeBaseline | execute _ _ | note _ => exact reads.elim
  | _ => trivial

omit [F64 F] in
theorem rearms_of_reads {α : Type} {program : Program F α} (uses : program.uses Op.reads) :
    program.uses Op.rearms :=
  Program.uses_mono uses fun _ => Op.reads.rearms

theorem arm_rearms (setup : Setup F) (s : Strategy F) (actual : Portfolio F) :
    (arm setup s actual).uses Op.rearms := by
  refine Program.uses_bind (Program.uses_ofExcept _) fun _ => ?_
  refine Program.uses_bind (Program.uses_ofExcept _) fun _ => ?_
  refine Program.uses_bind (Program.uses_ofExcept _) fun _ => ?_
  refine Program.uses_bind (rearms_of_reads (settled_reads _)) fun _ => ?_
  refine Program.uses_bind (rearms_of_reads (readPermit_reads setup)) fun permit => ?_
  cases permit.filter fun permit => permit.status = .armed with
  | some _ => exact Program.uses_pure _
  | none =>
      refine Program.uses_bind (Program.uses_call.mpr trivial) fun checkpoint => ?_
      refine Program.uses_bind (Program.uses_ofExcept _) fun checkpoint => ?_
      refine Program.uses_bind (Program.uses_ofExcept _) fun _ => ?_
      refine Program.uses_bind (Program.uses_call.mpr trivial) fun id => ?_
      refine Program.uses_bind (Program.uses_call.mpr trivial) fun requested => ?_
      refine Program.uses_bind (Program.uses_call.mpr trivial) fun updated => ?_
      refine Program.uses_bind (Program.uses_call.mpr trivial) fun _ => ?_
      exact Program.uses_bind (Program.uses_call.mpr trivial) fun _ => Program.uses_pure _

omit [F64 F] in
theorem cancel_rearms (permit : Permit) : (cancel permit : Program F Unit).uses Op.rearms :=
  Program.uses_bind (Program.uses_call.mpr trivial) fun _ => Program.uses_call.mpr trivial

theorem evaluate_rearms (setup : Setup F) (f : MarketFrame F) (s : Strategy F) :
    (evaluate setup f s).uses Op.rearms := by
  refine Program.uses_bind (rearms_of_reads (readPermit_reads setup)) fun permit => ?_
  cases permit.filter fun permit => permit.status = .armed with
  | none => exact Program.uses_pure _
  | some armed =>
      refine Program.uses_bind (Program.uses_ofExcept _) fun _ => ?_
      split_ifs
      · exact Program.uses_bind (cancel_rearms armed) fun _ => Program.uses_pure _
      · refine Program.uses_bind (rearms_of_reads (settled_reads _)) fun _ => ?_
        refine Program.uses_bind (Program.uses_call.mpr trivial) fun _ => ?_
        refine Program.uses_bind ?_ fun _ => Program.uses_pure _
        unfold cancelOnHalt
        split_ifs
        · exact cancel_rearms armed
        · exact Program.uses_pure _

omit [F64 F] in
theorem consume_rearms (setup : Setup F) (d : Decision F) : (consume setup d).uses Op.rearms := by
  unfold consume
  split_ifs
  · cases waiverOf d with
    | none => exact Program.uses_pure _
    | some id =>
        refine Program.uses_bind (rearms_of_reads (readPermit_reads setup)) fun permit => ?_
        refine Program.uses_bind (Program.uses_ofExcept _) fun permit => ?_
        refine Program.uses_bind (Program.uses_ofExcept _) fun _ => ?_
        exact Program.uses_bind (Program.uses_call.mpr trivial) fun _ =>
          Program.uses_call.mpr trivial
  · exact Program.uses_pure _

/-- No rearm operation changes an entry history on disk, and an evaluation changes the one in
memory only by observing a position, never under a waiver. -/
theorem rearm_keepsHistory (setup : Setup F) (inputs : List (Input F)) :
    (∀ s actual, ((machine ids).run (arm setup s actual) inputs w).2.files.apart =
        w.files.apart) ∧
      (∀ d, ((machine ids).run (consume setup d) inputs w).2.files.apart = w.files.apart) ∧
      ∀ f s,
        ((machine ids).run (evaluate setup f s) inputs w).2.files.apart = w.files.apart ∧
        ∀ e, ((machine ids).run (evaluate setup f s) inputs w).1 = .finished (.ok e) →
          KeepsHistory f s.entryHistory e.strategy.entryHistory ∧
            (e.waived.isSome → e.strategy.entryHistory = s.entryHistory) := by
  refine ⟨fun s actual => run_apart (arm_rearms setup s actual) inputs,
    fun d => run_apart (consume_rearms setup d) inputs, fun f s =>
      ⟨run_apart (evaluate_rearms setup f s) inputs, fun e finished => ?_⟩⟩
  obtain ⟨now, store, written, -, evaluated, waived⟩ :=
    (Machine.spec_sound (evaluate_computes setup f s) inputs).2 e finished
  exact ⟨evaluate_keepsHistory evaluated, waived⟩

end History

section Safety

variable [F64 F]

/-- What processes of any configuration leave on disk, each of them stopped anywhere. -/
def sessions (ids : Nat → String)
    (list : List ((Setup F × List (Command F)) × List (Input F))) (w : World F) : World F :=
  (machine ids).sessions (fun command => session command.1 command.2) list w

theorem sessions_permits {ids : Nat → String} (unique : Function.Injective ids) {w : World F}
    (inv : PermitInvariant ids w)
    (list : List ((Setup F × List (Command F)) × List (Input F))) :
    PermitInvariant ids (sessions ids list w) :=
  Machine.sessions_inv_of_spec (P := fun _ _ _ => True) inv
    (fun command _ inv => session_spec unique command.1 command.2 inv) list

/-- From a directory without a permit, however often processes are started and wherever they
stop: each permit stands for at most one deployment that reaches the execution, which finds it
consumed, and a permit which was consumed or canceled waives nothing again. A rearm operation
changes no history on disk, and the history in memory only by observing a position, never under
a waiver. -/
theorem permit_used_once (ids : Nat → String) (unique : Function.Injective ids) (w : World F)
    (unarmed : w.files.permit = none) (started : w.log = [])
    (list : List ((Setup F × List (Command F)) × List (Input F))) :
    (∀ id, (sessions ids list w).log.count (.executed (some id)) ≤ 1) ∧
      (∀ id later earlier, (sessions ids list w).log = later ++ .executed (some id) :: earlier →
        Consumed earlier id) ∧
      (∀ id later earlier, (sessions ids list w).log = later ++ .waived id :: earlier →
        ¬Spent earlier id) ∧
      ∀ setup inputs,
        (∀ s actual, ((machine ids).run (arm setup s actual) inputs
            (sessions ids list w)).2.files.apart = (sessions ids list w).files.apart) ∧
          (∀ d, ((machine ids).run (consume setup d) inputs
            (sessions ids list w)).2.files.apart = (sessions ids list w).files.apart) ∧
          ∀ f s,
            ((machine ids).run (evaluate setup f s) inputs
                (sessions ids list w)).2.files.apart = (sessions ids list w).files.apart ∧
              ∀ e, ((machine ids).run (evaluate setup f s) inputs (sessions ids list w)).1 =
                  .finished (.ok e) →
                KeepsHistory f s.entryHistory e.strategy.entryHistory ∧
                  (e.waived.isSome → e.strategy.entryHistory = s.entryHistory) := by
  have starts : PermitInvariant ids w := by
    refine ⟨?_, ?_, ?_, ?_, ?_⟩
    · rw [started]
      trivial
    · simp [started]
    · simp [unarmed]
    · simp [unarmed]
    · simp [started]
  have inv := sessions_permits unique starts list
  refine ⟨inv.once.count_le, ?_, ?_, fun setup inputs => rearm_keepsHistory setup inputs⟩
  · intro id later earlier logged
    have once := inv.once
    rw [logged] at once
    exact once.consumed
  · intro id later earlier logged
    have once := inv.once
    rw [logged] at once
    exact once.waived

/-- Identifiers of 32 digits and more. -/
def digits (n : Nat) : String := String.ofList (List.replicate (32 + n) '0')

theorem digits_injective : Function.Injective digits := by
  intro n m same
  have lengths := congrArg (fun text => text.toList.length) same
  simp only [digits, String.toList_ofList, List.length_replicate] at lengths
  omega

/-- Every operation succeeds and every record of another component is settled. -/
def Input.smooth : Input ℚ where
  succeeds := true
  effective := true
  flag := false
  now := 0
  collateral := (1000, 1000)
  registered := some true
  recorded := true

def liveBand : Setup ℚ := ⟨{ Shipped.ethBandPaper with mode := .live }, "binding"⟩

/-- A directory whose strategy waits after an earlier position. -/
def waitingDirectory : World ℚ where
  files := {
    checkpoint := some {
      schema := 1
      mode := .live
      strategy := { Strategy.default with phase := .paused, entryHistory := .established }
      paper := none }
    strategy := none
    paper := none
    lpHistory := some true
    registered := false
    baseline := true
    permit := none
    backups := [] }
  generated := 0
  log := []

/-- The operator asks for a permit, the next frame deploys under it, and the process stops in the
execution; another process goes on. -/
def armAndDeploy : List ((Setup ℚ × List (Command ℚ)) × List (Input ℚ)) :=
  let flat := Shipped.flatPortfolio 120 60 20
  let pass : Command ℚ := .iterate ⟨Shipped.frame 73 1 100 100 100 flat, [], 0⟩
  [((liveBand, [.arm flat, pass]), List.replicate 60 .smooth),
    ((liveBand, [pass]), List.replicate 60 .smooth)]

theorem permit_used_once_interrupted :
    .executed (some (digits 0)) ∈ (sessions digits armAndDeploy waitingDirectory).log ∧
      (sessions digits armAndDeploy waitingDirectory).log.count
        (.executed (some (digits 0))) ≤ 1 :=
  ⟨by decide +kernel,
    (permit_used_once digits digits_injective waitingDirectory rfl rfl armAndDeploy).1 _⟩

/-- An evaluation which cancels the permit observes a position, which settles the history of a
state from before the marker. -/
theorem rearm_observes_position :
    ¬∀ (setup : Setup ℚ) (f : MarketFrame ℚ) (s : Strategy ℚ) (inputs : List (Input ℚ))
      (w : World ℚ) (e : Evaluated ℚ),
      (∃ permit ∈ w.files.permit, permit.status = .armed) →
      ((machine digits).run (evaluate setup f s) inputs w).1 = .finished (.ok e) →
      e.strategy.entryHistory = s.entryHistory := by
  intro kept
  let s : Strategy ℚ := { Strategy.default with phase := .paused, entryHistory := .legacyUnknown }
  let f := Shipped.frame 73 1 100 100 100 (Shipped.heldPortfolio "range" 90 110 120 60 20)
  let w : World ℚ := { waitingDirectory with files := { waitingDirectory.files with
    permit := some ⟨1, digits 0, "binding", 0, .armed, 0⟩ } }
  have observed : (((machine digits).run (evaluate liveBand f s)
      (List.replicate 4 .smooth) w).1.returned?).map (fun e => e.strategy.entryHistory) =
        some .established := by
    decide +kernel
  cases finished : ((machine digits).run (evaluate liveBand f s) (List.replicate 4 .smooth) w).1 with
  | crashed =>
      rw [finished] at observed
      cases observed
  | finished result =>
      rw [finished] at observed
      cases result with
      | error _ => cases observed
      | ok e =>
          have settled : e.strategy.entryHistory = .established := Option.some.inj observed
          have same := kept liveBand f s _ w e ⟨_, rfl, rfl⟩ finished
          rw [settled] at same
          cases same

end Safety

end LpMaker.Runner
