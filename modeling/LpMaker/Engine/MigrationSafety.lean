import LpMaker.Engine.Migration
import LpMaker.Engine.ResetSafety

/-!
# Crash safety of the strategy switch

The marker is on disk from before the exit until after the installation, and belongs to the
configuration which the exit leaves. Without it, either nothing has changed or the last switch
was finished: a new configuration is in place, and the state directory is empty.
-/

namespace LpMaker.Migration

open Semantics
open Reset (Content Root MigrationMarker lockName markerName migrationMarkerName)

section Exit

/-- The operation does not remove the migration marker. -/
def Spares : Reset.Op → Prop
  | .removeFile name | .removeDirAll name => name ≠ migrationMarkerName
  | _ => True

theorem flattenSteps_spares (marker : Reset.Marker) (steps : List Reset.Step) :
    (Reset.flattenSteps marker steps).uses Spares := by
  induction steps generalizing marker with
  | nil => exact Program.uses_pure _
  | cons step rest inductionHypothesis =>
      refine Program.uses_bind (Program.uses_call.mpr trivial) fun _ => ?_
      exact Program.uses_bind (Program.uses_call.mpr trivial) fun _ => inductionHypothesis _

theorem verify_spares (count : Nat) (dust : Option BaseDust) :
    (Reset.verify count dust).uses Spares := by
  induction count generalizing dust with
  | zero => exact Program.uses_pure _
  | succ count inductionHypothesis =>
      refine Program.uses_bind (Program.uses_call.mpr trivial) fun _ => ?_
      refine Program.uses_bind (Program.uses_call.mpr trivial) fun _ => ?_
      refine Program.uses_bind (Program.uses_call.mpr trivial) fun _ => ?_
      exact Program.uses_bind (Program.uses_ofExcept _) fun _ => inductionHypothesis _

theorem flatten_spares : Reset.flatten.uses Spares := by
  refine Program.uses_bind (Program.uses_call.mpr trivial) fun _ => ?_
  refine Program.uses_bind (Program.uses_ofExcept _) fun marker => ?_
  refine Program.uses_bind (flattenSteps_spares marker _) fun _ => ?_
  refine Program.uses_bind (verify_spares 2 none) fun _ => ?_
  exact Program.uses_bind (Program.uses_call.mpr trivial) fun _ => Program.uses_pure _

theorem copyItem_spares (directory : String) (path : List String) (item : Reset.Item) :
    (Reset.copyItem directory path item).uses Spares := by
  unfold Reset.copyItem
  by_cases skipped : lockName ∈ path.dropLast
  · rw [if_pos skipped]
    exact Program.uses_pure _
  rw [if_neg skipped]
  cases item with
  | symlink | dir => trivial
  | file _ =>
      dsimp only
      split_ifs
      · exact Program.uses_pure _
      · exact Program.uses_call.mpr trivial
  | special =>
      dsimp only
      split_ifs <;> trivial

theorem copyItems_spares (directory : String) (items : List (List String × Reset.Item)) :
    (Reset.copyItems directory items).uses Spares := by
  induction items with
  | nil => exact Program.uses_pure _
  | cons entry rest inductionHypothesis =>
      exact Program.uses_bind (copyItem_spares directory entry.1 entry.2) fun _ =>
        inductionHypothesis

theorem copyNode_spares (name : String) (node : Reset.Node) :
    (Reset.copyNode name node).uses Spares := by
  cases node with
  | symlink => trivial
  | file _ =>
      unfold Reset.copyNode
      dsimp only
      split_ifs
      · exact Program.uses_pure _
      · exact Program.uses_call.mpr trivial
  | dir items =>
      unfold Reset.copyNode
      dsimp only
      split_ifs
      · exact Program.uses_pure _
      · exact copyItems_spares name items
  | special =>
      unfold Reset.copyNode
      dsimp only
      split_ifs <;> trivial

theorem copyTree_spares (entries : Root) : (Reset.copyTree entries).uses Spares := by
  induction entries with
  | nil => exact Program.uses_pure _
  | cons entry rest inductionHypothesis =>
      exact Program.uses_bind (copyNode_spares entry.1 entry.2) fun _ => inductionHypothesis

/-- Clearing the directory skips the migration marker. -/
theorem clear_spares (entries : Root) : (Reset.clear entries).uses Spares := by
  induction entries with
  | nil => exact Program.uses_pure _
  | cons entry rest inductionHypothesis =>
      obtain ⟨name, node⟩ := entry
      refine Program.uses_bind ?_ fun _ => inductionHypothesis
      unfold Reset.clearNode
      by_cases stays : name = lockName ∨ name = markerName ∨ name = migrationMarkerName
      · rw [if_pos stays]
        exact Program.uses_pure _
      · have other : name ≠ migrationMarkerName := fun same => stays (.inr (.inr same))
        rw [if_neg stays]
        cases node with
        | file _ | dir _ | symlink | special => exact Program.uses_call.mpr other

theorem archiveAndClear_spares : Reset.archiveAndClear.uses Spares := by
  refine Program.uses_bind (Program.uses_call.mpr trivial) fun _ => ?_
  refine Program.uses_bind (Program.uses_call.mpr trivial) fun _ => ?_
  refine Program.uses_bind (Program.uses_ofExcept _) fun _ => ?_
  refine Program.uses_bind (Program.uses_call.mpr trivial) fun _ => ?_
  refine Program.uses_bind (Program.uses_ofExcept _) fun _ => ?_
  refine Program.uses_bind (Program.uses_call.mpr trivial) fun _ => ?_
  refine Program.uses_bind (Program.uses_call.mpr trivial) fun entries => ?_
  refine Program.uses_bind (copyTree_spares entries) fun _ => ?_
  refine Program.uses_bind (Program.uses_call.mpr trivial) fun _ => ?_
  refine Program.uses_bind (Program.uses_call.mpr trivial) fun entries => ?_
  refine Program.uses_bind (clear_spares entries) fun _ => ?_
  refine Program.uses_bind (Program.uses_call.mpr ?_) fun _ => Program.uses_call.mpr trivial
  trivial

/-- A reset never removes the migration marker. -/
theorem request_spares (binding : Fingerprint) : (Reset.request binding).uses Spares := by
  refine Program.uses_bind (Program.uses_call.mpr trivial) fun entries => ?_
  refine Program.uses_bind (Program.uses_ofExcept _) fun _ => ?_
  refine Program.uses_bind (Program.uses_call.mpr trivial) fun _ => ?_
  refine Program.uses_bind (Program.uses_ofExcept _) fun _ => ?_
  refine Program.uses_bind (Program.uses_call.mpr trivial) fun marker => ?_
  refine Program.uses_bind ?_ fun _ => ?_
  · cases marker with
    | none => exact Program.uses_call.mpr trivial
    | some _ => exact Program.uses_ofExcept _
  refine Program.uses_bind (Program.uses_call.mpr trivial) fun _ => ?_
  refine Program.uses_bind flatten_spares fun _ => ?_
  exact Program.uses_bind archiveAndClear_spares fun _ => Program.uses_pure _

variable {op : Reset.Op} {input : Reset.Input} {w : Reset.World}

theorem effect_root (Kept : Root → Prop) {after : Reset.World} (before : Kept w.root)
    (held : Kept after.root) : Kept (input.effect w after).root := by
  unfold Reset.Input.effect
  split_ifs
  · exact held
  · exact before

/-- The migration marker is left alone by every operation which spares it. -/
theorem lookup_step (spares : Spares op) :
    (Reset.step op input w).2.root.lookup migrationMarkerName =
      w.root.lookup migrationMarkerName := by
  have effect : ∀ {after : Reset.World},
      after.root.lookup migrationMarkerName = w.root.lookup migrationMarkerName →
        (input.effect w after).root.lookup migrationMarkerName =
          w.root.lookup migrationMarkerName := fun held =>
    effect_root (fun root => root.lookup migrationMarkerName =
      w.root.lookup migrationMarkerName) rfl held
  cases op with
  | list | readConfig | readMarker | readPending | readUnresolved | createBackup | syncBackup
  | syncRoot => rfl
  | connect | perform _ | observe | appendEvent => exact Root.lookup_apply (by decide)
  | writeMarker _ | writeProof _ => exact effect (Root.lookup_write_ne (by decide))
  | copyFile _ _ => exact effect rfl
  | removeFile name => exact effect (Reset.lookup_filter_ne (Ne.symm spares))
  | removeMarker => exact effect (Reset.lookup_filter_ne (by decide))
  | removeDirAll name =>
      simp only [Reset.step]
      split_ifs
      · exact Reset.lookup_filter_ne (Ne.symm spares)
      · rw [Root.lookup_keep]
        simp [Ne.symm spares]

/-- The saved configuration is kept as it is, or removed. -/
theorem readConfig_step (op : Reset.Op) (input : Reset.Input) (w : Reset.World) :
    (Reset.step op input w).2.root.readConfig = .ok none ∨
    (Reset.step op input w).2.root.readConfig = w.root.readConfig := by
  have effect : ∀ {after : Reset.World},
      (after.root.readConfig = .ok none ∨ after.root.readConfig = w.root.readConfig) →
        ((input.effect w after).root.readConfig = .ok none ∨
          (input.effect w after).root.readConfig = w.root.readConfig) := fun held =>
    effect_root (fun root => root.readConfig = .ok none ∨
      root.readConfig = w.root.readConfig) (.inr rfl) held
  have of_lookup : ∀ {root : Root}, root.lookup "config.json" = w.root.lookup "config.json" →
      root.readConfig = w.root.readConfig := by
    intro root same
    unfold Root.readConfig
    rw [Root.read_congr same]
  cases op with
  | list | readConfig | readMarker | readPending | readUnresolved | createBackup | syncBackup
  | syncRoot => exact .inr rfl
  | connect | perform _ | observe | appendEvent =>
      exact .inr (of_lookup (Root.lookup_apply (by decide)))
  | writeMarker _ | writeProof _ =>
      exact effect (.inr (of_lookup (Root.lookup_write_ne (by decide))))
  | copyFile _ _ => exact effect (.inr rfl)
  | removeFile name => exact effect (Reset.readConfig_filter w.root name)
  | removeMarker => exact effect (Reset.readConfig_filter w.root markerName)
  | removeDirAll name =>
      simp only [Reset.step]
      split_ifs
      · exact Reset.readConfig_filter w.root name
      · exact .inr (Reset.readConfig_keep w.root name input.items)

end Exit

section Plan

variable {site : Site} {root : Root} {band : Bool} {current : Settings} {p : Plan}

/-- A later command of the same profile accepts this configuration and this marker. -/
structure Accepts (site : Site) (band : Bool) (current : Settings) (marker : MigrationMarker) :
    Prop where
  valid : site.validate current = .ok ()
  supported : supported current = .ok ()
  target : site.validate (site.target band current) = .ok ()
  exit : ∃ exit, exitSettings current marker.exitBinding = .ok exit ∧
    exit.fingerprint = marker.exitBinding ∧ site.validate exit = .ok ()
  marker : marker = ⟨1, profile band, site.path, marker.exitBinding,
    (site.target band current).fingerprint⟩

/-- The installed configuration is accepted like the one before it. -/
theorem Accepts.installed {marker : MigrationMarker} (accepts : Accepts site band current marker) :
    Accepts site band (site.target band current) marker where
  valid := accepts.target
  supported := accepts.supported
  target := accepts.target
  exit := accepts.exit
  marker := accepts.marker

theorem exitSettings_fingerprint (current : Settings) :
    exitSettings current current.fingerprint = .ok current := rfl

/-- What a plan has checked: the directory belongs to the exit, and a marker on disk is the
marker of this plan. -/
structure Planned (site : Site) (root : Root) (p : Plan) : Prop where
  exit : p.exit.fingerprint = p.marker.exitBinding
  bound : Reset.Bound p.marker.exitBinding root
  previous : readMigration root = .ok none ∨ readMigration root = .ok (some p.marker)

theorem exitFor_bound {old : Option Fingerprint} {saved : Option Fingerprint}
    {reset : Option Reset.Marker} {previous : Option MigrationMarker} {exit : Settings}
    (known : old = (saved <|> reset.map (·.binding) <|> previous.map (·.exitBinding)))
    (ran : exitFor current root old previous reset = .ok exit) :
    (∀ fingerprint ∈ saved, fingerprint = exit.fingerprint) ∧
      (∀ marker ∈ reset, marker.binding = exit.fingerprint) ∧
      (∀ marker ∈ previous, marker.exitBinding = exit.fingerprint) ∧
      exitSettings current exit.fingerprint = .ok exit := by
  cases old with
  | none =>
      simp only [exitFor, check_bind_eq_ok, ensure_eq_ok, Except.ok.injEq] at ran
      obtain ⟨-, rfl⟩ := ran
      cases saved <;> cases reset <;> cases previous <;> simp at known
      exact ⟨by simp, by simp, by simp, exitSettings_fingerprint _⟩
  | some old =>
      simp only [exitFor, bind_eq_ok, ensure_eq_ok, Except.ok.injEq] at ran
      obtain ⟨settings, decoded, -, belongs, -, migrating, -, resetting, rfl⟩ := ran
      refine ⟨fun fingerprint mem => ?_, fun marker mem => ?_, fun marker mem => ?_, ?_⟩
      · rw [belongs]
        cases mem
        simpa using known.symm
      · cases mem
        rw [belongs]
        simpa using resetting
      · cases mem
        rw [belongs]
        simpa using migrating
      · rw [belongs]
        exact decoded

/-- A plan is made for a directory which belongs to its exit, and is accepted again. -/
theorem planFor_eq_ok (ran : planFor site root band current = .ok p) :
    p.band = band ∧ p.target = site.target band current ∧ Planned site root p ∧
      (site.validate current = .ok () → Accepts site band current p.marker) := by
  simp only [planFor, bind_eq_ok, ensure_eq_ok, Except.ok.injEq] at ran
  obtain ⟨_, supports, _, target, previous, migration, -, same, saved, config, reset, marker, exit,
    exits, _, valid, rfl⟩ := ran
  obtain ⟨bySaved, byReset, byPrevious, decoded⟩ := exitFor_bound rfl exits
  refine ⟨rfl, rfl, ⟨rfl, ⟨?_, ?_⟩, ?_⟩,
    fun loads => ⟨loads, supports, target, ⟨exit, decoded, rfl, valid⟩, rfl⟩⟩
  · cases reset with
    | none => exact .inl marker
    | some held => exact .inr ⟨held, marker, byReset held rfl⟩
  · cases saved with
    | none => exact .inl config
    | some fingerprint => exact .inr (bySaved fingerprint rfl ▸ config)
  · cases previous with
    | none => exact .inl migration
    | some held =>
        right
        rw [migration]
        obtain ⟨schema, named, path, fingerprint⟩ : held.schema = 1 ∧
            held.profile = profile band ∧ held.configPath = site.path ∧
            held.targetBinding = (site.target band current).fingerprint := by
          simpa using same
        have exitBinding := byPrevious held rfl
        cases held
        simp_all

/-- While a migration is under way, an accepted configuration has a plan with its marker. -/
theorem planFor_of_accepts {marker : MigrationMarker}
    (accepts : Accepts site band current marker)
    (read : readMigration root = .ok (some marker))
    (bound : Reset.Bound marker.exitBinding root) :
    ∃ p, planFor site root band current = .ok p ∧ p.marker = marker := by
  obtain ⟨exit, decoded, belongs, valid⟩ := accepts.exit
  obtain ⟨saved, config, bySaved⟩ : ∃ saved : Option Fingerprint,
      root.readConfig = .ok saved ∧ ∀ fingerprint ∈ saved, fingerprint = marker.exitBinding := by
    rcases bound.config with absent | present
    · exact ⟨none, absent, by simp⟩
    · exact ⟨_, present, by simp⟩
  obtain ⟨reset, resetMarker, byReset⟩ : ∃ reset : Option Reset.Marker,
      root.readMarker = .ok reset ∧ ∀ held ∈ reset, held.binding = marker.exitBinding := by
    rcases bound.marker with absent | ⟨held, present, same⟩
    · exact ⟨none, absent, by simp⟩
    · exact ⟨_, present, by simpa using same⟩
  have known : (saved <|> reset.map (·.binding) <|> (some marker).map (·.exitBinding)) =
      some marker.exitBinding := by
    cases saved with
    | some fingerprint => simp [bySaved fingerprint rfl]
    | none =>
        cases reset with
        | some held => simp [byReset held rfl]
        | none => rfl
  have exits : exitFor current root (some marker.exitBinding) (some marker) reset = .ok exit := by
    simp only [exitFor, bind_eq_ok, ensure_eq_ok, Except.ok.injEq]
    refine ⟨exit, decoded, (), belongs, (), by simp, (), ?_, rfl⟩
    cases reset with
    | none => rfl
    | some held => simpa using byReset held rfl
  refine ⟨⟨band, exit, site.target band current, marker⟩, ?_, rfl⟩
  simp only [planFor, bind_eq_ok, ensure_eq_ok, Except.ok.injEq]
  refine ⟨(), accepts.supported, (), accepts.target, some marker, read, (), ?_, saved, config,
    reset, resetMarker, exit, ?_, (), valid, ?_⟩
  · rw [accepts.marker]
    simp
  · rw [known]
    exact exits
  · rw [belongs, ← accepts.marker]

end Plan

/-- What the configuration file holds after these events. -/
def latest (content : Content) : List Event → Content
  | [] => content
  | .edited content :: _ | .installed content _ :: _ => content
  | _ :: earlier => latest content earlier

/-- The history of the reset when the marker on disk was last written, if it is there. -/
def marking : List Event → Option (List Reset.Event)
  | [] => none
  | .marked reset :: _ => some reset
  | .finished _ :: _ => none
  | _ :: earlier => marking earlier

/-- Somebody else wrote the configuration file since the last switch was finished. -/
def touched : List Event → Bool
  | [] => false
  | .edited _ :: _ => true
  | .finished _ :: _ => false
  | _ :: earlier => touched earlier

/-- The state directory as it was at the start, or as the last finished switch left it. -/
def base (root : Root) : List Event → Root
  | [] => root
  | .finished left :: _ => left
  | _ :: earlier => base root earlier

/-- A configuration is installed only under the marker and after a reset which was started
since then has verified, archived and cleared the directory. The marker is removed only after
an installation, with nothing but the lock left. -/
def Sound (site : Site) : List Event → Prop
  | [] => True
  | .installed content exit :: earlier =>
      (∃ before, marking earlier = some before ∧ Reset.Finished before exit) ∧
        (∃ band current, content = render (site.target band current)) ∧ Sound site earlier
  | .finished left :: earlier =>
      (∃ content exit rest, earlier = .installed content exit :: rest) ∧
        (∀ entry ∈ left, entry.1 = lockName) ∧ Sound site earlier
  | _ :: earlier => Sound site earlier

/-- The history of the reset agrees with its marker. -/
structure Ready (state : Reset.World) : Prop where
  idle : state.root.readMarker = .ok none →
    Reset.underway state.log = false ∧ Reset.dirty state.log = false
  running : ∀ marker, state.root.readMarker = .ok (some marker) →
    Reset.underway state.log = true

/-- The migration marker is on disk, and the directory belongs to the exit it names. -/
structure Guarded (site : Site) (content : Content) (marker : MigrationMarker) (w : World) :
    Prop where
  read : readMigration w.state.root = .ok (some marker)
  reset : Reset.Invariant marker.exitBinding w.state
  config : w.state.root.readConfig = .ok none ∨
    w.state.root.readConfig = .ok (some marker.exitBinding)
  accepts : touched w.log = false → ∃ band current,
    parse (latest content w.log) = .ok current ∧ Accepts site band current marker

/-- What holds of the disk at every moment, when the configuration file held `content` and the
state directory was `root` at the start. -/
structure Invariant (site : Site) (content : Content) (root : Root) (w : World) : Prop where
  sound : Sound site w.log
  config : w.home.lookup site.name = some (.file (latest content w.log))
  justified : Reset.Justified w.state.log
  running : ∀ before, marking w.log = some before → ∃ marker, Guarded site content marker w
  idle : marking w.log = none → readMigration w.state.root = .ok none ∧ Ready w.state ∧
    ∀ name, name ≠ temporaryName →
      w.state.root.lookup name = (base root w.log).lookup name

section Keep

variable {site : Site} {content : Content} {root : Root} {w w' : World}

theorem readMigration_congr {root root' : Root}
    (same : root'.lookup migrationMarkerName = root.lookup migrationMarkerName) :
    readMigration root' = readMigration root := by
  unfold readMigration
  rw [Root.read_congr same]

theorem readMarker_congr {root root' : Root}
    (same : root'.lookup markerName = root.lookup markerName) :
    root'.readMarker = root.readMarker := by
  unfold Root.readMarker
  rw [Root.read_congr same]

theorem readConfig_congr {root root' : Root}
    (same : root'.lookup "config.json" = root.lookup "config.json") :
    root'.readConfig = root.readConfig := by
  unfold Root.readConfig
  rw [Root.read_congr same]

/-- Writing the temporary file changes nothing that is read. -/
theorem Guarded.congr {marker : MigrationMarker} (guarded : Guarded site content marker w)
    (log : w'.log = w.log) (history : w'.state.log = w.state.log)
    (same : ∀ name, name ≠ temporaryName →
      w'.state.root.lookup name = w.state.root.lookup name) :
    Guarded site content marker w' where
  read := (readMigration_congr (same _ (by decide))).trans guarded.read
  reset := guarded.reset.congr (history ▸ guarded.reset.justified) (by rw [history])
    (by rw [history]) (same _ (by decide)) (same _ (by decide))
  config := by
    rw [readConfig_congr (same _ (by decide))]
    exact guarded.config
  accepts := by
    rw [log]
    exact guarded.accepts

theorem Ready.congr {state state' : Reset.World} (ready : Ready state)
    (history : state'.log = state.log)
    (same : state'.root.lookup markerName = state.root.lookup markerName) : Ready state' := by
  constructor
  · intro absent
    rw [history]
    exact ready.idle (readMarker_congr same ▸ absent)
  · intro marker present
    rw [history]
    exact ready.running marker (readMarker_congr same ▸ present)

theorem Invariant.congr (inv : Invariant site content root w) (log : w'.log = w.log)
    (history : w'.state.log = w.state.log)
    (config : w'.home.lookup site.name = w.home.lookup site.name)
    (same : ∀ name, name ≠ temporaryName →
      w'.state.root.lookup name = w.state.root.lookup name) :
    Invariant site content root w' where
  sound := log ▸ inv.sound
  config := by rw [config, log, inv.config]
  justified := history ▸ inv.justified
  running := by
    intro before marked
    obtain ⟨marker, guarded⟩ := inv.running before (log ▸ marked)
    exact ⟨marker, guarded.congr log history same⟩
  idle := by
    intro stopped
    obtain ⟨absent, ready, unchanged⟩ := inv.idle (log ▸ stopped)
    refine ⟨(readMigration_congr (same _ (by decide))).trans absent,
      ready.congr history (same _ (by decide)), fun name other => ?_⟩
    rw [log, same name other]
    exact unchanged name other

/-- A change by somebody else is noticed by the history. -/
theorem Invariant.edited (inv : Invariant site content root w) (written : Content) (home : Root) :
    Invariant site content root
      { w with home := home.write site.name written, log := .edited written :: w.log } where
  sound := inv.sound
  config := Root.lookup_write_self
  justified := inv.justified
  running := by
    intro before marked
    obtain ⟨marker, guarded⟩ := inv.running before marked
    exact ⟨marker, guarded.read, guarded.reset, guarded.config, fun never => nomatch never⟩
  idle := inv.idle

end Keep

section Steps

variable {site : Site} {content : Content} {root : Root} {w : World} {p : Plan}

/-- A reset which is not under way, or is one of this exit, may be started or resumed. -/
theorem Ready.invariant {state : Reset.World} {binding : Fingerprint} (ready : Ready state)
    (justified : Reset.Justified state.log) (bound : Reset.Bound binding state.root) :
    Reset.Invariant binding state where
  justified := justified
  owned := by
    intro underway
    refine ⟨?_, bound.config⟩
    rcases bound.marker with absent | held
    · exact absurd underway (by simp [(ready.idle absent).1])
    · exact held
  idle := by
    intro stopped
    rcases bound.marker with absent | ⟨marker, present, -⟩
    · exact ⟨absent, (ready.idle absent).2⟩
    · exact absurd (ready.running marker present) (by simp [stopped])

theorem Invariant.reset (inv : Invariant site content root w)
    (planned : Planned site w.state.root p) :
    Reset.Invariant p.marker.exitBinding w.state := by
  cases marked : marking w.log with
  | none => exact (inv.idle marked).2.1.invariant inv.justified planned.bound
  | some before =>
      obtain ⟨marker, guarded⟩ := inv.running before marked
      rcases planned.previous with absent | present
      · cases guarded.read.symm.trans absent
      · have same : marker = p.marker := by
          simpa using guarded.read.symm.trans present
        exact same ▸ guarded.reset

theorem lookup_mark (name : String) (marker : MigrationMarker)
    (temporary : name ≠ temporaryName) (other : name ≠ migrationMarkerName) :
    (w.mark marker).state.root.lookup name = w.state.root.lookup name :=
  (Root.lookup_write_ne other).trans (Reset.lookup_filter_ne temporary)

theorem readMigration_mark (marker : MigrationMarker) :
    readMigration (w.mark marker).state.root = .ok (some marker) := by
  have held : (w.mark marker).state.root.lookup migrationMarkerName =
      some (.file (.migration marker)) := Root.lookup_write_self
  unfold readMigration Root.read
  rw [held]
  rfl

/-- A plan puts its marker in place. -/
theorem Invariant.mark (inv : Invariant site content root w)
    (planned : Planned site w.state.root p)
    (accepts : touched w.log = false → ∃ band current,
      parse (latest content w.log) = .ok current ∧ Accepts site band current p.marker) :
    Guarded site content p.marker (w.mark p.marker) ∧
      Invariant site content root (w.mark p.marker) := by
  have marker := lookup_mark (w := w) markerName p.marker (by decide) (by decide)
  have config := lookup_mark (w := w) "config.json" p.marker (by decide) (by decide)
  have guarded : Guarded site content p.marker (w.mark p.marker) := by
    refine ⟨readMigration_mark p.marker, ?_, ?_, accepts⟩
    · exact (inv.reset planned).congr inv.justified rfl rfl marker config
    · rw [readConfig_congr config]
      exact planned.bound.config
  refine ⟨guarded, inv.sound, inv.config, inv.justified, ?_, nofun⟩
  intro before marked
  exact ⟨p.marker, guarded⟩

/-- The installation under the marker, after a finished reset. -/
theorem Invariant.install {before : List Reset.Event} {band : Bool} {current : Settings}
    {marker : MigrationMarker} (inv : Invariant site content root w)
    (marked : marking w.log = some before) (exited : Reset.Finished before w.state.log)
    (home : Root) (guarded : Guarded site content marker w)
    (accepts : touched w.log = false → Accepts site band current marker) :
    Invariant site content root { w with
      home := home.write site.name (render (site.target band current))
      log := .installed (render (site.target band current)) w.state.log :: w.log } where
  sound := ⟨⟨before, marked, exited⟩, ⟨band, current, rfl⟩, inv.sound⟩
  config := Root.lookup_write_self
  justified := inv.justified
  running := by
    intro _ _
    refine ⟨marker, guarded.read, guarded.reset, guarded.config, fun untouched => ?_⟩
    exact ⟨band, site.target band current, rfl, (accepts untouched).installed⟩
  idle := by
    intro stopped
    exact absurd (marked.symm.trans stopped) nofun

theorem not_readMarker_of_cleared {root : Root} (cleared : Reset.Cleared root) :
    root.readMarker = .ok none := by
  refine Reset.readMarker_of_lookup ?_
  rw [List.lookup_eq_none_iff]
  intro entry mem
  have kept := cleared entry mem
  refine bne_iff_ne.mpr fun same => ?_
  rw [← same] at kept
  exact absurd kept (by decide)

/-- The marker is removed from a cleared directory after the installation. -/
theorem Invariant.finish {before : List Reset.Event} {written : Content}
    {exit : List Reset.Event} {earlier : List Event} (inv : Invariant site content root w)
    (installed : w.log = .installed written exit :: earlier)
    (exited : Reset.Finished before w.state.log) (cleared : Reset.Cleared w.state.root) :
    Invariant site content root w.finish := by
  have left : ∀ entry ∈ w.finish.state.root, entry.1 = lockName := by
    intro entry mem
    obtain ⟨member, other⟩ := List.mem_filter.mp mem
    have kept := cleared entry member
    simp only [Reset.keptNames, List.mem_cons, List.not_mem_nil, or_false] at kept
    exact kept.resolve_right (by simpa using other)
  have empty : Reset.Cleared w.finish.state.root := fun entry mem =>
    cleared entry (List.mem_filter.mp mem).1
  refine ⟨⟨⟨written, exit, earlier, installed⟩, left, inv.sound⟩, inv.config, inv.justified,
    by rintro _ ⟨⟩, fun _ => ⟨?_, ⟨?_, ?_⟩, fun _ _ => rfl⟩⟩
  · unfold readMigration Root.read
    rw [show w.finish.state.root.lookup migrationMarkerName = none from
      Reset.lookup_filter_self]
    rfl
  · intro _
    obtain ⟨last, rest, backup, history, -⟩ := exited
    have same : w.finish.state.log = .cleared last :: rest := history
    rw [same]
    exact ⟨rfl, rfl⟩
  · intro marker present
    cases (not_readMarker_of_cleared empty).symm.trans present

end Steps

section Rules

variable {site : Site} {Inv : World → Prop} {w : World} {input : Input}

theorem Input.reply_eq_ok {α : Type} {value : Except String α} {reply : α} :
    input.reply value = .ok reply ↔ input.succeeds = true ∧ value = .ok reply := by
  unfold Input.reply
  cases input.succeeds <;> simp

/-- An operation which changes nothing. -/
theorem spec_read {op : Op} {value : Except String op.Reply} {P : op.Reply → World → Prop}
    (stepped : ∀ input, step site op input w = (input.reply value, w)) (inv : Inv w)
    (post : ∀ reply, value = .ok reply → P reply w) : (machine site).spec Inv (call op) P w := by
  refine Machine.spec_call inv fun input => ?_
  rw [show (machine site).step op input w = _ from stepped input]
  exact ⟨inv, fun reply replied => post reply (Input.reply_eq_ok.mp replied).2⟩

/-- An operation which takes effect as a whole, or fails before or after that. -/
theorem spec_effect {op : Op} {reply : op.Reply} {after : World} {P : op.Reply → World → Prop}
    (stepped : ∀ input, step site op input w = (input.reply (.ok reply), input.effect w after))
    (inv : Inv w) (kept : Inv after) (post : P reply after) :
    (machine site).spec Inv (call op) P w := by
  refine Machine.spec_call inv fun input => ?_
  rw [show (machine site).step op input w = _ from stepped input]
  refine ⟨?_, fun reply' replied => ?_⟩
  · unfold Input.effect
    split_ifs
    · exact kept
    · exact inv
  · obtain ⟨succeeds, same⟩ := Input.reply_eq_ok.mp replied
    cases same
    unfold Input.effect
    rw [if_pos (.inl succeeds)]
    exact post

end Rules

section Switch

variable {site : Site} {content : Content} {root : Root} {w : World} {p : Plan}

/-- The configuration file was looked at again, perhaps after a change by somebody else. -/
structure Reread (site : Site) (w w' : World) : Prop where
  state : w'.state = w.state
  marking : marking w'.log = marking w.log
  unchanged : touched w'.log = false → w' = w
  others : ∀ name, name ≠ site.name → w'.home.lookup name = w.home.lookup name

theorem readConfig_spec (separate : site.shared = false) (inv : Invariant site content root w) :
    (machine site).spec (Invariant site content root) (call .readConfig)
      (fun value w' => value = latest content w'.log ∧ Reread site w w') w := by
  refine Machine.spec_call inv fun input => ?_
  have edited : Invariant site content root (w.edit site input.edit) ∧
      Reread site w (w.edit site input.edit) := by
    cases change : input.edit with
    | none => exact ⟨inv, rfl, rfl, fun _ => rfl, fun _ _ => rfl⟩
    | some written =>
        have same : w.edit site (some written) = { w with
            home := w.home.write site.name written, log := .edited written :: w.log } := by
          simp [World.edit, World.setDirectory, World.directory, separate]
        rw [same]
        exact ⟨inv.edited written w.home, rfl, rfl, nofun,
          fun name other => Root.lookup_write_ne other⟩
  refine ⟨edited.1, fun value replied => ?_⟩
  have read := (Input.reply_eq_ok.mp replied).2
  have home : (w.edit site input.edit).directory site = (w.edit site input.edit).home := by
    simp [World.directory, separate]
  rw [home, readRegular, edited.1.config] at read
  exact ⟨(Except.ok.inj read).symm, edited.2⟩

/-- The reset as a part of the larger world. -/
def embedding (site : Site) :
    Machine.Embedding Reset.machine (machine site) Op.reset fun _ => id where
  input := Input.reset
  world := World.state
  replies := fun op i w => by
    change ((Reset.step op i.reset w.state).1).map id = _
    cases (Reset.step op i.reset w.state).1 <;> rfl
  step := fun _ _ _ => rfl

/-- What the reset leaves alone. -/
structure Aside (w : World) (binding : Fingerprint) (w' : World) : Prop where
  home : w'.home = w.home
  log : w'.log = w.log
  marker : w'.state.root.lookup migrationMarkerName = w.state.root.lookup migrationMarkerName
  config : w'.state.root.readConfig = .ok none ∨ w'.state.root.readConfig = .ok (some binding)

theorem Aside.step {binding : Fingerprint} {w' : World} {op : Reset.Op} {input : Input}
    (spares : Spares op) (aside : Aside w binding w') :
    Aside w binding ((machine site).step (.reset op) input w').2 where
  home := aside.home
  log := aside.log
  marker := (lookup_step spares).trans aside.marker
  config := by
    rcases readConfig_step op input.reset w'.state with absent | same
    · exact .inl absent
    · exact (show Root.readConfig _ = _ from same) ▸ aside.config

/-- The exit keeps the marker, and clears the directory when it returns. -/
theorem exit_spec {marker : MigrationMarker} {before : List Reset.Event}
    (inv : Invariant site content root w) (marked : marking w.log = some before)
    (guarded : Guarded site content marker w) {settings : Settings}
    (belongs : settings.fingerprint = marker.exitBinding) :
    (machine site).spec (Invariant site content root) (exit settings)
      (fun _ w' => w'.home = w.home ∧ w'.log = w.log ∧ Guarded site content marker w' ∧
        Reset.Finished w.state.log w'.state.log ∧ Reset.Cleared w'.state.root) w := by
  have aside : Aside w marker.exitBinding w := ⟨rfl, rfl, rfl, guarded.config⟩
  have inner := Machine.wp_embed (embedding site) (fun _ _ _ spares aside => aside.step spares)
    (request_spares marker.exitBinding) aside (Reset.request_spec guarded.reset)
  have keeps : ∀ w' : World,
      Aside w marker.exitBinding w' ∧ Reset.Invariant marker.exitBinding w'.state →
        Guarded site content marker w' := by
    rintro w' ⟨⟨-, log, same, config⟩, reset⟩
    refine ⟨(readMigration_congr same).trans guarded.read, reset, config, ?_⟩
    rw [log]
    exact guarded.accepts
  have outer : ∀ w' : World,
      Aside w marker.exitBinding w' ∧ Reset.Invariant marker.exitBinding w'.state →
        Invariant site content root w' := by
    intro w' both
    have log := both.1.log
    refine ⟨log ▸ inv.sound, ?_, both.2.justified, fun _ _ => ⟨marker, keeps w' both⟩,
      fun stopped => ?_⟩
    · rw [both.1.home, log, inv.config]
    · rw [log, marked] at stopped
      cases stopped
  unfold exit
  rw [belongs]
  refine Machine.wp_mono (Machine.wp_mono_inv
    (Machine.wp_mono inner fun result w' both post => ?_) outer) fun result w' _ post => post
  intro dust finished
  obtain ⟨done, cleared⟩ := post.2 dust finished
  exact ⟨post.1.home, post.1.log, keeps w' both, done, cleared⟩

theorem Planned.congr {root root' : Root} (planned : Planned site root p)
    (same : ∀ name, name ≠ temporaryName → root'.lookup name = root.lookup name) :
    Planned site root' p where
  exit := planned.exit
  bound := by
    refine ⟨?_, ?_⟩
    · rw [readMarker_congr (same _ (by decide))]
      exact planned.bound.marker
    · rw [readConfig_congr (same _ (by decide))]
      exact planned.bound.config
  previous := by
    rw [readMigration_congr (same _ (by decide))]
    exact planned.previous

/-- The last switch was finished. -/
def Switched (w : World) : Prop := ∃ left earlier, w.log = .finished left :: earlier

/-- The plan was made for the configuration on disk. -/
structure Current (site : Site) (content : Content) (p : Plan) (original : Content)
    (current : Settings) (w : World) : Prop where
  planned : Planned site w.state.root p
  reads : original = latest content w.log
  parses : parse original = .ok current
  target : p.target = site.target p.band current
  accepts : touched w.log = false → Accepts site p.band current p.marker

theorem switch_spec {original : Content} {current : Settings} {staged : String}
    (separate : site.shared = false) (inv : Invariant site content root w)
    (now : Current site content p original current w) (fresh : staged ≠ site.name)
    (ready : w.home.lookup staged = some (.file (render p.target))) :
    (machine site).spec (Invariant site content root) (switch p original staged)
      (fun _ w' => Switched w') w := by
  refine Machine.spec_bind (spec_read (fun _ => rfl) inv fun _ _ => ?_)
  refine Machine.spec_bind (spec_read (fun _ => rfl) inv fun _ _ => ?_)
  refine Machine.spec_bind (spec_read (fun _ => rfl) inv fun _ _ => ?_)
  have others : ∀ name, name ≠ temporaryName →
      (w.state.root.write temporaryName (.other "")).lookup name = w.state.root.lookup name :=
    fun name other => Root.lookup_write_ne other
  have inv₁ : Invariant site content root { w with
      state := { w.state with root := w.state.root.write temporaryName (.other "") } } :=
    inv.congr rfl rfl rfl others
  refine Machine.spec_bind (spec_effect (fun _ => rfl) inv inv₁ ?_)
  obtain ⟨guarded₂, inv₂⟩ := inv₁.mark (now.planned.congr others) fun untouched =>
    ⟨p.band, current, now.reads ▸ now.parses, now.accepts untouched⟩
  refine Machine.spec_bind (spec_effect (fun _ => rfl) inv₁ inv₂ ?_)
  refine Machine.spec_bind (Machine.spec_mono
    (exit_spec inv₂ rfl guarded₂ now.planned.exit) ?_)
  rintro dust w₃ inv₃ ⟨home₃, log₃, guarded₃, exited, cleared⟩
  refine Machine.spec_bind (Machine.spec_ofExcept inv₃ fun _ _ => ?_)
  refine Machine.spec_bind (spec_read (fun _ => rfl) inv₃ fun _ _ => ?_)
  refine Machine.spec_bind (Machine.spec_ofExcept inv₃ fun _ _ => ?_)
  refine Machine.spec_bind (spec_read (fun _ => rfl) inv₃ fun _ _ => ?_)
  refine Machine.spec_bind (Machine.spec_ofExcept inv₃ fun _ _ => ?_)
  refine Machine.spec_bind (Machine.spec_mono (readConfig_spec separate inv₃) ?_)
  rintro again w₄ inv₄ ⟨-, reread⟩
  refine Machine.spec_bind (Machine.spec_ofExcept inv₄ fun _ _ => ?_)
  have held : readRegular (w₄.directory site) staged = .ok (render p.target) := by
    have home : w₄.home.lookup staged = w.home.lookup staged :=
      (reread.others staged fresh).trans (congrArg (List.lookup staged) home₃)
    rw [readRegular, World.directory, if_neg (by simp [separate]), home, ready]
  have guarded₄ : Guarded site content p.marker w₄ := by
    refine ⟨reread.state ▸ guarded₃.read, reread.state ▸ guarded₃.reset,
      reread.state ▸ guarded₃.config, fun untouched => ?_⟩
    obtain rfl := reread.unchanged untouched
    exact guarded₃.accepts untouched
  have accepts₄ : touched w₄.log = false → Accepts site p.band current p.marker := by
    intro untouched
    obtain rfl := reread.unchanged untouched
    rw [log₃] at untouched
    exact now.accepts untouched
  have marked₄ : marking w₄.log = some w.state.log := by
    rw [reread.marking, log₃]
    rfl
  have exited₄ : Reset.Finished w.state.log w₄.state.log := reread.state ▸ exited
  have inv₅ := inv₄.install marked₄ exited₄ (w₄.home.filter (·.1 ≠ staged)) guarded₄ accepts₄
  have installed : ∀ input, step site (.install staged) input w₄ =
      (input.reply (.ok ()), input.effect w₄ { w₄ with
        home := Root.write (w₄.home.filter (·.1 ≠ staged)) site.name
          (render (site.target p.band current))
        log := .installed (render (site.target p.band current)) w₄.state.log :: w₄.log }) := by
    have after : w₄.install site (render p.target) staged = { w₄ with
        home := Root.write (w₄.home.filter (·.1 ≠ staged)) site.name
          (render (site.target p.band current))
        log := .installed (render (site.target p.band current)) w₄.state.log :: w₄.log } := by
      simp [World.install, World.setDirectory, World.directory, separate, now.target]
    intro input
    simp only [step, held, after]
  refine Machine.spec_bind (spec_effect installed inv₄ inv₅ ?_)
  refine Machine.spec_bind (spec_read (fun _ => rfl) inv₅ fun _ _ => ?_)
  have inv₆ := inv₅.finish rfl exited₄ (reread.state ▸ cleared)
  refine Machine.spec_bind (spec_effect (fun _ => rfl) inv₅ inv₆ ?_)
  exact spec_read (fun _ => rfl) inv₆ fun _ _ => ⟨_, _, rfl⟩

/-- A staged file gets a new name, so it is not the configuration file. -/
theorem stage_spec (separate : site.shared = false) (inv : Invariant site content root w)
    (written : Content) :
    (machine site).spec (Invariant site content root) (call (.stage written))
      (fun staged w' => staged ≠ site.name ∧ w'.state = w.state ∧ w'.log = w.log ∧
        w'.home.lookup staged = some (.file written)) w := by
  refine Machine.spec_call inv fun input => ?_
  have directory : w.directory site = w.home := by simp [World.directory, separate]
  cases taken : w.home.lookup input.staged with
  | some node =>
      have stepped : (machine site).step (.stage written) input w = (.error "file exists", w) := by
        simp [step, directory, taken]
      rw [stepped]
      exact ⟨inv, nofun⟩
  | none =>
      have fresh : input.staged ≠ site.name := by
        intro same
        rw [same, inv.config] at taken
        cases taken
      have stepped : (machine site).step (.stage written) input w =
          (input.reply (.ok input.staged),
            input.effect w { w with home := w.home.write input.staged written }) := by
        simp [step, directory, taken, World.setDirectory, separate]
      have kept : Invariant site content root
          { w with home := w.home.write input.staged written } :=
        inv.congr rfl rfl (Root.lookup_write_ne fresh.symm) fun _ _ => rfl
      rw [stepped]
      refine ⟨?_, fun staged replied => ?_⟩
      · unfold Input.effect
        split_ifs
        · exact kept
        · exact inv
      · obtain ⟨succeeds, same⟩ := Input.reply_eq_ok.mp replied
        cases same
        unfold Input.effect
        rw [if_pos (.inl succeeds)]
        exact ⟨fresh, rfl, rfl, Root.lookup_write_self⟩

theorem unstage_spec {staged : String} (separate : site.shared = false)
    (inv : Invariant site content root w) (fresh : staged ≠ site.name) :
    (machine site).spec (Invariant site content root) (Program.tryCall (.unstage staged))
      (fun _ w' => w'.log = w.log) w := by
  refine Machine.spec_tryCall inv fun input => ?_
  have stepped : ((machine site).step (.unstage staged) input w).2 =
      input.effect w { w with home := w.home.filter (·.1 ≠ staged) } := by
    simp [step, World.directory, World.setDirectory, separate]
  have kept : Invariant site content root { w with home := w.home.filter (·.1 ≠ staged) } :=
    inv.congr rfl rfl (Reset.lookup_filter_ne fresh.symm) fun _ _ => rfl
  rw [stepped]
  unfold Input.effect
  split_ifs
  · exact ⟨kept, rfl⟩
  · exact ⟨inv, rfl⟩

theorem executePlan_spec {current : Settings} (separate : site.shared = false)
    (inv : Invariant site content root w) (planned : Planned site w.state.root p)
    (loaded : parse (latest content w.log) = .ok current)
    (valid : site.validate current = .ok ()) :
    (machine site).spec (Invariant site content root) (executePlan site p)
      (fun _ w' => Switched w') w := by
  refine Machine.spec_bind (Machine.spec_mono (readConfig_spec separate inv) ?_)
  rintro original w₁ inv₁ ⟨reads, reread⟩
  refine Machine.spec_bind (Machine.spec_ofExcept inv₁ fun disk parses => ?_)
  refine Machine.spec_bind (spec_read (fun _ => rfl) inv₁ fun found same => ?_)
  obtain rfl : w₁.state.root = found := Except.ok.inj same
  refine Machine.spec_bind (Machine.spec_ofExcept inv₁ fun second ran => ?_)
  obtain ⟨-, target, -, accepted⟩ := planFor_eq_ok ran
  refine Machine.spec_bind (Machine.spec_ofExcept inv₁ fun _ agrees => ?_)
  obtain ⟨sameMarker, sameTarget⟩ := ensure_eq_ok.mp agrees
  refine Machine.spec_bind (Machine.spec_mono (stage_spec separate inv₁ _) ?_)
  rintro staged w₂ inv₂ ⟨fresh, state₂, log₂, ready⟩
  have now : Current site content p original disk w₂ := by
    refine ⟨?_, ?_, parses, sameTarget ▸ target, fun untouched => ?_⟩
    · rw [state₂, reread.state]
      exact planned
    · rw [log₂]
      exact reads
    · -- Nobody wrote the file since it was loaded, so it still holds a valid configuration.
      rw [log₂] at untouched
      obtain rfl := reread.unchanged untouched
      have same : current = disk := Except.ok.inj (loaded.symm.trans (reads ▸ parses))
      exact sameMarker ▸ accepted (same ▸ valid)
  refine Machine.spec_bind (Machine.spec_mono
    (Machine.spec_attempt (switch_spec separate inv₂ now fresh ready)) ?_)
  rintro result w₃ inv₃ switched
  refine Machine.spec_bind (Machine.spec_mono (unstage_spec separate inv₃ fresh) ?_)
  rintro _ w₄ inv₄ sameLog
  refine Machine.spec_ofExcept inv₄ fun value finished => ?_
  unfold Switched
  rw [sameLog]
  exact switched value finished

/-- Every command keeps the invariant at each moment, and finishes a switch when it returns. -/
theorem requestFor_spec (separate : site.shared = false) (band : Bool)
    (inv : Invariant site content root w) :
    (machine site).spec (Invariant site content root) (requestFor site band)
      (fun _ w' => Switched w') w := by
  refine Machine.spec_bind (Machine.spec_mono (readConfig_spec separate inv) ?_)
  rintro _ w₁ inv₁ ⟨rfl, reread⟩
  refine Machine.spec_bind (Machine.spec_ofExcept inv₁ fun current loaded => ?_)
  refine Machine.spec_bind (Machine.spec_ofExcept inv₁ fun _ valid => ?_)
  refine Machine.spec_bind (spec_read (fun _ => rfl) inv₁ fun found same => ?_)
  obtain rfl : w₁.state.root = found := Except.ok.inj same
  refine Machine.spec_bind (Machine.spec_ofExcept inv₁ fun p ran => ?_)
  exact executePlan_spec separate inv₁ (planFor_eq_ok ran).2.2.1 loaded valid

end Switch

section Resume

variable {site : Site} {content : Content} {root : Root} {w : World} {p : Plan}

/-- An operation which succeeds while nobody edits the configuration file. -/
def Input.smooth (staged : String) : Input where
  succeeds := true
  effective := true
  edit := none
  staged := staged
  reset := .smooth

theorem can_step {op : Op} {reply : op.Reply} {after : World}
    {Q : Except String op.Reply → World → Prop} (input : Input)
    (stepped : step site op input w = (.ok reply, after)) (post : Q (.ok reply) after) :
    (machine site).can (call op) Q w := by
  refine Machine.can_call input ?_
  rw [show (machine site).step op input w = _ from stepped]
  exact post

theorem exists_fresh (directory : Root) : ∃ name, directory.lookup name = none := by
  obtain ⟨name, fresh⟩ := Infinite.exists_notMem_finset (directory.map Prod.fst).toFinset
  refine ⟨name, ?_⟩
  rw [List.lookup_eq_none_iff]
  intro entry mem
  refine bne_iff_ne.mpr fun same => fresh ?_
  rw [List.mem_toFinset, same]
  exact List.mem_map_of_mem mem

theorem Guarded.bound {marker : MigrationMarker} (guarded : Guarded site content marker w) :
    Reset.Bound marker.exitBinding w.state.root := by
  refine ⟨?_, guarded.config⟩
  cases running : Reset.underway w.state.log with
  | true => exact .inr (guarded.reset.owned running).marker
  | false => exact .inl (guarded.reset.idle running).1

/-- The exit can be finished. -/
theorem exit_can {marker : MigrationMarker} {before : List Reset.Event}
    (inv : Invariant site content root w) (marked : marking w.log = some before)
    (guarded : Guarded site content marker w) (regular : Reset.Regular w.state.root)
    {settings : Settings} (belongs : settings.fingerprint = marker.exitBinding) :
    (machine site).can (exit settings)
      (fun result w' => (∃ dust, result = .ok dust) ∧ Invariant site content root w' ∧
        w'.home = w.home ∧ w'.log = w.log ∧ Guarded site content marker w' ∧
          Reset.Cleared w'.state.root) w := by
  have covers : Function.Surjective (embedding site).input := fun reset =>
    ⟨{ Input.smooth "" with reset }, rfl⟩
  have finishes := Machine.can_embed (embedding site) covers
    (Reset.request_can regular guarded.bound)
  rw [← belongs] at finishes
  refine Machine.can_mono
    (Machine.can_and_wp finishes (exit_spec inv marked guarded belongs)) ?_
  rintro _ w' ⟨⟨dust, rfl⟩, inv', post⟩
  obtain ⟨home, log, guarded', -, cleared⟩ := post dust rfl
  exact ⟨⟨dust, rfl⟩, inv', home, log, guarded', cleared⟩

theorem step_readConfig (separate : site.shared = false) (inv : Invariant site content root w)
    (staged : String) :
    step site .readConfig (.smooth staged) w = (.ok (latest content w.log), w) := by
  have held : readRegular (w.directory site) site.name = .ok (latest content w.log) := by
    rw [readRegular, World.directory, if_neg (by simp [separate]), inv.config]
  change ((Input.smooth staged).reply (readRegular (w.directory site) site.name), w) = _
  rw [held]
  rfl

/-- From the backup of the configuration on, nothing needs to go wrong. -/
theorem switch_can {original : Content} {current : Settings} {staged : String}
    (separate : site.shared = false) (inv : Invariant site content root w)
    (now : Current site content p original current w)
    (ready : w.home.lookup staged = some (.file (render p.target)))
    (regular : Reset.Regular w.state.root) :
    (machine site).can (switch p original staged) (fun result _ => result = .ok ()) w := by
  refine Machine.can_seq (can_step (.smooth "") rfl ⟨(), rfl, ?_⟩)
  refine Machine.can_seq (can_step (.smooth "") rfl ⟨(), rfl, ?_⟩)
  refine Machine.can_seq (can_step (.smooth "") rfl ⟨(), rfl, ?_⟩)
  have others : ∀ name, name ≠ temporaryName →
      (w.state.root.write temporaryName (.other "")).lookup name = w.state.root.lookup name :=
    fun name other => Root.lookup_write_ne other
  have inv₁ : Invariant site content root { w with
      state := { w.state with root := w.state.root.write temporaryName (.other "") } } :=
    inv.congr rfl rfl rfl others
  refine Machine.can_seq (can_step (.smooth "") rfl ⟨(), rfl, ?_⟩)
  obtain ⟨guarded₂, inv₂⟩ := inv₁.mark (now.planned.congr others) fun untouched =>
    ⟨p.band, current, now.reads ▸ now.parses, now.accepts untouched⟩
  refine Machine.can_seq (can_step (.smooth "") rfl ⟨(), rfl, ?_⟩)
  have regular₂ := ((regular.write temporaryName (.other "")).filter
    (·.1 ≠ temporaryName)).write migrationMarkerName (.migration p.marker)
  refine Machine.can_seq (Machine.can_mono
    (exit_can inv₂ rfl guarded₂ regular₂ now.planned.exit) ?_)
  rintro _ w₃ ⟨⟨dust, rfl⟩, inv₃, home₃, log₃, guarded₃, cleared⟩
  have reported : status dust = "flat_and_reset" ∨
      status dust = "flat_with_base_dust_and_reset" := by
    cases dust with
    | none => exact .inl rfl
    | some _ => exact .inr rfl
  refine ⟨dust, rfl, Machine.can_seq (Machine.can_ofExcept (ensure_eq_ok.mpr reported)
    ⟨(), rfl, ?_⟩)⟩
  refine Machine.can_seq (can_step (.smooth "") rfl ⟨w₃.state.root, rfl, ?_⟩)
  have left : ∀ entry ∈ w₃.state.root,
      entry.1 = lockName ∨ entry.1 = migrationMarkerName := by
    intro entry mem
    simpa [Reset.keptNames] using cleared entry mem
  refine Machine.can_seq (Machine.can_ofExcept (ensure_eq_ok.mpr left) ⟨(), rfl, ?_⟩)
  have reads : step site .readMarker (.smooth "") w₃ = (.ok (some p.marker), w₃) := by
    simp only [step, guarded₃.read]
    rfl
  refine Machine.can_seq (can_step (.smooth "") reads ⟨some p.marker, rfl, ?_⟩)
  refine Machine.can_seq (Machine.can_ofExcept (ensure_eq_ok.mpr rfl) ⟨(), rfl, ?_⟩)
  refine Machine.can_seq
    (can_step (.smooth "") (step_readConfig separate inv₃ "") ⟨_, rfl, ?_⟩)
  have same : latest content w₃.log = original := by
    rw [log₃]
    exact now.reads.symm
  refine Machine.can_seq (Machine.can_ofExcept (ensure_eq_ok.mpr same) ⟨(), rfl, ?_⟩)
  have held : readRegular (w₃.directory site) staged = .ok (render p.target) := by
    have home : w₃.home.lookup staged = w.home.lookup staged :=
      congrArg (List.lookup staged) home₃
    rw [readRegular, World.directory, if_neg (by simp [separate]), home, ready]
  have installed : step site (.install staged) (.smooth "") w₃ =
      (.ok (), w₃.install site (render p.target) staged) := by
    simp only [step, held]
    rfl
  refine Machine.can_seq (can_step (.smooth "") installed ⟨(), rfl, ?_⟩)
  refine Machine.can_seq (can_step (.smooth "") rfl ⟨(), rfl, ?_⟩)
  refine Machine.can_seq (can_step (.smooth "") rfl ⟨(), rfl, ?_⟩)
  exact can_step (.smooth "") rfl rfl

/-- A command whose plan is accepted can finish the switch. -/
theorem requestFor_can {band : Bool} {current : Settings} (separate : site.shared = false)
    (inv : Invariant site content root w) (loaded : parse (latest content w.log) = .ok current)
    (valid : site.validate current = .ok ())
    (accepted : planFor site w.state.root band current = .ok p)
    (regular : Reset.Regular w.state.root) :
    (machine site).can (requestFor site band) (fun result _ => result = .ok ()) w := by
  obtain ⟨rfl, target, planned, accepts⟩ := planFor_eq_ok accepted
  have reads := step_readConfig separate inv
  refine Machine.can_seq (can_step (.smooth "") (reads "") ⟨_, rfl, ?_⟩)
  refine Machine.can_seq (Machine.can_ofExcept loaded ⟨current, rfl, ?_⟩)
  refine Machine.can_seq (Machine.can_ofExcept valid ⟨(), rfl, ?_⟩)
  refine Machine.can_seq (can_step (.smooth "") rfl ⟨w.state.root, rfl, ?_⟩)
  refine Machine.can_seq (Machine.can_ofExcept accepted ⟨p, rfl, ?_⟩)
  refine Machine.can_seq (can_step (.smooth "") (reads "") ⟨_, rfl, ?_⟩)
  refine Machine.can_seq (Machine.can_ofExcept loaded ⟨current, rfl, ?_⟩)
  refine Machine.can_seq (can_step (.smooth "") rfl ⟨w.state.root, rfl, ?_⟩)
  refine Machine.can_seq (Machine.can_ofExcept accepted ⟨p, rfl, ?_⟩)
  refine Machine.can_seq (Machine.can_ofExcept (ensure_eq_ok.mpr ⟨rfl, rfl⟩) ⟨(), rfl, ?_⟩)
  obtain ⟨staged, absent⟩ := exists_fresh w.home
  have fresh : staged ≠ site.name := by
    rintro rfl
    cases absent.symm.trans inv.config
  have stepped : step site (.stage (render p.target)) (.smooth staged) w =
      (.ok staged, { w with home := w.home.write staged (render p.target) }) := by
    simp [step, World.directory, World.setDirectory, separate, Input.smooth, absent,
      Input.reply, Input.effect]
  have inv₁ : Invariant site content root
      { w with home := w.home.write staged (render p.target) } :=
    inv.congr rfl rfl (Root.lookup_write_ne fresh.symm) fun _ _ => rfl
  refine Machine.can_seq (can_step (.smooth staged) stepped ⟨staged, rfl, ?_⟩)
  have now : Current site content p (latest content w.log) current
      { w with home := w.home.write staged (render p.target) } :=
    ⟨planned, rfl, loaded, target, fun _ => accepts valid⟩
  refine Machine.can_seq (Machine.can_mono (Machine.can_attempt
    (switch_can separate inv₁ now Root.lookup_write_self regular)) ?_)
  rintro _ w₂ ⟨_, rfl, rfl⟩
  refine ⟨.ok (), rfl, Machine.can_seq (Machine.can_tryCall (.smooth "") ⟨_, rfl, ?_⟩)⟩
  exact Machine.can_pure rfl

end Resume

section Safety

variable {site : Site} {content : Content} {root : Root} {w : World}

def Event.isEdit : Event → Bool
  | .edited _ => true
  | _ => false

def Event.isInstall : Event → Bool
  | .installed _ _ => true
  | _ => false

/-- No operation puts anything into the state directory that stops a copy. -/
theorem regular_step (separate : site.shared = false) {op : Op} {input : Input}
    (regular : Reset.Regular w.state.root) :
    Reset.Regular (step site op input w).2.state.root := by
  have effect : ∀ {after : World}, Reset.Regular after.state.root →
      Reset.Regular (input.effect w after).state.root := by
    intro after held
    unfold Input.effect
    split_ifs
    · exact held
    · exact regular
  cases op with
  | readState | readMarker | saveBackup _ _ | syncBackup | syncParent | syncRoot => exact regular
  | reset op => exact Reset.Regular.step regular
  | writeTemporary => exact effect (regular.write _ _)
  | writeMarker marker => exact effect ((regular.filter _).write _ _)
  | removeMarker => exact effect (regular.filter _)
  | unstage staged =>
      refine effect ?_
      simpa [World.setDirectory, separate] using regular
  | readConfig =>
      change Reset.Regular (w.edit site input.edit).state.root
      cases input.edit with
      | none => exact regular
      | some written => simpa [World.edit, World.setDirectory, separate] using regular
  | stage written =>
      simp only [step]
      split_ifs
      · exact regular
      · refine effect ?_
        simpa [World.setDirectory, separate] using regular
  | install staged =>
      simp only [step]
      cases readRegular (w.directory site) staged with
      | error _ => exact regular
      | ok written =>
          refine effect ?_
          simpa [World.install, World.setDirectory, separate] using regular

/-- The history of the switch only grows. -/
theorem log_step {log : List Event} {op : Op} {input : Input} (extended : log <:+ w.log) :
    log <:+ (step site op input w).2.log := by
  have effect : ∀ {after : World}, log <:+ after.log → log <:+ (input.effect w after).log := by
    intro after held
    unfold Input.effect
    split_ifs
    · exact held
    · exact extended
  have moved : ∀ directory : Root, (w.setDirectory site directory).log = w.log := by
    intro directory
    unfold World.setDirectory
    split_ifs <;> rfl
  cases op with
  | readState | readMarker | saveBackup _ _ | syncBackup | syncParent | syncRoot | reset _ =>
      exact extended
  | writeTemporary => exact effect extended
  | writeMarker _ | removeMarker => exact effect (extended.trans (List.suffix_cons _ _))
  | unstage staged => exact effect (by rwa [moved])
  | readConfig =>
      change log <:+ (w.edit site input.edit).log
      cases input.edit with
      | none => exact extended
      | some written => exact extended.trans (List.suffix_cons _ _)
  | stage written =>
      simp only [step]
      split_ifs
      · exact extended
      · exact effect (by rwa [moved])
  | install staged =>
      simp only [step]
      cases readRegular (w.directory site) staged with
      | error _ => exact extended
      | ok written => exact effect (extended.trans (List.suffix_cons _ _))

theorem log_run {α : Type} (program : Program α) (inputs : List Input) (w : World) :
    w.log <:+ ((machine site).run program inputs w).2.log :=
  @Machine.run_of_step _ _ _ _ _ _ (machine site) (fun w' => w.log <:+ w'.log)
    (fun _ _ _ => log_step) program inputs w (List.suffix_refl _)

theorem latest_append (events log : List Event) :
    latest content (events ++ log) = latest (latest content log) events := by
  induction events with
  | nil => rfl
  | cons event events inductionHypothesis =>
      cases event with
      | edited _ | installed _ _ => rfl
      | marked _ | finished _ => exact inductionHypothesis

/-- Without an edit or an installation the configuration file stays as it is. -/
theorem latest_of_quiet {events : List Event}
    (quiet : ∀ event ∈ events, event.isEdit = false ∧ event.isInstall = false) :
    latest content events = content := by
  induction events with
  | nil => rfl
  | cons event events inductionHypothesis =>
      obtain ⟨here, later⟩ := List.forall_mem_cons.mp quiet
      cases event with
      | edited _ => cases here.1
      | installed _ _ => cases here.2
      | marked _ | finished _ => exact inductionHypothesis later

/-- The state directory after its last switch was finished: nothing but the lock is left, and
only the operator has changed the configuration since. -/
def Installed (site : Site) (w : World) : Prop :=
  ∃ later left band current exit earlier,
    w.log = later ++ .finished left ::
        .installed (render (site.target band current)) exit :: earlier ∧
      (∀ event ∈ later, event.isEdit = true) ∧ (∀ entry ∈ left, entry.1 = lockName) ∧
      ∀ name, name ≠ temporaryName → w.state.root.lookup name = left.lookup name

/-- No switch has changed anything. -/
def Unchanged (root : Root) (w : World) : Prop :=
  (∀ event ∈ w.log, event.isEdit = true) ∧
    ∀ name, name ≠ temporaryName → w.state.root.lookup name = root.lookup name

/-- Without the marker, the history ends with a finished switch or has not begun. -/
theorem settled_of_sound (root : Root) {log : List Event} (sound : Sound site log)
    (stopped : marking log = none) :
    ((∀ event ∈ log, event.isEdit = true) ∧ base root log = root) ∨
      ∃ later left band current exit earlier,
        log = later ++ .finished left ::
            .installed (render (site.target band current)) exit :: earlier ∧
          (∀ event ∈ later, event.isEdit = true) ∧ (∀ entry ∈ left, entry.1 = lockName) ∧
          base root log = left := by
  induction log with
  | nil => exact .inl ⟨by simp, rfl⟩
  | cons event earlier inductionHypothesis =>
      cases event with
      | marked _ => cases stopped
      | installed written exit =>
          obtain ⟨⟨before, marked, -⟩, -, -⟩ := sound
          cases marked.symm.trans stopped
      | finished left =>
          obtain ⟨⟨written, exit, rest, rfl⟩, empty, -, ⟨band, current, rfl⟩, -⟩ := sound
          exact .inr ⟨[], left, band, current, exit, rest, rfl, by simp, empty, rfl⟩
      | edited written =>
          rcases inductionHypothesis sound stopped with ⟨edits, same⟩ | found
          · exact .inl ⟨List.forall_mem_cons.mpr ⟨rfl, edits⟩, same⟩
          · obtain ⟨later, left, band, current, exit, rest, rfl, edits, empty, same⟩ := found
            exact .inr ⟨.edited written :: later, left, band, current, exit, rest, rfl,
              List.forall_mem_cons.mpr ⟨rfl, edits⟩, empty, same⟩

theorem mayRun_of_marker {marker : MigrationMarker}
    (read : readMigration root = .ok (some marker)) : ∃ error, root.mayRun = .error error := by
  cases ran : root.mayRun with
  | error error => exact ⟨error, rfl⟩
  | ok _ =>
      exfalso
      simp only [Root.mayRun, bind_eq_ok, ensure_eq_ok] at ran
      obtain ⟨migration, reads, -, rfl, -⟩ := ran
      rw [readMigration, reads] at read
      cases read

/-- While the marker is there, a normal run is refused, every plan leaves by the exit binding
saved in the marker, and the switch can be finished by running a command again, unless somebody
edited the configuration or something stops a copy of the state directory. -/
structure Resumable (site : Site) (root : Root) (marker : MigrationMarker) (w : World) : Prop where
  read : readMigration w.state.root = .ok (some marker)
  refused : ∃ error, w.state.root.mayRun = .error error
  exit : ∀ band current p, planFor site w.state.root band current = .ok p →
    p.exit.fingerprint = marker.exitBinding
  resumes : touched w.log = false → Reset.Regular root → ∃ band inputs,
    ((machine site).run (requestFor site band) inputs w).1 = .finished (.ok ()) ∧
      Installed site ((machine site).run (requestFor site band) inputs w).2

theorem Invariant.installed (inv : Invariant site content root w) (switched : Switched w) :
    Installed site w := by
  obtain ⟨left, rest, log⟩ := switched
  have stopped : marking w.log = none := by rw [log]; rfl
  have unchanged := (inv.idle stopped).2.2
  rcases settled_of_sound root inv.sound stopped with ⟨edits, -⟩ | found
  · rw [log] at edits
    cases edits _ List.mem_cons_self
  · obtain ⟨later, left, band, current, exit, earlier, same, edits, empty, based⟩ := found
    exact ⟨later, left, band, current, exit, earlier, same, edits, empty, based ▸ unchanged⟩

theorem Invariant.resumable (separate : site.shared = false)
    (inv : Invariant site content root w) {marker : MigrationMarker}
    (guarded : Guarded site content marker w)
    (regular : Reset.Regular root → Reset.Regular w.state.root) :
    Resumable site root marker w where
  read := guarded.read
  refused := mayRun_of_marker guarded.read
  exit := by
    intro band current p planned
    obtain ⟨-, -, facts, -⟩ := planFor_eq_ok planned
    rcases facts.previous with absent | present
    · cases guarded.read.symm.trans absent
    · have same : marker = p.marker := by simpa using guarded.read.symm.trans present
      rw [same]
      exact facts.exit
  resumes := by
    intro untouched plain
    obtain ⟨band, current, loaded, accepts⟩ := guarded.accepts untouched
    obtain ⟨p, planned, -⟩ := planFor_of_accepts accepts guarded.read guarded.bound
    obtain ⟨inputs, _, finished, rfl⟩ :=
      requestFor_can separate inv loaded accepts.valid planned (regular plain)
    obtain ⟨inv', switched⟩ := Machine.spec_sound (requestFor_spec separate band inv) inputs
    exact ⟨band, inputs, finished, inv'.installed (switched () finished)⟩

/-- The history of the reset at the start, which may be under way already. -/
def opening (root : Root) : Reset.World where
  root := root
  backup := []
  log :=
    match root.readMarker with
    | .ok none => []
    | _ => [.marked]

/-- What a sequence of commands leaves on disk, each of them stopped anywhere. -/
def switches (site : Site) (runs : List (Bool × List Input)) (home root : Root) : World :=
  (machine site).sessions (requestFor site) runs ⟨home, opening root, []⟩

theorem switches_invariant (separate : site.shared = false) {home : Root}
    (configured : home.lookup site.name = some (.file content))
    (unmarked : readMigration root = .ok none) (runs : List (Bool × List Input)) :
    Invariant site content root (switches site runs home root) := by
  have ready : Ready (opening root) := by
    constructor
    · intro absent
      have absent : root.readMarker = .ok none := absent
      simp [opening, absent, Reset.underway, Reset.dirty]
    · intro marker present
      have present : root.readMarker = .ok (some marker) := present
      simp [opening, present, Reset.underway]
  have justified : Reset.Justified (opening root).log := by
    unfold opening
    split <;> trivial
  have starts : Invariant site content root ⟨home, opening root, []⟩ :=
    ⟨trivial, configured, justified, nofun, fun _ => ⟨unmarked, ready, fun _ _ => rfl⟩⟩
  exact Machine.sessions_inv_of_spec (P := fun _ _ w => Switched w) starts
    (fun band _ inv => requestFor_spec separate band inv) runs

theorem switches_regular (separate : site.shared = false) {home : Root}
    (regular : Reset.Regular root) (runs : List (Bool × List Input)) :
    Reset.Regular (switches site runs home root).state.root :=
  @Machine.sessions_of_step _ _ _ _ _ _ (machine site) _ (requestFor site)
    (fun w => Reset.Regular w.state.root) ⟨home, opening root, []⟩
    (fun _ _ _ held => regular_step separate held) regular runs

/-- However often a switch is started and wherever it stops, when the configuration file does
not lie in the state directory: a configuration is installed only under the marker and after a
completed exit; the marker is on disk and the switch resumable, or the last switch is complete,
or nothing has changed; and a command which does not install leaves the configuration file as
it is. -/
theorem switch_crash_safe (site : Site) (separate : site.shared = false) (home root : Root)
    (content : Content) (configured : home.lookup site.name = some (.file content))
    (unmarked : readMigration root = .ok none) (runs : List (Bool × List Input)) :
    Sound site (switches site runs home root).log ∧
      Reset.Justified (switches site runs home root).state.log ∧
      ((∃ marker, Resumable site root marker (switches site runs home root)) ∨
        readMigration (switches site runs home root).state.root = .ok none ∧
          (Installed site (switches site runs home root) ∨
            Unchanged root (switches site runs home root))) ∧
      (switches site runs home root).home.lookup site.name =
        some (.file (latest content (switches site runs home root).log)) ∧
      ∀ band inputs, ∃ events,
        ((machine site).run (requestFor site band) inputs (switches site runs home root)).2.log =
          events ++ (switches site runs home root).log ∧
        ((∀ event ∈ events, event.isEdit = false ∧ event.isInstall = false) →
          ((machine site).run (requestFor site band) inputs
            (switches site runs home root)).2.home.lookup site.name =
          (switches site runs home root).home.lookup site.name) := by
  have inv := switches_invariant separate configured unmarked runs
  refine ⟨inv.sound, inv.justified, ?_, inv.config, fun band inputs => ?_⟩
  · cases marked : marking (switches site runs home root).log with
    | some before =>
        obtain ⟨marker, guarded⟩ := inv.running before marked
        exact .inl ⟨marker, inv.resumable separate guarded fun regular =>
          switches_regular separate regular runs⟩
    | none =>
        obtain ⟨absent, -, unchanged⟩ := inv.idle marked
        refine .inr ⟨absent, ?_⟩
        rcases settled_of_sound root inv.sound marked with ⟨edits, based⟩ | found
        · exact .inr ⟨edits, fun name other =>
            (unchanged name other).trans (congrArg (List.lookup name) based)⟩
        · obtain ⟨later, left, band, current, exit, earlier, same, edits, empty, based⟩ := found
          exact .inl ⟨later, left, band, current, exit, earlier, same, edits, empty,
            fun name other => (unchanged name other).trans (congrArg (List.lookup name) based)⟩
  · obtain ⟨events, extended⟩ := log_run (requestFor site band) inputs
      (switches site runs home root)
    obtain ⟨inv', -⟩ := Machine.spec_sound (requestFor_spec separate band inv) inputs
    refine ⟨events, extended.symm, fun quiet => ?_⟩
    rw [inv'.config, inv.config, ← extended, latest_append, latest_of_quiet quiet]

/-- A live configuration of the supported pool. -/
def server : Settings where
  mode := .live
  stateDir := "data/live-200"
  liquidity := ⟨4663, "0x52e65B17fB6E5BA00Ed806f37Afcd2DaA50271Ca", "weth-usdg"⟩
  strategy := "old"
  hyperliquid := ⟨true, "ETH", "account"⟩
  crossMargin := false
  leverage := 2
  other := ""

/-- The command of this server, whose configuration is valid. -/
def deployment (shared : Bool) : Site where
  template := fun band => if band then "band" else "dd5"
  validate := fun _ => .ok ()
  path := if shared then "/srv/data/live-200/local.toml" else "/srv/config/local.toml"
  name := "local.toml"
  shared := shared

def stateFiles : Root :=
  [("process.lock", .file (.other "")), ("config.json", .file (.config server.fingerprint)),
    ("checkpoint.json", .file (.other "state"))]

/-- One command stops in the middle of the exit. -/
theorem switch_crash_safe_interrupted :
    ∃ marker, Resumable (deployment false) stateFiles marker
      (switches (deployment false) [(true, List.replicate 40 (.smooth ".lp-maker-switch.toml"))]
        [("local.toml", .file (.toml "" server))] stateFiles) := by
  have safe := switch_crash_safe (deployment false) rfl
    [("local.toml", .file (.toml "" server))] stateFiles (.toml "" server) rfl rfl
    [(true, List.replicate 40 (.smooth ".lp-maker-switch.toml"))]
  rcases safe.2.2.1 with resumable | ⟨absent, -⟩
  · exact resumable
  · exact absurd absent (by decide +kernel)

/-- The exit clears the state directory together with a configuration file in it. -/
theorem switch_loses_shared_config :
    let start : World :=
      ⟨[], ⟨("local.toml", .file (.toml "" server)) :: stateFiles, [], []⟩, []⟩
    let ended := (machine (deployment true)).run (requestFor (deployment true) true)
      (List.replicate 90 (.smooth ".lp-maker-switch.toml")) start
    ended.1 = .finished (.error "not found") ∧
      (∀ event ∈ ended.2.log, event.isEdit = false ∧ event.isInstall = false) ∧
      (start.directory (deployment true)).lookup "local.toml" =
        some (.file (.toml "" server)) ∧
      (ended.2.directory (deployment true)).lookup "local.toml" = none := by
  decide +kernel

end Safety

end LpMaker.Migration
