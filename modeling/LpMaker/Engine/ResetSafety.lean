import LpMaker.Engine.Reset

/-!
# Crash safety of the manual reset

Entries are removed only after one uninterrupted run of all steps, two valid observations and
a backup of everything still present. From the first write of the marker until nothing else
is left, the marker stays on disk and belongs to the configuration which wrote it.
-/

namespace LpMaker.Reset

open Semantics

section Root

variable {root : Root} {name other : String} {content : Content} {node : Node}

theorem lookup_filter_ne (distinct : other ≠ name) :
    (root.filter (·.1 ≠ name)).lookup other = root.lookup other := by
  induction root with
  | nil => rfl
  | cons entry rest inductionHypothesis =>
      obtain ⟨key, node⟩ := entry
      by_cases same : key = name
      · have different : (other == key) = false := beq_false_of_ne (same ▸ distinct)
        have removed : decide ((key, node).1 ≠ name) = false := by simp [same]
        rw [List.filter_cons_of_neg (by simp [same]), inductionHypothesis, List.lookup_cons,
          different]
      · rw [List.filter_cons_of_pos (by simpa using same), List.lookup_cons, List.lookup_cons,
          inductionHypothesis]

theorem lookup_filter_self : (root.filter (·.1 ≠ name)).lookup name = none := by
  rw [List.lookup_eq_none_iff]
  intro entry mem
  have kept : entry.1 ≠ name := by simpa using (List.mem_filter.mp mem).2
  exact bne_iff_ne.mpr kept.symm

@[simp] theorem Root.lookup_write_self :
    (root.write name content).lookup name = some (.file content) := by
  simp [Root.write]

theorem Root.lookup_write_ne (distinct : other ≠ name) :
    (root.write name content).lookup other = root.lookup other := by
  rw [Root.write, List.lookup_cons, beq_false_of_ne distinct]
  exact lookup_filter_ne distinct

/-- The venue operations leave the protected files alone. -/
theorem Root.lookup_apply {files : List (String × Content)}
    (guarded : name ∈ protectedNames) : (root.apply files).lookup name = root.lookup name := by
  unfold Root.apply
  have others : ∀ file ∈ files.filter (fun file => file.1 ∉ protectedNames), file.1 ≠ name := by
    intro file mem same
    have allowed := (List.mem_filter.mp mem).2
    rw [same] at allowed
    simp [guarded] at allowed
  generalize files.filter (fun file => file.1 ∉ protectedNames) = allowed at others
  induction allowed generalizing root with
  | nil => rfl
  | cons file rest inductionHypothesis =>
      obtain ⟨here, later⟩ := List.forall_mem_cons.mp others
      rw [List.foldl_cons, inductionHypothesis later, Root.lookup_write_ne (Ne.symm here)]

/-- Reads depend on their own file only. -/
theorem Root.read_congr {root' : Root} (same : root.lookup name = root'.lookup name) :
    root.read name = root'.read name := by
  unfold Root.read
  rw [same]

theorem Root.lookup_keep {kept : List (List String × Item)} :
    (root.map fun entry =>
        if entry.1 = name then (name, entry.2.keep kept) else entry).lookup other =
      (root.lookup other).map fun node => if other = name then node.keep kept else node := by
  induction root with
  | nil => rfl
  | cons entry rest inductionHypothesis =>
      obtain ⟨key, node⟩ := entry
      rw [List.map_cons, List.lookup_cons, List.lookup_cons, inductionHypothesis]
      by_cases found : other = key
      · subst found
        by_cases same : other = name <;> simp [same]
      · by_cases same : key = name
        · have different : (other == name) = false := beq_false_of_ne (same ▸ found)
          simp [same, different]
        · simp [same, beq_false_of_ne found]

end Root

/-- After `base`, all steps in order and two valid observations, with nothing in between. -/
def Verified (base log : List Event) : Prop :=
  ∃ first second earlier,
    log = .observed second :: .observed first :: (steps.reverse.map .performed ++ earlier) ∧
      base <:+ earlier ∧ first.validate = .ok () ∧ second.validate = .ok ()

theorem Verified.weaken {base base' log : List Event} (verified : Verified base log)
    (earlier : base' <:+ base) : Verified base' log := by
  obtain ⟨first, second, rest, same, extended, valid⟩ := verified
  exact ⟨first, second, rest, same, earlier.trans extended, valid⟩

/-- The backup was completed after a verification, and since then entries were only removed. -/
inductive Archived (base : List Event) (backup : Files) : List Event → Prop where
  | taken {log : List Event} (verified : Verified base log) :
      Archived base backup (.archived backup :: log)
  | removed {log : List Event} {before : Root} {name : String}
      (archived : Archived base backup log) : Archived base backup (.removed before name :: log)

theorem Archived.weaken {base : List Event} {backup : Files} {log : List Event}
    (archived : Archived base backup log) : Archived [] backup log := by
  induction archived with
  | taken verified => exact .taken (verified.weaken List.nil_suffix)
  | removed _ inductionHypothesis => exact .removed inductionHypothesis

/-- The backup contains every file of the directory, locks apart. -/
def Covers (backup : Files) (root : Root) : Prop :=
  ∀ file ∈ root.files, lockName ∉ file.1 → file ∈ backup

/-- Every removal follows a verification and a complete backup of what was present, and the
marker was removed only when nothing else was left. -/
def Justified : List Event → Prop
  | [] => True
  | .removed before _ :: earlier =>
      (∃ backup, Archived [] backup earlier ∧ Covers backup before) ∧ Justified earlier
  | .cleared left :: earlier =>
      (∀ entry ∈ left, entry.1 ∈ keptNames) ∧ Justified earlier
  | _ :: earlier => Justified earlier

/-- The marker has been written and not been removed since. -/
def underway : List Event → Bool
  | [] => false
  | .marked :: _ => true
  | .cleared _ :: _ => false
  | _ :: earlier => underway earlier

/-- Something has been removed since the directory was last cleared completely. -/
def dirty : List Event → Bool
  | [] => false
  | .removed _ _ :: _ => true
  | .cleared _ :: _ => false
  | _ :: earlier => dirty earlier

/-- The marker is on disk and belongs to this configuration, as does a saved configuration. -/
structure Owned (binding : Fingerprint) (root : Root) : Prop where
  marker : ∃ marker, root.readMarker = .ok (some marker) ∧ marker.binding = binding
  config : root.readConfig = .ok none ∨ root.readConfig = .ok (some binding)

/-- What holds of the disk at every moment. -/
structure Invariant (binding : Fingerprint) (w : World) : Prop where
  justified : Justified w.log
  owned : underway w.log = true → Owned binding w.root
  idle : underway w.log = false → w.root.readMarker = .ok none ∧ dirty w.log = false

section Rules

variable {Inv : World → Prop} {w : World} {input : Input}

theorem Input.reply_eq_ok {α : Type} {value : Except String α} {reply : α} :
    input.reply value = .ok reply ↔ input.succeeds = true ∧ value = .ok reply := by
  unfold Input.reply
  cases input.succeeds <;> simp

/-- An operation which only reads. -/
theorem spec_read {op : Op} {value : Except String op.Reply} {P : op.Reply → World → Prop}
    (stepped : ∀ input, step op input w = (input.reply value, w)) (inv : Inv w)
    (post : ∀ reply, value = .ok reply → P reply w) : machine.spec Inv (call op) P w := by
  refine Machine.spec_call inv fun input => ?_
  rw [show machine.step op input w = _ from stepped input]
  exact ⟨inv, fun reply replied => post reply (Input.reply_eq_ok.mp replied).2⟩

/-- An operation which takes effect as a whole, or fails before or after that. -/
theorem spec_effect {op : Op} {reply : op.Reply} {after : World} {P : op.Reply → World → Prop}
    (stepped : ∀ input, step op input w = (input.reply (.ok reply), input.effect w after))
    (inv : Inv w) (kept : Inv after) (post : P reply after) :
    machine.spec Inv (call op) P w := by
  refine Machine.spec_call inv fun input => ?_
  rw [show machine.step op input w = _ from stepped input]
  refine ⟨?_, fun reply' replied => ?_⟩
  · unfold Input.effect
    split_ifs
    · exact kept
    · exact inv
  · obtain ⟨succeeds, same⟩ := Input.reply_eq_ok.mp replied
    cases same
    unfold Input.effect
    rw [if_pos (.inl succeeds)]
    exact post

end Rules

section Keep

variable {binding : Fingerprint} {w w' : World}

/-- The invariant depends on the history and on the two files it is about. -/
theorem Invariant.congr (inv : Invariant binding w)
    (justified : Justified w'.log) (running : underway w'.log = underway w.log)
    (clean : dirty w'.log = dirty w.log)
    (marker : w'.root.lookup markerName = w.root.lookup markerName)
    (config : w'.root.lookup "config.json" = w.root.lookup "config.json") :
    Invariant binding w' := by
  have readMarker : w'.root.readMarker = w.root.readMarker := by
    unfold Root.readMarker
    rw [Root.read_congr marker]
  have readConfig : w'.root.readConfig = w.root.readConfig := by
    unfold Root.readConfig
    rw [Root.read_congr config]
  refine ⟨justified, fun started => ?_, fun stopped => ?_⟩
  · obtain ⟨held, saved⟩ := inv.owned (running ▸ started)
    exact ⟨readMarker ▸ held, readConfig ▸ saved⟩
  · obtain ⟨absent, untouched⟩ := inv.idle (running ▸ stopped)
    exact ⟨readMarker ▸ absent, clean ▸ untouched⟩

theorem Invariant.apply (inv : Invariant binding w) (files : List (String × Content)) :
    Invariant binding { w with root := w.root.apply files } :=
  inv.congr inv.justified rfl rfl (Root.lookup_apply (by decide)) (Root.lookup_apply (by decide))

theorem Owned.writeMarker {root : Root} {marker : Marker} (owned : Owned binding root)
    (belongs : marker.binding = binding) :
    Owned binding (root.write markerName (.marker marker)) := by
  refine ⟨⟨marker, ?_, belongs⟩, ?_⟩
  · simp [Root.readMarker, Root.read]
  · have config : (root.write markerName (.marker marker)).readConfig = root.readConfig := by
      unfold Root.readConfig
      rw [Root.read_congr (Root.lookup_write_ne (by decide))]
    rw [config]
    exact owned.config

/-- Writing a later stage keeps the invariant of a reset in progress. -/
theorem Invariant.writeMarker {marker : Marker} (inv : Invariant binding w)
    (running : underway w.log = true) (belongs : marker.binding = binding) :
    Invariant binding { w with root := w.root.write markerName (.marker marker) } where
  justified := inv.justified
  owned := fun _ => (inv.owned running).writeMarker belongs
  idle := fun stopped => absurd stopped (by simp [running])

/-- An event which records progress only. -/
def Event.Progress : Event → Prop
  | .performed _ | .observed _ | .archived _ => True
  | _ => False

theorem Invariant.record {event : Event} (inv : Invariant binding w) (progress : event.Progress) :
    Invariant binding { w with log := event :: w.log } := by
  cases event with
  | performed _ | observed _ | archived _ => exact inv.congr inv.justified rfl rfl rfl rfl
  | marked | removed _ _ | cleared _ => cases progress

/-- A venue operation which is recorded when it succeeds. -/
theorem spec_recorded {op : Op} {reply : Input → op.Reply} {event : Input → Event}
    {P : op.Reply → World → Prop}
    (stepped : ∀ input, step op input w =
      (input.reply (.ok (reply input)),
        { w with
          root := w.root.apply input.files
          log := if input.succeeds then event input :: w.log else w.log }))
    (progress : ∀ input, (event input).Progress) (inv : Invariant binding w)
    (post : ∀ input,
      Invariant binding
        { w with root := w.root.apply input.files, log := event input :: w.log } →
      P (reply input) { w with root := w.root.apply input.files, log := event input :: w.log }) :
    machine.spec (Invariant binding) (call op) P w := by
  refine Machine.spec_call inv fun input => ?_
  rw [show machine.step op input w = _ from stepped input]
  have recorded := (inv.apply input.files).record (progress input)
  refine ⟨?_, fun value replied => ?_⟩
  · dsimp only
    split_ifs
    · exact recorded
    · exact inv.apply input.files
  · obtain ⟨succeeds, same⟩ := Input.reply_eq_ok.mp replied
    cases same
    rw [if_pos succeeds]
    exact post input recorded

end Keep

section Flatten

variable {binding : Fingerprint} {w : World}

theorem writeMarker_spec (marker : Marker) (inv : Invariant binding w)
    (running : underway w.log = true) (belongs : marker.binding = binding)
    (later : marker.stage ≠ .started) :
    machine.spec (Invariant binding) (call (.writeMarker marker))
      (fun _ w' => w'.log = w.log) w := by
  have stepped : ∀ input, step (.writeMarker marker) input w =
      (input.reply (.ok ()),
        input.effect w { w with root := w.root.write markerName (.marker marker) }) := by
    intro input
    simp only [step, if_neg later]
  exact spec_effect stepped inv (inv.writeMarker running belongs) rfl

/-- Performing the steps records them in order. -/
theorem flattenSteps_spec (remaining : List Step) {marker : Marker} (inv : Invariant binding w)
    (running : underway w.log = true) (belongs : marker.binding = binding) :
    machine.spec (Invariant binding) (flattenSteps marker remaining)
      (fun result w' => result.binding = binding ∧ underway w'.log = true ∧
        w'.log = remaining.reverse.map .performed ++ w.log) w := by
  induction remaining generalizing marker w with
  | nil => exact Machine.spec_pure inv ⟨belongs, running, rfl⟩
  | cons step rest inductionHypothesis =>
      refine Machine.spec_bind (Machine.spec_mono
        (writeMarker_spec { marker with stage := .step step } inv running belongs nofun) ?_)
      rintro _ w₁ inv₁ sameLog
      refine Machine.spec_bind (spec_recorded (fun _ => rfl) (fun _ => trivial) inv₁
        fun input inv₂ => ?_)
      have running₂ : underway (.performed step :: w₁.log) = true := by
        rw [sameLog]
        exact running
      refine Machine.spec_mono (inductionHypothesis inv₂ running₂ belongs) ?_
      rintro result w' - ⟨held, still, extended⟩
      refine ⟨held, still, ?_⟩
      rw [extended, sameLog]
      simp

/-- Observing records one valid observation after the other. -/
theorem verify_spec (count : Nat) (dust : Option BaseDust) (inv : Invariant binding w)
    (running : underway w.log = true) :
    machine.spec (Invariant binding) (verify count dust)
      (fun _ w' => underway w'.log = true ∧ ∃ proofs : List Proof, proofs.length = count ∧
        (∀ proof ∈ proofs, proof.validate = .ok ()) ∧
        w'.log = proofs.map .observed ++ w.log) w := by
  induction count generalizing dust w with
  | zero => exact Machine.spec_pure inv ⟨running, [], rfl, nofun, rfl⟩
  | succ count inductionHypothesis =>
      refine Machine.spec_bind (spec_recorded (fun _ => rfl) (fun _ => trivial) inv
        fun input inv₁ => ?_)
      refine Machine.spec_bind (Machine.spec_call inv₁ fun input₂ =>
        ⟨inv₁.apply input₂.files, fun _ _ => ?_⟩)
      have inv₂ := inv₁.apply input₂.files
      refine Machine.spec_bind (spec_effect (fun _ => rfl) inv₂ (inv₂.congr inv₂.justified rfl rfl
        (Root.lookup_write_ne (by decide)) (Root.lookup_write_ne (by decide))) ?_)
      have inv₃ : Invariant binding { w with
          root := ((w.root.apply input.files).apply input₂.files).write
            "manual_reset_proof.json" (.other "proof")
          log := .observed input.proof :: w.log } :=
        inv₂.congr inv₂.justified rfl rfl
          (Root.lookup_write_ne (by decide)) (Root.lookup_write_ne (by decide))
      refine Machine.spec_bind (Machine.spec_ofExcept inv₃ fun _ valid => ?_)
      refine Machine.spec_mono (inductionHypothesis _ inv₃ running) ?_
      rintro _ w' - ⟨still, proofs, many, checked, extended⟩
      have history : w'.log = (proofs ++ [input.proof]).map .observed ++ w.log := by
        rw [extended, List.map_append, List.append_assoc]
        rfl
      refine ⟨still, proofs ++ [input.proof], by simp [many], ?_, history⟩
      intro proof mem
      rcases List.mem_append.mp mem with earlier | here
      · exact checked proof earlier
      · rw [List.mem_singleton.mp here]
        exact valid

/-- A completed `flatten` has verified that nothing is held. -/
theorem flatten_spec (inv : Invariant binding w) (running : underway w.log = true) :
    machine.spec (Invariant binding) flatten
      (fun _ w' => underway w'.log = true ∧ Verified w.log w'.log) w := by
  obtain ⟨held, reads, belongs⟩ := (inv.owned running).marker
  refine Machine.spec_bind (spec_read (fun _ => rfl) inv fun saved read => ?_)
  obtain rfl : some held = saved := Except.ok.inj (reads.symm.trans read)
  refine Machine.spec_bind (Machine.spec_ofExcept inv fun marker same => ?_)
  obtain rfl : held = marker := Option.some.inj (context_eq_ok.mp same)
  refine Machine.spec_bind (Machine.spec_mono (flattenSteps_spec steps inv running belongs) ?_)
  rintro marker w₁ inv₁ ⟨belongs₁, running₁, performed⟩
  refine Machine.spec_bind (Machine.spec_mono (verify_spec 2 none inv₁ running₁) ?_)
  rintro dust w₂ inv₂ ⟨running₂, proofs, two, valid, observed⟩
  refine Machine.spec_bind (Machine.spec_mono (writeMarker_spec _ inv₂ running₂ belongs₁ nofun) ?_)
  rintro _ w₃ inv₃ sameLog
  refine Machine.spec_pure inv₃ ?_
  rw [sameLog]
  refine ⟨running₂, ?_⟩
  obtain ⟨second, first, rfl⟩ := List.length_eq_two.mp two
  refine ⟨first, second, w.log, ?_, List.suffix_refl _, valid first (by simp), valid second (by simp)⟩
  rw [observed, performed]
  rfl

end Flatten

section Copy

variable {binding : Fingerprint} {w : World}

theorem Invariant.backup (inv : Invariant binding w) (backup : Files) :
    Invariant binding { w with backup := backup } :=
  inv.congr inv.justified rfl rfl rfl rfl

/-- Copying touches the backup only, which keeps what it has and contains `files` then. -/
def Copied (w : World) (files : Files) (w' : World) : Prop :=
  w'.root = w.root ∧ w'.log = w.log ∧ w.backup ⊆ w'.backup ∧
    ∀ file ∈ files, lockName ∉ file.1 → file ∈ w'.backup

theorem Copied.refl : Copied w [] w :=
  ⟨rfl, rfl, List.Subset.refl _, fun _ mem => absurd mem List.not_mem_nil⟩

theorem Copied.trans {w₁ w₂ : World} {first second : Files} (copied : Copied w first w₁)
    (later : Copied w₁ second w₂) : Copied w (first ++ second) w₂ := by
  obtain ⟨root, log, kept, held⟩ := copied
  obtain ⟨root', log', kept', held'⟩ := later
  refine ⟨root'.trans root, log'.trans log, List.Subset.trans kept kept', fun file mem free => ?_⟩
  rcases List.mem_append.mp mem with here | there
  · exact kept' (held file here free)
  · exact held' file there free

theorem Copied.weaken {w' : World} {first second : Files} (copied : Copied w first w')
    (covered : ∀ file ∈ second, lockName ∉ file.1 → file ∈ first) : Copied w second w' :=
  ⟨copied.1, copied.2.1, copied.2.2.1,
    fun file mem free => copied.2.2.2 file (covered file mem free) free⟩

theorem copyFile_spec (path : List String) (content : Content) (inv : Invariant binding w) :
    machine.spec (Invariant binding) (call (.copyFile path content))
      (fun _ w' => Copied w [(path, content)] w') w := by
  refine spec_effect (fun _ => rfl) inv (inv.backup _) ⟨rfl, rfl, List.subset_cons_self _ _, ?_⟩
  intro file mem _
  rw [List.mem_singleton.mp mem]
  exact List.mem_cons_self

theorem mem_of_lock {path : List String}
    (inside : lockName ∈ path.dropLast ∨ path.getLast? = some lockName) : lockName ∈ path := by
  rcases inside with above | last
  · exact List.dropLast_subset path above
  · exact List.mem_of_getLast? last

theorem copyItem_spec (directory : String) (path : List String) (item : Item)
    (inv : Invariant binding w) :
    machine.spec (Invariant binding) (copyItem directory path item)
      (fun _ w' => Copied w (itemFiles directory [(path, item)]) w') w := by
  -- A lock is not to be covered.
  have locked : (lockName ∈ path.dropLast ∨ path.getLast? = some lockName) →
      Copied w (itemFiles directory [(path, item)]) w := by
    refine fun inside => Copied.refl.weaken fun file mem free => ?_
    cases item with
    | file content =>
        obtain rfl : file = (directory :: path, content) := List.mem_singleton.mp mem
        exact absurd (List.mem_cons_of_mem _ (mem_of_lock inside)) free
    | dir | symlink | special => exact absurd mem List.not_mem_nil
  unfold copyItem
  by_cases skipped : lockName ∈ path.dropLast
  · rw [if_pos skipped]
    exact Machine.spec_pure inv (locked (.inl skipped))
  rw [if_neg skipped]
  cases item with
  | symlink => exact Machine.spec_throw inv
  | dir => exact Machine.spec_pure inv .refl
  | special =>
      dsimp only
      split_ifs
      · exact Machine.spec_pure inv .refl
      · exact Machine.spec_throw inv
  | file content =>
      dsimp only
      split_ifs with named
      · exact Machine.spec_pure inv (locked (.inr named))
      · exact copyFile_spec _ content inv

theorem copyItems_spec (directory : String) (items : List (List String × Item))
    (inv : Invariant binding w) :
    machine.spec (Invariant binding) (copyItems directory items)
      (fun _ w' => Copied w (itemFiles directory items) w') w := by
  induction items generalizing w with
  | nil => exact Machine.spec_pure inv .refl
  | cons entry rest inductionHypothesis =>
      obtain ⟨path, item⟩ := entry
      refine Machine.spec_bind (Machine.spec_mono (copyItem_spec directory path item inv) ?_)
      rintro _ w₁ inv₁ here
      refine Machine.spec_mono (inductionHypothesis inv₁) fun _ w' _ later => ?_
      have split : itemFiles directory ((path, item) :: rest) =
          itemFiles directory [(path, item)] ++ itemFiles directory rest :=
        List.filterMap_append (l := [(path, item)])
      rw [split]
      exact here.trans later

theorem copyNode_spec (name : String) (node : Node) (inv : Invariant binding w) :
    machine.spec (Invariant binding) (copyNode name node)
      (fun _ w' => Copied w (Root.files [(name, node)]) w') w := by
  have locked : name = lockName → Copied w (Root.files [(name, node)]) w := by
    rintro rfl
    refine Copied.refl.weaken fun file mem free => ?_
    obtain ⟨entry, member, inside⟩ := List.mem_flatMap.mp mem
    obtain rfl := List.mem_singleton.mp member
    cases node with
    | file content =>
        obtain rfl := List.mem_singleton.mp inside
        exact absurd List.mem_cons_self free
    | dir items =>
        obtain ⟨⟨path, item⟩, -, same⟩ := List.mem_filterMap.mp inside
        cases item with
        | file content =>
            cases same
            exact absurd List.mem_cons_self free
        | dir | symlink | special => cases same
    | symlink | special => exact absurd inside List.not_mem_nil
  cases node with
  | symlink => exact Machine.spec_throw inv
  | special =>
      unfold copyNode
      dsimp only
      split_ifs with named
      · exact Machine.spec_pure inv (locked named)
      · exact Machine.spec_throw inv
  | file content =>
      unfold copyNode
      dsimp only
      split_ifs with named
      · exact Machine.spec_pure inv (locked named)
      · exact copyFile_spec _ content inv
  | dir items =>
      unfold copyNode
      dsimp only
      split_ifs with named
      · exact Machine.spec_pure inv (locked named)
      · refine Machine.spec_mono (copyItems_spec name items inv) fun _ w' _ copied => ?_
        refine copied.weaken fun file mem _ => ?_
        simpa [Root.files] using mem

/-- A completed copy contains every file of the entries, locks apart. -/
theorem copyTree_spec (entries : Root) (inv : Invariant binding w) :
    machine.spec (Invariant binding) (copyTree entries)
      (fun _ w' => Copied w entries.files w') w := by
  induction entries generalizing w with
  | nil => exact Machine.spec_pure inv .refl
  | cons entry rest inductionHypothesis =>
      obtain ⟨name, node⟩ := entry
      refine Machine.spec_bind (Machine.spec_mono (copyNode_spec name node inv) ?_)
      rintro _ w₁ inv₁ here
      refine Machine.spec_mono (inductionHypothesis inv₁) fun _ w' _ later => ?_
      have split : Root.files ((name, node) :: rest) =
          Root.files [(name, node)] ++ Root.files rest := by
        simp [Root.files]
      rw [split]
      exact here.trans later

end Copy

section Clear

variable {binding : Fingerprint} {base : List Event} {w : World}

theorem Covers.of_files_subset {backup : Files} {root root' : Root} (covers : Covers backup root)
    (fewer : root'.files ⊆ root.files) : Covers backup root' :=
  fun file mem free => covers file (fewer mem) free

theorem files_filter_subset (root : Root) (keep : String × Node → Bool) :
    Root.files (root.filter keep) ⊆ root.files := by
  intro file mem
  obtain ⟨entry, member, inside⟩ := List.mem_flatMap.mp mem
  exact List.mem_flatMap.mpr ⟨entry, (List.mem_filter.mp member).1, inside⟩

/-- Removing an entry under a complete backup keeps the invariant. -/
theorem Invariant.removed {name : String} {root' : Root} (inv : Invariant binding w)
    (running : underway w.log = true)
    (backed : ∃ base backup, Archived base backup w.log ∧ Covers backup w.root)
    (marker : root'.lookup markerName = w.root.lookup markerName)
    (config : root'.readConfig = .ok none ∨ root'.readConfig = w.root.readConfig) :
    Invariant binding { w with root := root', log := .removed w.root name :: w.log } := by
  have readMarker : root'.readMarker = w.root.readMarker := by
    unfold Root.readMarker
    rw [Root.read_congr marker]
  obtain ⟨held, saved⟩ := inv.owned running
  obtain ⟨base, backup, archived, covers⟩ := backed
  refine ⟨⟨⟨backup, archived.weaken, covers⟩, inv.justified⟩, fun _ => ⟨readMarker ▸ held, ?_⟩,
    fun stopped => ?_⟩
  · rcases config with absent | same
    · exact .inl absent
    · exact same ▸ saved
  · exact absurd (running.symm.trans stopped) nofun

/-- The directory is being cleared: `rest` is still to be looked at. -/
structure Clearing (base : List Event) (rest : Root) (w : World) : Prop where
  running : underway w.log = true
  backed : ∃ backup, Archived base backup w.log ∧ Covers backup w.root
  left : ∀ entry ∈ w.root,
    entry.1 ∈ keptNames ∨ entry.1 = markerName ∨ entry.1 ∈ rest.map Prod.fst

/-- After the removal of an entry the rest is to be looked at. -/
theorem Clearing.removed {name : String} {node : Node} {rest : Root}
    (clearing : Clearing base ((name, node) :: rest) w) :
    Clearing base rest { w with
      root := w.root.filter (·.1 ≠ name), log := .removed w.root name :: w.log } := by
  obtain ⟨running, ⟨backup, archived, covers⟩, left⟩ := clearing
  refine ⟨running, ⟨backup, archived.removed, ?_⟩, fun entry mem => ?_⟩
  · exact covers.of_files_subset (files_filter_subset w.root _)
  · obtain ⟨member, different⟩ := List.mem_filter.mp mem
    rcases left entry member with kept | marker | listed
    · exact .inl kept
    · exact .inr (.inl marker)
    · rcases List.mem_cons.mp listed with same | later
      · exact absurd same (by simpa using different)
      · exact .inr (.inr later)

theorem readConfig_filter (root : Root) (name : String) :
    Root.readConfig (root.filter (·.1 ≠ name)) = .ok none ∨
      Root.readConfig (root.filter (·.1 ≠ name)) = root.readConfig := by
  by_cases same : "config.json" = name
  · left
    unfold Root.readConfig Root.read
    rw [same, lookup_filter_self]
    rfl
  · right
    unfold Root.readConfig
    rw [Root.read_congr (lookup_filter_ne same)]

/-- A directory has no content to be read, and a file is kept as it is. -/
theorem readConfig_keep (root : Root) (name : String) (kept : List (List String × Item)) :
    Root.readConfig (root.map fun entry =>
      if entry.1 = name then (name, entry.2.keep kept) else entry) = root.readConfig := by
  have same : Root.read (root.map fun entry =>
      if entry.1 = name then (name, entry.2.keep kept) else entry) "config.json" =
        root.read "config.json" := by
    unfold Root.read
    rw [Root.lookup_keep]
    cases root.lookup "config.json" with
    | none => rfl
    | some node =>
        by_cases named : "config.json" = name
        · rw [Option.map_some, if_pos named]
          cases node <;> rfl
        · rw [Option.map_some, if_neg named]
  unfold Root.readConfig
  rw [same]

theorem clearNode_spec {name : String} {node : Node} {rest : Root} (inv : Invariant binding w)
    (clearing : Clearing base ((name, node) :: rest) w) :
    machine.spec (Invariant binding) (clearNode name node) (fun _ w' => Clearing base rest w') w := by
  unfold clearNode
  by_cases stays : name = lockName ∨ name = markerName ∨ name = migrationMarkerName
  · rw [if_pos stays]
    refine Machine.spec_pure inv ⟨clearing.running, clearing.backed, fun entry mem => ?_⟩
    rcases clearing.left entry mem with kept | marker | listed
    · exact .inl kept
    · exact .inr (.inl marker)
    · rcases List.mem_cons.mp listed with same | later
      · rw [same]
        rcases stays with lock | marker | migration
        · exact .inl (by simp [keptNames, lock])
        · exact .inr (.inl marker)
        · exact .inl (by simp [keptNames, migration])
      · exact .inr (.inr later)
  rw [if_neg stays]
  have other : markerName ≠ name := fun same => stays (.inr (.inl same.symm))
  have removed : Invariant binding { w with
      root := w.root.filter (·.1 ≠ name), log := .removed w.root name :: w.log } :=
    inv.removed clearing.running ⟨base, clearing.backed⟩ (lookup_filter_ne other)
      (readConfig_filter w.root name)
  cases node with
  | dir items =>
      refine Machine.spec_call inv fun input => ?_
      by_cases succeeds : input.succeeds = true
      · have stepped : (machine.step (.removeDirAll name) input w).2 = { w with
            root := w.root.filter (·.1 ≠ name), log := .removed w.root name :: w.log } := by
          simp [step, succeeds]
        rw [stepped]
        exact ⟨removed, fun _ _ => clearing.removed⟩
      · refine ⟨?_, fun _ replied => absurd (Input.reply_eq_ok.mp replied).1 succeeds⟩
        have stepped : (machine.step (.removeDirAll name) input w).2 = { w with
            root := w.root.map fun entry =>
              if entry.1 = name then (name, entry.2.keep input.items) else entry
            log := .removed w.root name :: w.log } := by
          simp [step, succeeds]
        rw [stepped]
        refine inv.removed clearing.running ⟨base, clearing.backed⟩ ?_ (.inr (readConfig_keep _ _ _))
        rw [Root.lookup_keep]
        simp [other]
  | file _ | symlink | special =>
      exact spec_effect (fun _ => rfl) inv removed clearing.removed

theorem clear_spec {entries : Root} (inv : Invariant binding w)
    (clearing : Clearing base entries w) :
    machine.spec (Invariant binding) (clear entries) (fun _ w' => Clearing base [] w') w := by
  induction entries generalizing w with
  | nil => exact Machine.spec_pure inv clearing
  | cons entry rest inductionHypothesis =>
      obtain ⟨name, node⟩ := entry
      refine Machine.spec_bind (Machine.spec_mono (clearNode_spec inv clearing) ?_)
      rintro _ w₁ inv₁ later
      exact inductionHypothesis inv₁ later

theorem readMarker_of_lookup {root : Root} (absent : root.lookup markerName = none) :
    root.readMarker = .ok none := by
  unfold Root.readMarker Root.read
  rw [absent]
  rfl

/-- Nothing but the lock and the migration marker is left. -/
def Cleared (root : Root) : Prop := ∀ entry ∈ root, entry.1 ∈ keptNames

theorem Clearing.cleared (clearing : Clearing base [] w) :
    Cleared (w.root.filter (·.1 ≠ markerName)) := by
  intro entry mem
  obtain ⟨member, different⟩ := List.mem_filter.mp mem
  rcases clearing.left entry member with kept | marker | listed
  · exact kept
  · exact absurd marker (by simpa using different)
  · exact absurd listed List.not_mem_nil

/-- The directory was verified, archived and cleared after `base`, with nothing in between. -/
def Finished (base log : List Event) : Prop :=
  ∃ left earlier backup, log = .cleared left :: earlier ∧ Archived base backup earlier

/-- After a verification the directory is archived and cleared, the marker last. -/
theorem archiveAndClear_spec (inv : Invariant binding w) (running : underway w.log = true)
    (verified : Verified base w.log) :
    machine.spec (Invariant binding) archiveAndClear
      (fun _ w' => Finished base w'.log ∧ Cleared w'.root) w := by
  refine Machine.spec_bind (spec_read (fun _ => rfl) inv fun pending _ => ?_)
  refine Machine.spec_bind (spec_read (fun _ => rfl) inv fun unresolved _ => ?_)
  refine Machine.spec_bind (Machine.spec_ofExcept inv fun _ _ => ?_)
  refine Machine.spec_bind (spec_read (fun _ => rfl) inv fun marker _ => ?_)
  refine Machine.spec_bind (Machine.spec_ofExcept inv fun _ _ => ?_)
  refine Machine.spec_bind (Machine.spec_call inv fun _ => ⟨inv.backup [], fun _ _ => ?_⟩)
  refine Machine.spec_bind (Machine.spec_call (inv.backup []) fun input =>
    ⟨inv.backup [], fun entries listed => ?_⟩)
  have permuted : entries.Perm w.root := by
    have same := (Input.reply_eq_ok.mp listed).2
    rw [← Except.ok.inj same]
    split_ifs with order
    · exact order
    · exact .refl _
  refine Machine.spec_bind (Machine.spec_mono (copyTree_spec entries (inv.backup [])) ?_)
  rintro _ w₁ inv₁ ⟨sameRoot, sameLog, -, held⟩
  have covers : Covers w₁.backup w₁.root := by
    intro file mem free
    refine held file ?_ free
    rw [sameRoot] at mem
    exact (permuted.flatMap_right _).mem_iff.mpr mem
  refine Machine.spec_bind (Machine.spec_call inv₁ fun input₁ => ⟨?_, fun _ replied => ?_⟩)
  · change Invariant binding { w₁ with
      log := if input₁.succeeds then .archived w₁.backup :: w₁.log else w₁.log }
    split_ifs
    · exact inv₁.record trivial
    · exact inv₁
  have archivedLog : (machine.step .syncBackup input₁ w₁).2 =
      { w₁ with log := .archived w₁.backup :: w₁.log } := by
    simp [step, (Input.reply_eq_ok.mp replied).1]
  rw [archivedLog]
  have inv₂ : Invariant binding { w₁ with log := .archived w₁.backup :: w₁.log } :=
    inv₁.record trivial
  refine Machine.spec_bind (Machine.spec_call inv₂ fun input₂ => ⟨inv₂, fun entries listed => ?_⟩)
  have permuted₂ : entries.Perm w₁.root := by
    have same := (Input.reply_eq_ok.mp listed).2
    rw [← Except.ok.inj same]
    split_ifs with order
    · exact order
    · exact .refl _
  have clearing : Clearing base entries { w₁ with log := .archived w₁.backup :: w₁.log } := by
    refine ⟨?_, ⟨w₁.backup, .taken ?_, covers⟩, fun entry mem => ?_⟩
    · exact (congrArg underway sameLog).trans running
    · rw [sameLog]
      exact verified
    · exact .inr (.inr (List.mem_map_of_mem (permuted₂.mem_iff.mpr mem)))
  refine Machine.spec_bind (Machine.spec_mono (clear_spec inv₂ clearing) ?_)
  rintro _ w₃ inv₃ finished
  have gone : Invariant binding { w₃ with
      root := w₃.root.filter (·.1 ≠ markerName)
      log := .cleared (w₃.root.filter (·.1 ≠ markerName)) :: w₃.log } :=
    ⟨⟨finished.cleared, inv₃.justified⟩, fun started => absurd started nofun,
      fun _ => ⟨readMarker_of_lookup lookup_filter_self, rfl⟩⟩
  obtain ⟨backup, archived, -⟩ := finished.backed
  refine Machine.spec_bind (spec_effect (fun _ => rfl) inv₃ gone ?_)
  exact spec_read (fun _ => rfl) gone fun _ _ =>
    ⟨⟨_, w₃.log, backup, rfl, archived⟩, finished.cleared⟩

end Clear

section Request

variable {binding : Fingerprint} {w : World}

/-- Claiming the marker starts the reset or continues the one in progress. -/
theorem claim_spec {marker : Option Marker} (inv : Invariant binding w)
    (read : w.root.readMarker = .ok marker)
    (config : w.root.readConfig = .ok none ∨ w.root.readConfig = .ok (some binding)) :
    machine.spec (Invariant binding) (claim binding marker)
      (fun _ w' => underway w'.log = true ∧ w.log <:+ w'.log) w := by
  cases running : underway w.log with
  | true =>
      obtain ⟨held, reads, -⟩ := (inv.owned running).marker
      obtain rfl : some held = marker := Except.ok.inj (reads.symm.trans read)
      exact Machine.spec_ofExcept inv fun _ _ => ⟨running, List.suffix_refl _⟩
  | false =>
      obtain ⟨absent, clean⟩ := inv.idle running
      obtain rfl : none = marker := Except.ok.inj (absent.symm.trans read)
      have started : Invariant binding { w with
          root := w.root.write markerName (.marker ⟨binding, .started, none⟩)
          log := .marked :: w.log } := by
        refine ⟨inv.justified, fun _ => ⟨⟨⟨binding, .started, none⟩, ?_, rfl⟩, ?_⟩, nofun⟩
        · simp [Root.readMarker, Root.read]
        · have same : (w.root.write markerName (.marker ⟨binding, .started, none⟩)).readConfig =
              w.root.readConfig := by
            unfold Root.readConfig
            rw [Root.read_congr (Root.lookup_write_ne (by decide))]
          rw [same]
          exact config
      exact spec_effect (fun _ => rfl) inv started ⟨rfl, List.suffix_cons _ _⟩

/-- A finished reset has verified, archived and cleared the directory. -/
theorem request_spec (inv : Invariant binding w) :
    machine.spec (Invariant binding) (request binding)
      (fun _ w' => Finished w.log w'.log ∧ Cleared w'.root) w := by
  refine Machine.spec_bind (Machine.spec_call inv fun _ => ⟨inv, fun entries _ => ?_⟩)
  refine Machine.spec_bind (Machine.spec_ofExcept inv fun _ _ => ?_)
  refine Machine.spec_bind (spec_read (fun _ => rfl) inv fun saved readConfig => ?_)
  refine Machine.spec_bind (Machine.spec_ofExcept inv fun _ agrees => ?_)
  have config : w.root.readConfig = .ok none ∨ w.root.readConfig = .ok (some binding) := by
    have same : saved.all (· = binding) = true := ensure_eq_ok.mp agrees
    cases saved with
    | none => exact .inl readConfig
    | some fingerprint =>
        obtain rfl : fingerprint = binding := by simpa using same
        exact .inr readConfig
  refine Machine.spec_bind (spec_read (fun _ => rfl) inv fun marker read => ?_)
  refine Machine.spec_bind (Machine.spec_mono (claim_spec inv read config) ?_)
  rintro _ w₁ inv₁ ⟨running, extended⟩
  refine Machine.spec_bind (Machine.spec_call inv₁ fun input =>
    ⟨inv₁.apply input.files, fun _ _ => ?_⟩)
  refine Machine.spec_bind
    (Machine.spec_mono (flatten_spec (inv₁.apply input.files) running) ?_)
  rintro dust w₂ inv₂ ⟨running₂, verified⟩
  have verified : Verified w.log w₂.log := verified.weaken extended
  refine Machine.spec_bind (Machine.spec_mono (archiveAndClear_spec inv₂ running₂ verified) ?_)
  rintro _ w₃ inv₃ finished
  exact Machine.spec_pure inv₃ finished

end Request

section Resume

variable {w : World}

/-- The venues answer every operation, all records are settled and nothing is held. -/
def Input.smooth : Input where
  succeeds := true
  effective := true
  files := [("pending.json", .null), ("orders.json", .orders [])]
  proof := ⟨[], 0, none, 0, 0, false, 0⟩
  order := []
  items := []

theorem can_read {op : Op} {value : op.Reply} {Q : Except String op.Reply → World → Prop}
    (stepped : step op .smooth w = (.ok value, w)) (post : Q (.ok value) w) :
    machine.can (call op) Q w := by
  refine Machine.can_call .smooth ?_
  rw [show machine.step op .smooth w = _ from stepped]
  exact post

/-- Nothing in the directory stops a copy. -/
def Regular (root : Root) : Prop := ∀ entry ∈ root,
  match entry.2 with
  | .file _ => True
  | .dir items => (entry.1 = "event_archive" ∨ entry.1 = "order_archive") ∧
      ∀ item ∈ items, item.2 ≠ .symlink ∧ item.2 ≠ .special
  | .symlink | .special => False

/-- No record is pending. -/
def Settled (root : Root) : Prop := root.read "pending.json" = .ok none ∧ root.unresolved = .ok 0

theorem Regular.write {root : Root} (regular : Regular root) (name : String) (content : Content) :
    Regular (root.write name content) := by
  intro entry mem
  rcases List.mem_cons.mp mem with rfl | later
  · trivial
  · exact regular entry (List.mem_filter.mp later).1

theorem Regular.apply {root : Root} (regular : Regular root) (files : List (String × Content)) :
    Regular (root.apply files) := by
  unfold Root.apply
  generalize files.filter (fun file => file.1 ∉ protectedNames) = allowed
  induction allowed generalizing root with
  | nil => exact regular
  | cons file rest inductionHypothesis => exact inductionHypothesis (regular.write _ _)

theorem settled_smooth (root : Root) : Settled (root.apply Input.smooth.files) := by
  have allowed : Input.smooth.files.filter (fun file => file.1 ∉ protectedNames) =
      [("pending.json", .null), ("orders.json", .orders [])] := by decide
  unfold Root.apply
  rw [allowed]
  constructor
  · unfold Root.read
    rw [List.foldl_cons, List.foldl_cons, List.foldl_nil, Root.lookup_write_ne (by decide),
      Root.lookup_write_self]
  · unfold Root.unresolved Root.read
    rw [List.foldl_cons, List.foldl_cons, List.foldl_nil, Root.lookup_write_self]
    rfl

theorem Settled.write {root : Root} (settled : Settled root) {name : String}
    (other : name ≠ "pending.json" ∧ name ≠ "orders.json") (content : Content) :
    Settled (root.write name content) := by
  refine ⟨?_, ?_⟩
  · rw [Root.read_congr (Root.lookup_write_ne other.1.symm)]
    exact settled.1
  · unfold Root.unresolved
    rw [Root.read_congr (Root.lookup_write_ne other.2.symm)]
    exact settled.2

theorem flattenSteps_can (remaining : List Step) (marker : Marker) (regular : Regular w.root) :
    machine.can (flattenSteps marker remaining)
      (fun result w' => ∃ value, result = .ok value ∧ Regular w'.root ∧
        (remaining ≠ [] ∨ Settled w.root → Settled w'.root)) w := by
  induction remaining generalizing marker w with
  | nil => exact Machine.can_pure ⟨marker, rfl, regular, fun either => either.resolve_left (· rfl)⟩
  | cons step rest inductionHypothesis =>
      refine Machine.can_seq (Machine.can_call .smooth ⟨(), rfl, ?_⟩)
      refine Machine.can_seq (Machine.can_call .smooth ⟨(), rfl, ?_⟩)
      have written : Regular (machine.step (.writeMarker { marker with stage := .step step })
          .smooth w).2.root := regular.write _ _
      refine Machine.can_mono (inductionHypothesis _ (written.apply _)) ?_
      rintro _ w' ⟨value, rfl, still, settles⟩
      exact ⟨value, rfl, still, fun _ => settles (.inr (settled_smooth _))⟩

theorem verify_can (count : Nat) (dust : Option BaseDust) (regular : Regular w.root)
    (settled : Settled w.root) :
    machine.can (verify count dust)
      (fun result w' => ∃ value, result = .ok value ∧ Regular w'.root ∧ Settled w'.root) w := by
  induction count generalizing dust w with
  | zero => exact Machine.can_pure ⟨dust, rfl, regular, settled⟩
  | succ count inductionHypothesis =>
      refine Machine.can_seq (Machine.can_call .smooth ⟨_, rfl, ?_⟩)
      refine Machine.can_seq (Machine.can_call .smooth ⟨(), rfl, ?_⟩)
      refine Machine.can_seq (Machine.can_call .smooth ⟨(), rfl, ?_⟩)
      have valid : Input.smooth.proof.validate = .ok () := by decide
      refine Machine.can_seq (Machine.can_ofExcept valid ⟨(), rfl, ?_⟩)
      exact inductionHypothesis _ (((regular.apply _).apply _).write _ _)
        ((settled_smooth _).write (by decide) _)

theorem readMarker_write (root : Root) (marker : Marker) :
    (root.write markerName (.marker marker)).readMarker = .ok (some marker) := by
  simp [Root.readMarker, Root.read]

theorem flatten_can (regular : Regular w.root) {marker : Marker}
    (read : w.root.readMarker = .ok (some marker)) :
    machine.can flatten
      (fun result w' => ∃ value, result = .ok value ∧ Regular w'.root ∧ Settled w'.root ∧
        ∃ marker : Marker, w'.root.readMarker = .ok (some marker) ∧
          marker.stage = .verifiedFlat) w := by
  refine Machine.can_seq (Machine.can_call .smooth ⟨some marker, read, ?_⟩)
  refine Machine.can_seq (Machine.can_pure ⟨marker, rfl, ?_⟩)
  refine Machine.can_seq (Machine.can_mono (flattenSteps_can steps marker regular) ?_)
  rintro _ w₁ ⟨marker₁, rfl, regular₁, settled₁⟩
  refine ⟨marker₁, rfl, ?_⟩
  refine Machine.can_seq (Machine.can_mono
    (verify_can 2 none regular₁ (settled₁ (.inl nofun))) ?_)
  rintro _ w₂ ⟨dust, rfl, regular₂, settled₂⟩
  refine ⟨dust, rfl, ?_⟩
  refine Machine.can_seq (Machine.can_call .smooth ⟨(), rfl, ?_⟩)
  exact Machine.can_pure ⟨dust, rfl, regular₂.write _ _, settled₂.write (by decide) _,
    _, readMarker_write _ _, rfl⟩

theorem copyItems_can (directory : String) {items : List (List String × Item)}
    (plain : ∀ item ∈ items, item.2 ≠ .symlink ∧ item.2 ≠ .special) :
    machine.can (copyItems directory items)
      (fun result w' => result = .ok () ∧ w'.root = w.root) w := by
  induction items generalizing w with
  | nil => exact Machine.can_pure ⟨rfl, rfl⟩
  | cons entry rest inductionHypothesis =>
      obtain ⟨path, item⟩ := entry
      obtain ⟨⟨notLink, notSpecial⟩, later⟩ := List.forall_mem_cons.mp plain
      have copies : machine.can (copyItem directory path item)
          (fun result w' => result = .ok () ∧ w'.root = w.root) w := by
        unfold copyItem
        by_cases skipped : lockName ∈ path.dropLast
        · rw [if_pos skipped]
          exact Machine.can_pure ⟨rfl, rfl⟩
        rw [if_neg skipped]
        cases item with
        | symlink => exact absurd rfl notLink
        | special => exact absurd rfl notSpecial
        | dir => exact Machine.can_pure ⟨rfl, rfl⟩
        | file content =>
            dsimp only
            split_ifs
            · exact Machine.can_pure ⟨rfl, rfl⟩
            · exact Machine.can_call .smooth ⟨rfl, rfl⟩
      refine Machine.can_seq (Machine.can_mono copies ?_)
      rintro _ w₁ ⟨rfl, same⟩
      refine ⟨(), rfl, Machine.can_mono (inductionHypothesis later) ?_⟩
      rintro _ w₂ ⟨rfl, same₂⟩
      exact ⟨rfl, same₂.trans same⟩

theorem copyTree_can {entries : Root} (regular : Regular entries) :
    machine.can (copyTree entries) (fun result w' => result = .ok () ∧ w'.root = w.root) w := by
  induction entries generalizing w with
  | nil => exact Machine.can_pure ⟨rfl, rfl⟩
  | cons entry rest inductionHypothesis =>
      obtain ⟨name, node⟩ := entry
      obtain ⟨plain, later⟩ := List.forall_mem_cons.mp regular
      have copies : machine.can (copyNode name node)
          (fun result w' => result = .ok () ∧ w'.root = w.root) w := by
        cases node with
        | symlink | special => exact plain.elim
        | file content =>
            unfold copyNode
            dsimp only
            split_ifs
            · exact Machine.can_pure ⟨rfl, rfl⟩
            · exact Machine.can_call .smooth ⟨rfl, rfl⟩
        | dir items =>
            unfold copyNode
            dsimp only
            split_ifs
            · exact Machine.can_pure ⟨rfl, rfl⟩
            · exact copyItems_can name plain.2
      refine Machine.can_seq (Machine.can_mono copies ?_)
      rintro _ w₁ ⟨rfl, same⟩
      refine ⟨(), rfl, Machine.can_mono (inductionHypothesis later) ?_⟩
      rintro _ w₂ ⟨rfl, same₂⟩
      exact ⟨rfl, same₂.trans same⟩

theorem clear_can (entries : Root) :
    machine.can (clear entries) (fun result _ => result = .ok ()) w := by
  induction entries generalizing w with
  | nil => exact Machine.can_pure rfl
  | cons entry rest inductionHypothesis =>
      obtain ⟨name, node⟩ := entry
      have clears : machine.can (clearNode name node) (fun result _ => result = .ok ()) w := by
        unfold clearNode
        split_ifs
        · exact Machine.can_pure rfl
        · cases node with
          | file _ | dir _ | symlink | special => exact Machine.can_call .smooth rfl
      refine Machine.can_seq (Machine.can_mono clears ?_)
      rintro _ w₁ rfl
      exact ⟨(), rfl, inductionHypothesis⟩

/-- What listing a directory in any order finds, when the environment proposes none. -/
theorem list_can {Q : Except String Root → World → Prop} (post : ∀ entries : Root,
    entries.Perm w.root → Q (.ok entries) w) : machine.can (call .list) Q w := by
  refine Machine.can_call .smooth (post _ ?_)
  split_ifs with order
  · exact order
  · exact .refl _

theorem archiveAndClear_can (regular : Regular w.root) (settled : Settled w.root)
    {marker : Marker} (read : w.root.readMarker = .ok (some marker))
    (verified : marker.stage = .verifiedFlat) :
    machine.can archiveAndClear (fun result _ => result = .ok ()) w := by
  have pending : step .readPending .smooth w = (.ok false, w) := by
    have absent : w.root.read "pending.json" = .ok none := settled.1
    simp only [step, absent]
    rfl
  have unresolved : step .readUnresolved .smooth w = (.ok 0, w) := by
    have none : w.root.unresolved = .ok 0 := settled.2
    simp only [step, none]
    rfl
  have marked : step .readMarker .smooth w = (.ok (some marker), w) := by
    simp only [step, read]
    rfl
  have flat : (some marker).any (·.stage = .verifiedFlat) = true := by simp [verified]
  refine Machine.can_seq (can_read pending ⟨false, rfl, ?_⟩)
  refine Machine.can_seq (can_read unresolved ⟨0, rfl, ?_⟩)
  refine Machine.can_seq (Machine.can_pure ⟨(), rfl, ?_⟩)
  refine Machine.can_seq (can_read marked ⟨some marker, rfl, ?_⟩)
  refine Machine.can_seq (Machine.can_ofExcept (ensure_eq_ok.mpr flat) ⟨(), rfl, ?_⟩)
  refine Machine.can_seq (Machine.can_call .smooth ⟨(), rfl, ?_⟩)
  refine Machine.can_seq (list_can fun entries permuted => ⟨entries, rfl, ?_⟩)
  have plain : Regular entries := fun entry mem => regular entry (permuted.mem_iff.mp mem)
  refine Machine.can_seq (Machine.can_mono (copyTree_can plain) ?_)
  rintro _ w₁ ⟨rfl, -⟩
  refine ⟨(), rfl, Machine.can_seq (Machine.can_call .smooth ⟨(), rfl, ?_⟩)⟩
  refine Machine.can_seq (list_can fun entries _ => ⟨entries, rfl, ?_⟩)
  refine Machine.can_seq (Machine.can_mono (clear_can entries) ?_)
  rintro _ w₂ rfl
  refine ⟨(), rfl, Machine.can_seq (Machine.can_call .smooth ⟨(), rfl, ?_⟩)⟩
  exact Machine.can_call .smooth rfl

theorem validateStateDirectory_of_regular {root : Root} (regular : Regular root) :
    root.validateStateDirectory = .ok () := by
  unfold Root.validateStateDirectory
  rw [List.forM_eq_forM, forM_eq_ok]
  intro entry mem
  have plain := regular entry mem
  cases node : entry.2 with
  | dir items =>
      rw [node] at plain
      exact ensure_eq_ok.mpr plain.1
  | file _ | symlink | special => rfl

/-- Whatever the directory says about its configuration, it says this one. -/
structure Bound (binding : Fingerprint) (root : Root) : Prop where
  marker : root.readMarker = .ok none ∨
    ∃ marker, root.readMarker = .ok (some marker) ∧ marker.binding = binding
  config : root.readConfig = .ok none ∨ root.readConfig = .ok (some binding)

theorem Owned.bound {binding : Fingerprint} {root : Root} (owned : Owned binding root) :
    Bound binding root :=
  ⟨.inr owned.marker, owned.config⟩

theorem claim_can {binding : Fingerprint} {marker : Option Marker} (regular : Regular w.root)
    (read : w.root.readMarker = .ok marker) (belongs : marker.all (·.binding = binding) = true) :
    machine.can (claim binding marker)
      (fun result w' => result = .ok () ∧ Regular w'.root ∧
        ∃ held, w'.root.readMarker = .ok (some held)) w := by
  cases marker with
  | some held =>
      have same : held.binding = binding := by simpa using belongs
      exact Machine.can_ofExcept (ensure_eq_ok.mpr same) ⟨rfl, regular, held, read⟩
  | none =>
      refine Machine.can_call .smooth ⟨rfl, regular.write _ _, ⟨binding, .started, none⟩, ?_⟩
      simp [step, Input.effect, Input.smooth, Root.readMarker, Root.read]

/-- A reset of this configuration can be started or resumed, and finished. -/
theorem request_can {binding : Fingerprint} (regular : Regular w.root)
    (bound : Bound binding w.root) :
    machine.can (request binding) (fun result _ => ∃ value, result = .ok value) w := by
  obtain ⟨marker, read, belongs⟩ : ∃ marker : Option Marker,
      w.root.readMarker = .ok marker ∧ marker.all (·.binding = binding) = true := by
    rcases bound.marker with absent | ⟨marker, present, same⟩
    · exact ⟨none, absent, rfl⟩
    · exact ⟨some marker, present, by simpa using same⟩
  obtain ⟨saved, readConfig, agrees⟩ : ∃ saved : Option Fingerprint,
      w.root.readConfig = .ok saved ∧ saved.all (· = binding) = true := by
    rcases bound.config with absent | same
    · exact ⟨none, absent, rfl⟩
    · exact ⟨some binding, same, by simp⟩
  have config : step .readConfig .smooth w = (.ok saved, w) := by
    simp only [step, readConfig]
    rfl
  have marked : step .readMarker .smooth w = (.ok marker, w) := by
    simp only [step, read]
    rfl
  refine Machine.can_seq (list_can fun entries permuted => ⟨entries, rfl, ?_⟩)
  have plain : Regular entries := fun entry mem => regular entry (permuted.mem_iff.mp mem)
  refine Machine.can_seq
    (Machine.can_ofExcept (validateStateDirectory_of_regular plain) ⟨(), rfl, ?_⟩)
  refine Machine.can_seq (can_read config ⟨saved, rfl, ?_⟩)
  refine Machine.can_seq (Machine.can_ofExcept (ensure_eq_ok.mpr agrees) ⟨(), rfl, ?_⟩)
  refine Machine.can_seq (can_read marked ⟨marker, rfl, ?_⟩)
  refine Machine.can_seq (Machine.can_mono (claim_can regular read belongs) ?_)
  rintro _ w₁ ⟨rfl, regular₁, held, holds⟩
  refine ⟨(), rfl, Machine.can_seq (Machine.can_call .smooth ⟨(), rfl, ?_⟩)⟩
  have read₁ : (w₁.root.apply Input.smooth.files).readMarker = .ok (some held) := by
    unfold Root.readMarker
    rw [Root.read_congr (Root.lookup_apply (by decide))]
    exact holds
  refine Machine.can_seq (Machine.can_mono (flatten_can (regular₁.apply _) read₁) ?_)
  rintro _ w₂ ⟨dust, rfl, regular₂, settled₂, marker₂, reads, verified⟩
  refine ⟨dust, rfl, Machine.can_seq (Machine.can_mono
    (archiveAndClear_can regular₂ settled₂ reads verified) ?_)⟩
  rintro _ w₃ rfl
  exact ⟨(), rfl, Machine.can_pure ⟨dust, rfl⟩⟩

theorem Regular.filter {root : Root} (regular : Regular root) (keep : String × Node → Bool) :
    Regular (root.filter keep) := fun entry mem => regular entry (List.mem_filter.mp mem).1

theorem Regular.keep {root : Root} (regular : Regular root) (name : String)
    (kept : List (List String × Item)) :
    Regular (root.map fun entry =>
      if entry.1 = name then (name, entry.2.keep kept) else entry) := by
  intro entry mem
  obtain ⟨⟨key, node⟩, member, rfl⟩ := List.mem_map.mp mem
  have plain := regular _ member
  by_cases same : key = name
  · rw [if_pos same]
    cases node with
    | file _ => trivial
    | dir items =>
        refine ⟨same ▸ plain.1, fun item inside => ?_⟩
        exact plain.2 item (List.mem_filter.mp inside).1
    | symlink | special => exact plain
  · rw [if_neg same]
    exact plain

/-- No operation puts anything into the directory that stops a copy. -/
theorem Regular.step {op : Op} {input : Input} (regular : Regular w.root) :
    Regular (step op input w).2.root := by
  have effect : ∀ {after : World}, Regular after.root → Regular (input.effect w after).root := by
    intro after held
    unfold Input.effect
    split_ifs
    · exact held
    · exact regular
  cases op with
  | list | readConfig | readMarker | readPending | readUnresolved | createBackup | syncBackup
  | syncRoot => exact regular
  | connect | perform _ | observe | appendEvent => exact regular.apply _
  | writeMarker _ | writeProof _ => exact effect (regular.write _ _)
  | copyFile _ _ => exact effect regular
  | removeFile _ | removeMarker => exact effect (regular.filter _)
  | removeDirAll name =>
      simp only [Reset.step]
      split_ifs
      · exact regular.filter _
      · exact regular.keep name input.items

end Resume

section Safety

theorem mayRun_of_owned {binding : Fingerprint} {root : Root} (owned : Owned binding root) :
    ∃ error, root.mayRun = .error error := by
  cases ran : root.mayRun with
  | error error => exact ⟨error, rfl⟩
  | ok _ =>
      exfalso
      obtain ⟨marker, read, -⟩ := owned.marker
      simp only [Root.mayRun, bind_eq_ok, ensure_eq_ok] at ran
      obtain ⟨-, -, -, -, reset, reads, rfl⟩ := ran
      rw [Root.readMarker, reads] at read
      cases read

/-- What a sequence of resets leaves on disk, each of them stopped anywhere. -/
def resets (binding : Fingerprint) (runs : List (List Input)) (root : Root) : World :=
  machine.sessions (fun _ : Unit => request binding) (runs.map fun inputs => ((), inputs))
    ⟨root, [], []⟩

theorem resets_regular {binding : Fingerprint} {root : Root} (regular : Regular root)
    (runs : List (List Input)) : Regular (resets binding runs root).root :=
  @Machine.sessions_of_step _ _ _ _ _ _ machine _ _ (fun w => Regular w.root) ⟨root, [], []⟩
    (fun _ _ _ held => Regular.step held) regular _

theorem resets_invariant {binding : Fingerprint} {root : Root}
    (idle : root.readMarker = .ok none) (runs : List (List Input)) :
    Invariant binding (resets binding runs root) :=
  have starts : Invariant binding ⟨root, [], []⟩ := ⟨trivial, nofun, fun _ => ⟨idle, rfl⟩⟩
  Machine.sessions_inv_of_spec
    (P := fun w _ w' => Finished w.log w'.log ∧ Cleared w'.root) starts
    (fun _ _ inv => request_spec inv) _

/-- However often a reset is started and wherever it stops: entries are removed only after all
steps, two consecutive valid proofs and a complete backup. Until the directory is cleared
completely, the marker refuses a normal run, it is accepted by the next reset of the same
configuration, and that reset can finish unless something stops the copy. The marker is never
gone with only part of the directory removed, and a reset which returns has cleared it. -/
theorem reset_crash_safe (binding : Fingerprint) (root : Root)
    (idle : root.readMarker = .ok none) (runs : List (List Input)) :
    Justified (resets binding runs root).log ∧
      (underway (resets binding runs root).log = true →
        (∃ error, (resets binding runs root).root.mayRun = .error error) ∧
          Owned binding (resets binding runs root).root ∧
          (Regular root → ∃ inputs dust,
            (machine.run (request binding) inputs (resets binding runs root)).1 =
              .finished (.ok dust) ∧
            Cleared (machine.run (request binding) inputs (resets binding runs root)).2.root)) ∧
      (underway (resets binding runs root).log = false →
        (resets binding runs root).root.readMarker = .ok none ∧
          dirty (resets binding runs root).log = false) ∧
      ∀ inputs dust,
        (machine.run (request binding) inputs (resets binding runs root)).1 =
          .finished (.ok dust) →
        Cleared (machine.run (request binding) inputs (resets binding runs root)).2.root := by
  have inv : Invariant binding (resets binding runs root) := resets_invariant idle runs
  have clears : ∀ inputs dust,
      (machine.run (request binding) inputs (resets binding runs root)).1 =
        .finished (.ok dust) →
      Cleared (machine.run (request binding) inputs (resets binding runs root)).2.root :=
    fun inputs dust finished => ((Machine.spec_sound (request_spec inv) inputs).2 dust finished).2
  refine ⟨inv.justified, fun running => ?_, inv.idle, clears⟩
  have owned := inv.owned running
  refine ⟨mayRun_of_owned owned, owned, fun regular => ?_⟩
  obtain ⟨inputs, _, finished, dust, rfl⟩ := request_can (resets_regular regular runs) owned.bound
  exact ⟨inputs, dust, finished, clears inputs dust finished⟩

/-- A configuration in use. -/
def deployed : Fingerprint where
  mode := .live
  liquidity := ⟨4663, "pool", "terms"⟩
  strategy := some "strategy"
  hyperliquid := ⟨true, "ETH", "terms"⟩
  crossMargin := some false
  leverage := some 2

/-- A directory in normal use. -/
def usual : Root :=
  [("process.lock", .file (.other "")), ("checkpoint.json", .file (.other "state")),
    ("config.json", .file (.config deployed)),
    ("order_archive", .dir [(["a.json"], .file .null)])]

/-- One reset stops after its first removal. -/
theorem reset_crash_safe_interrupted :
    underway (resets deployed [List.replicate 40 .smooth] usual).log = true ∧
      dirty (resets deployed [List.replicate 40 .smooth] usual).log = true ∧
      ∃ inputs dust,
        (machine.run (request deployed) inputs
          (resets deployed [List.replicate 40 .smooth] usual)).1 = .finished (.ok dust) ∧
        Cleared (machine.run (request deployed) inputs
          (resets deployed [List.replicate 40 .smooth] usual)).2.root := by
  have running : underway (resets deployed [List.replicate 40 .smooth] usual).log = true := by
    decide +kernel
  have started : dirty (resets deployed [List.replicate 40 .smooth] usual).log = true := by
    decide +kernel
  have regular : Regular usual := by
    intro entry mem
    simp only [usual, List.mem_cons, List.not_mem_nil, or_false] at mem
    rcases mem with rfl | rfl | rfl | rfl <;> simp
  have safe := reset_crash_safe deployed usual rfl [List.replicate 40 .smooth]
  exact ⟨running, started, (safe.2.1 running).2.2 regular⟩

end Safety

end LpMaker.Reset
