import Mathlib
import LpMaker.Semantics.Trace

/-!
# Segmented logs

Entries are appended to an active file. The file is renamed into an archive when it is full, and
old segments of the archive are removed. The order of the segments is that of their names. While
every rename uses a name after all archived ones and every removal takes the first segment, the
archive and the active file hold the newest entries.
-/

namespace Semantics.SegmentedLog

variable {Name Entry : Type}

/-- The files, and all entries appended so far. An absent active file has no entries. -/
structure Files (Name Entry : Type) where
  archive : List (Name × List Entry)
  active : List Entry
  written : List Entry

/-- One change of the files. -/
inductive FileOp (Name Entry : Type) where
  | rename (name : Name)
  | remove (name : Name)
  | append (entry : Entry)

def Files.empty : Files Name Entry := ⟨[], [], []⟩

variable [LinearOrder Name]

/-- Renaming replaces a segment of the same name. -/
def FileOp.perform (op : FileOp Name Entry) (w : Files Name Entry) : Files Name Entry × Unit :=
  match op with
  | .rename name =>
      ({ w with
        archive := (w.archive.filter fun s => s.1 ≠ name) ++ [(name, w.active)]
        active := [] }, ())
  | .remove name => ({ w with archive := w.archive.filter fun s => s.1 ≠ name }, ())
  | .append entry => ({ w with active := w.active ++ [entry], written := w.written ++ [entry] }, ())

/-- The files after a list of operations. -/
def performAll (w : Files Name Entry) (ops : List (FileOp Name Entry)) : Files Name Entry :=
  run FileOp.perform w ops

theorem performAll_append (w : Files Name Entry) (first later : List (FileOp Name Entry)) :
    performAll w (first ++ later) = performAll (performAll w first) later :=
  List.foldl_append

namespace Files

/-- The segments in the order of their names. -/
def retained (w : Files Name Entry) : List (Name × List Entry) :=
  w.archive.insertionSort fun a b => a.1 ≤ b.1

/-- The entries of the archive and of the active file, the oldest first. -/
def contents (w : Files Name Entry) : List Entry := w.retained.flatMap Prod.snd ++ w.active

end Files

variable (size : Entry → Nat) (capacity kept : Nat)

/-- The size of a file. -/
def bytes (entries : List Entry) : Nat := (entries.map size).sum

/-- The files hold the newest entries, in segments of a bounded size. -/
structure Newest (w : Files Name Entry) : Prop where
  contents : w.contents <:+ w.written
  archive : ∀ s ∈ w.archive, bytes size s.2 ≤ capacity
  active : bytes size w.active ≤ capacity

/-- An operation keeps the order of the archive and the bound of the segments. -/
def Allowed (w : Files Name Entry) : FileOp Name Entry → Prop
  | .rename name => ∀ s ∈ w.archive, s.1 < name
  | .remove name =>
      ∃ segment rest, w.archive = (name, segment) :: rest ∧ kept ≤ rest.length
  | .append entry => bytes size (w.active ++ [entry]) ≤ capacity

/-- The archive is in the order of its names. -/
structure Sound (w : Files Name Entry) : Prop where
  ordered : w.archive.Pairwise fun a b => a.1 < b.1
  newest : Newest size capacity w

variable {size capacity kept} {w : Files Name Entry}

theorem retained_eq (ordered : w.archive.Pairwise fun a b => a.1 < b.1) :
    w.retained = w.archive :=
  (ordered.imp le_of_lt).insertionSort_eq

/-- The first segment is removed alone. -/
theorem filter_first {name : Name} {segment : List Entry} {rest : List (Name × List Entry)}
    (ordered : ((name, segment) :: rest).Pairwise fun a b => a.1 < b.1) :
    ((name, segment) :: rest).filter (fun s => s.1 ≠ name) = rest := by
  rw [List.filter_cons_of_neg (by simp), List.filter_eq_self]
  intro s mem
  have later := (List.pairwise_cons.mp ordered).1 s mem
  exact decide_eq_true later.ne'

theorem filter_later {name : Name} (later : ∀ s ∈ w.archive, s.1 < name) :
    w.archive.filter (fun s => s.1 ≠ name) = w.archive := by
  rw [List.filter_eq_self]
  intro s mem
  exact decide_eq_true (later s mem).ne

theorem Sound.empty : Sound size capacity (Files.empty : Files Name Entry) where
  ordered := .nil
  newest := {
    contents := List.suffix_refl _
    archive := by rintro _ ⟨⟩
    active := Nat.zero_le _ }

theorem Sound.contents (sound : Sound size capacity w) :
    w.archive.flatMap Prod.snd ++ w.active <:+ w.written := by
  have contents := sound.newest.contents
  unfold Files.contents at contents
  rwa [retained_eq sound.ordered] at contents

theorem Sound.of_archive {archive : List (Name × List Entry)} (same : w.archive = archive)
    (ordered : archive.Pairwise fun a b => a.1 < b.1)
    (contents : archive.flatMap Prod.snd ++ w.active <:+ w.written)
    (bounded : ∀ s ∈ archive, bytes size s.2 ≤ capacity) (active : bytes size w.active ≤ capacity) :
    Sound size capacity w := by
  subst same
  refine ⟨ordered, ?_, bounded, active⟩
  unfold Files.contents
  rwa [retained_eq ordered]

theorem Sound.rename (sound : Sound size capacity w) {name : Name}
    (later : ∀ s ∈ w.archive, s.1 < name) :
    Sound size capacity (FileOp.perform (.rename name) w).1 := by
  have archive : (FileOp.perform (.rename name) w).1.archive = w.archive ++ [(name, w.active)] := by
    simp only [FileOp.perform]
    rw [filter_later later]
  apply Sound.of_archive archive
  · rw [List.pairwise_append]
    refine ⟨sound.ordered, List.pairwise_singleton _ _, fun s mem t last => ?_⟩
    rw [List.mem_singleton.mp last]
    exact later s mem
  · change (w.archive ++ [(name, w.active)]).flatMap Prod.snd ++ [] <:+ w.written
    simpa using sound.contents
  · intro s mem
    rw [List.mem_append, List.mem_singleton] at mem
    rcases mem with mem | rfl
    · exact sound.newest.archive s mem
    · exact sound.newest.active
  · exact Nat.zero_le _

theorem remove_archive (sound : Sound size capacity w) {name : Name} {segment : List Entry}
    {rest : List (Name × List Entry)} (first : w.archive = (name, segment) :: rest) :
    (FileOp.perform (.remove name) w).1.archive = rest := by
  simp only [FileOp.perform]
  rw [first, filter_first (first ▸ sound.ordered)]

theorem Sound.remove (sound : Sound size capacity w) {name : Name} {segment : List Entry}
    {rest : List (Name × List Entry)} (first : w.archive = (name, segment) :: rest) :
    Sound size capacity (FileOp.perform (.remove name) w).1 := by
  have ordered := sound.ordered
  have contents := sound.contents
  have archive := sound.newest.archive
  rw [first] at ordered contents archive
  apply Sound.of_archive (remove_archive sound first)
  · exact (List.pairwise_cons.mp ordered).2
  · rw [List.flatMap_cons, List.append_assoc] at contents
    exact (List.suffix_append _ _).trans contents
  · exact (List.forall_mem_cons.mp archive).2
  · exact sound.newest.active

theorem Sound.append (sound : Sound size capacity w) {entry : Entry}
    (fits : bytes size (w.active ++ [entry]) ≤ capacity) :
    Sound size capacity (FileOp.perform (.append entry) w).1 := by
  have contents : w.archive.flatMap Prod.snd ++ (w.active ++ [entry]) <:+ w.written ++ [entry] := by
    rw [← List.append_assoc, List.suffix_append_self_iff]
    exact sound.contents
  exact .of_archive (w := (FileOp.perform (.append entry) w).1) rfl sound.ordered contents
    sound.newest.archive fits

/-- Every allowed operation keeps the newest entries. -/
theorem Sound.perform (sound : Sound size capacity w) {op : FileOp Name Entry}
    (allowed : Allowed size capacity kept w op) : Sound size capacity (op.perform w).1 := by
  cases op with
  | rename name => exact sound.rename allowed
  | remove name =>
      obtain ⟨segment, rest, first, -⟩ := allowed
      exact sound.remove first
  | append entry => exact sound.append allowed

section Lists

variable {ops : List (FileOp Name Entry)}

variable (size capacity kept) in
/-- Every operation of a list is allowed where it comes. -/
def Admissible (w : Files Name Entry) (ops : List (FileOp Name Entry)) : Prop :=
  ∀ taken ∈ trace FileOp.perform w ops, Allowed size capacity kept taken.before taken.input

theorem Admissible.nil : Admissible size capacity kept w [] := by
  rintro _ ⟨⟩

theorem Admissible.cons {op : FileOp Name Entry} (allowed : Allowed size capacity kept w op)
    (later : Admissible size capacity kept (op.perform w).1 ops) :
    Admissible size capacity kept w (op :: ops) :=
  List.forall_mem_cons.mpr ⟨allowed, later⟩

theorem Admissible.append {first later : List (FileOp Name Entry)}
    (earlier : Admissible size capacity kept w first)
    (rest : Admissible size capacity kept (performAll w first) later) :
    Admissible size capacity kept w (first ++ later) := by
  unfold Admissible
  rw [trace_append]
  exact List.forall_mem_append.mpr ⟨earlier, rest⟩

/-- Operations which are cut off are admissible as far as they went. -/
theorem Admissible.take (admissible : Admissible size capacity kept w ops) (count : Nat) :
    Admissible size capacity kept w (ops.take count) := by
  rw [← List.take_append_drop count ops] at admissible
  unfold Admissible at admissible
  rw [trace_append] at admissible
  exact (List.forall_mem_append.mp admissible).1

theorem Sound.performAll (sound : Sound size capacity w)
    (admissible : Admissible size capacity kept w ops) :
    Sound size capacity (performAll w ops) := by
  induction ops generalizing w with
  | nil => exact sound
  | cons op ops inductionHypothesis =>
      obtain ⟨here, later⟩ := List.forall_mem_cons.mp admissible
      exact inductionHypothesis (sound.perform here) later

/-- The files are sound between the operations, too. -/
theorem Sound.between (sound : Sound size capacity w)
    (admissible : Admissible size capacity kept w ops) :
    ∀ taken ∈ trace FileOp.perform w ops, Sound size capacity taken.before ∧
      Allowed size capacity kept taken.before taken.input ∧ Newest size capacity taken.after :=
  forall_mem_trace FileOp.perform (Sound size capacity)
    (fun taken => Allowed size capacity kept taken.before taken.input) sound admissible
    fun _ _ sound allowed => ⟨⟨sound, allowed, (sound.perform allowed).newest⟩, sound.perform allowed⟩

/-- The oldest segments may be removed down to the number which is kept. -/
theorem admissible_removals (sound : Sound size capacity w) {count : Nat}
    (enough : count + kept ≤ w.archive.length) :
    Admissible size capacity kept w (((w.archive.map Prod.fst).take count).map .remove) := by
  induction count generalizing w with
  | zero => exact Admissible.nil
  | succ count inductionHypothesis =>
      cases first : w.archive with
      | nil =>
          rw [first, List.length_nil] at enough
          omega
      | cons oldest rest =>
          rw [first, List.length_cons] at enough
          have archive := remove_archive sound first
          refine Admissible.cons ⟨_, rest, first, by omega⟩ ?_
          rw [← archive]
          exact inductionHypothesis (sound.remove first) (by rw [archive]; omega)

/-- An archived name was archived before or given by a rename. -/
theorem archived_name {s : Name × List Entry} (mem : s ∈ (performAll w ops).archive) :
    s ∈ w.archive ∨ .rename s.1 ∈ ops := by
  induction ops generalizing w with
  | nil => exact .inl mem
  | cons op ops inductionHypothesis =>
      rcases inductionHypothesis mem with before | renamed
      · cases op with
        | rename name =>
            rcases List.mem_append.mp before with kept | new
            · exact .inl (List.mem_of_mem_filter kept)
            · rw [List.mem_singleton] at new
              subst new
              exact .inr List.mem_cons_self
        | remove name => exact .inl (List.mem_of_mem_filter before)
        | append entry => exact .inl before
      · exact .inr (List.mem_cons_of_mem _ renamed)

end Lists

end Semantics.SegmentedLog
