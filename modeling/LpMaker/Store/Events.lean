import Mathlib
import LpMaker.Config
import LpMaker.Semantics.SegmentedLog

/-!
# The event log of the store

Events are appended to `events.jsonl`. A full file is archived under a name made of the clock and
a random identifier, and the first names beyond the retention limit are removed. The name decides
what is oldest, so the log keeps the newest events while every new name sorts after the archived
ones.
-/

namespace LpMaker

open Semantics SegmentedLog

/-- The bytes of one line. -/
abbrev Record := List UInt8

abbrev FileName := List Char

abbrev EventFiles := Files FileName Record

/-- The store, opened with a policy. -/
structure Store where
  policy : StorageConfig
  writable : Bool

/-- One call of `event`: the serialised line, the clock and the random identifier of an archive
name, and how many file operations come before an error or a crash. -/
structure EventInput where
  line : List UInt8
  nowMs : Nat
  id : List Char
  completed : Nat

namespace Store

/-- The decimal digits of a number, padded to a width. -/
def digits : Nat → Nat → List Char
  | 0, _ => []
  | width + 1, n => Nat.digitChar (n / 10 ^ width % 10) :: digits width (n % 10 ^ width)

/-- `events-{:020}-{}.jsonl`. -/
def segmentName (nowMs : Nat) (id : List Char) : FileName :=
  "events-".toList ++ (digits 20 nowMs ++ ('-' :: (id ++ ".jsonl".toList)))

def isSegmentName (name : FileName) : Bool :=
  "events-".toList.isPrefixOf name && ".jsonl".toList.isSuffixOf name

def record (input : EventInput) : Record := input.line ++ [10]

/-- A full active file is archived before the record. -/
def rotation (store : Store) (input : EventInput) (w : EventFiles) :
    List (FileOp FileName Record) :=
  if bytes List.length w.active > 0 ∧
      bytes List.length w.active + (record input).length > store.policy.eventSegmentBytes then
    [.rename (segmentName input.nowMs input.id)]
  else []

/-- The names of the archived segments in order. -/
def archived (w : EventFiles) : List FileName :=
  ((w.archive.map Prod.fst).filter isSegmentName).insertionSort (· ≤ ·)

/-- The first segments beyond the retention limit are removed. -/
def pruning (store : Store) (w : EventFiles) : List (FileOp FileName Record) :=
  ((archived w).take ((archived w).length - store.policy.eventRetainedSegments)).map .remove

/-- The file operations of one event. -/
def event (store : Store) (input : EventInput) (w : EventFiles) :
    Except String (List (FileOp FileName Record)) := do
  ensure store.writable "read-only store cannot append events"
  ensure ((record input).length ≤ store.policy.eventSegmentBytes) "event exceeds segment capacity"
  let rotated := rotation store input w
  pure (rotated ++ pruning store (performAll w rotated) ++ [.append (record input)])

/-- The files after one call, and the operations it came to. -/
def step (store : Store) (input : EventInput) (w : EventFiles) :
    EventFiles × Except String (List (FileOp FileName Record)) :=
  match event store input w with
  | .ok ops => (performAll w (ops.take input.completed), .ok (ops.take input.completed))
  | .error error => (w, .error error)

/-- Whenever a call archives the active file, the new name sorts after the archived ones. -/
def NamedLater (store : Store) (input : EventInput) (w : EventFiles) : Prop :=
  rotation store input w ≠ [] → ∀ s ∈ w.archive, s.1 < segmentName input.nowMs input.id

instance (store : Store) (input : EventInput) (w : EventFiles) :
    Decidable (NamedLater store input w) := by
  unfold NamedLater
  infer_instance

/-- What a call leaves and removes. -/
structure Retains (store : Store)
    (taken : Transition EventFiles EventInput (Except String (List (FileOp FileName Record)))) :
    Prop where
  newest : Newest List.length store.policy.eventSegmentBytes taken.after
  between : ∀ ops, taken.output = .ok ops → ∀ change ∈ trace FileOp.perform taken.before ops,
    Newest List.length store.policy.eventSegmentBytes change.after
  oldest : ∀ ops, taken.output = .ok ops → ∀ change ∈ trace FileOp.perform taken.before ops,
    ∀ name, change.input = .remove name → ∃ segment rest,
      change.before.retained = (name, segment) :: rest ∧
        store.policy.eventRetainedSegments ≤ rest.length

/-- The files which the calls keep: in order, and named as segments. -/
structure Kept (store : Store) (w : EventFiles) : Prop where
  sound : Sound List.length store.policy.eventSegmentBytes w
  named : ∀ s ∈ w.archive, isSegmentName s.1

section Names

theorem isSegmentName_segmentName (nowMs : Nat) (id : List Char) :
    isSegmentName (segmentName nowMs id) := by
  unfold isSegmentName segmentName
  rw [Bool.and_eq_true, List.isPrefixOf_iff_prefix, List.isSuffixOf_iff_suffix]
  refine ⟨List.prefix_append _ _, ?_⟩
  exact ⟨"events-".toList ++ (digits 20 nowMs ++ '-' :: id), by simp only [List.append_assoc,
    List.cons_append]⟩

/-- Padded digits are in the order of their numbers, whatever follows them. -/
theorem digits_lt {width a b : Nat} (less : a < b) (fits : b < 10 ^ width) (x y : List Char) :
    digits width a ++ x < digits width b ++ y := by
  induction width generalizing a b with
  | zero => omega
  | succ width inductionHypothesis =>
      have positive : 0 < 10 ^ width := by positivity
      have high : b / 10 ^ width < 10 := Nat.div_lt_of_lt_mul (by rwa [pow_succ] at fits)
      have ordered : a / 10 ^ width ≤ b / 10 ^ width := Nat.div_le_div_right less.le
      have ascending : ∀ j < 10, ∀ i < j, Nat.digitChar i < Nat.digitChar j := by decide
      unfold digits
      rw [Nat.mod_eq_of_lt high, Nat.mod_eq_of_lt (by omega : a / 10 ^ width < 10),
        List.cons_append, List.cons_append, List.cons_lt_cons_iff]
      rcases ordered.lt_or_eq with lower | same
      · exact .inl (ascending _ high _ lower)
      · refine .inr ⟨by rw [same], inductionHypothesis ?_ (Nat.mod_lt _ positive)⟩
        have a_split := Nat.div_add_mod a (10 ^ width)
        have b_split := Nat.div_add_mod b (10 ^ width)
        rw [same] at a_split
        omega

/-- A later clock gives a later name. -/
theorem segmentName_lt {earlier later : Nat} (less : earlier < later) (fits : later < 2 ^ 64)
    (id id' : List Char) : segmentName earlier id < segmentName later id' := by
  have digits := digits_lt less (fits.trans (by norm_num : 2 ^ 64 < 10 ^ 20))
  unfold segmentName
  simpa using digits _ _

end Names

section Step

variable {store : Store} {input : EventInput} {w : EventFiles}
  {ops : List (FileOp FileName Record)}

theorem Kept.empty : Kept store Files.empty where
  sound := .empty
  named := by rintro _ ⟨⟩

theorem Kept.archived_eq (kept : Kept store w) : archived w = w.archive.map Prod.fst := by
  unfold archived
  rw [List.filter_eq_self.mpr (List.forall_mem_map.mpr kept.named)]
  apply List.Pairwise.insertionSort_eq
  rw [List.pairwise_map]
  exact kept.sound.ordered.imp le_of_lt

/-- Every new name is that of a segment. -/
theorem Kept.performAll (kept : Kept store w)
    (admissible : Admissible List.length store.policy.eventSegmentBytes
      store.policy.eventRetainedSegments w ops)
    (named : ∀ name, .rename name ∈ ops → isSegmentName name) :
    Kept store (performAll w ops) where
  sound := kept.sound.performAll admissible
  named s mem := (archived_name mem).elim (kept.named s) (named s.1)

theorem mem_rotation {name : FileName} (mem : .rename name ∈ rotation store input w) :
    name = segmentName input.nowMs input.id := by
  unfold rotation at mem
  split_ifs at mem with full
  · cases List.mem_singleton.mp mem
    rfl
  · cases mem

/-- Archiving is allowed under a later name, and leaves room for the record. -/
theorem rotation_admissible (later : NamedLater store input w) :
    Admissible List.length store.policy.eventSegmentBytes store.policy.eventRetainedSegments w
      (rotation store input w) := by
  unfold NamedLater at later
  unfold rotation at later ⊢
  split_ifs at later ⊢ with full
  · exact .cons (later (List.cons_ne_nil _ _)) .nil
  · exact .nil

theorem rotation_room (fits : (record input).length ≤ store.policy.eventSegmentBytes) :
    bytes List.length ((SegmentedLog.performAll w (rotation store input w)).active ++
      [record input]) ≤ store.policy.eventSegmentBytes := by
  unfold rotation
  split_ifs with full
  · simpa [SegmentedLog.performAll, FileOp.perform, bytes] using fits
  · simp only [SegmentedLog.performAll, run_nil, bytes, List.map_append, List.sum_append,
      List.map_cons, List.map_nil, List.sum_singleton] at full ⊢
    omega

/-- Removals leave the active file alone. -/
theorem active_of_removals (names : List FileName) :
    (SegmentedLog.performAll w (names.map .remove)).active = w.active := by
  induction names generalizing w with
  | nil => rfl
  | cons name names inductionHypothesis => exact inductionHypothesis

theorem pruning_admissible (kept : Kept store w) :
    Admissible List.length store.policy.eventSegmentBytes store.policy.eventRetainedSegments w
      (pruning store w) := by
  unfold pruning
  rw [kept.archived_eq, List.length_map]
  rcases le_total w.archive.length store.policy.eventRetainedSegments with few | many
  · rw [Nat.sub_eq_zero_of_le few]
    exact .nil
  · exact admissible_removals kept.sound (Nat.sub_add_cancel many).le

theorem mem_pruning {name : FileName} : .rename name ∉ pruning store w := by
  intro mem
  obtain ⟨_, _, removal⟩ := List.mem_map.mp mem
  cases removal

/-- The operations of an event are admissible under a later name. -/
theorem event_admissible (kept : Kept store w) (later : NamedLater store input w)
    (accepted : event store input w = .ok ops) :
    Admissible List.length store.policy.eventSegmentBytes store.policy.eventRetainedSegments w ops ∧
      ∀ name, .rename name ∈ ops → isSegmentName name := by
  simp only [event, check_bind_eq_ok, ensure_eq_ok, pure_eq_ok] at accepted
  obtain ⟨-, fits, rfl⟩ := accepted
  have rotated := rotation_admissible later
  have keptRotated := kept.performAll rotated fun name mem => by
    rw [mem_rotation mem]
    exact isSegmentName_segmentName _ _
  have pruned := pruning_admissible keptRotated
  refine ⟨?_, fun name mem => ?_⟩
  · refine (rotated.append pruned).append (.cons ?_ .nil)
    rw [performAll_append]
    unfold Allowed pruning
    rw [active_of_removals]
    exact rotation_room fits
  · simp only [List.mem_append, List.mem_singleton, reduceCtorEq, or_false] at mem
    rcases mem with mem | mem
    · rw [mem_rotation mem]
      exact isSegmentName_segmentName _ _
    · exact absurd mem mem_pruning

/-- One call under a later name. -/
theorem step_retains (kept : Kept store w) (later : NamedLater store input w) :
    Retains store (transition (step store) w input) ∧ Kept store (step store input w).1 := by
  unfold transition step
  cases accepted : event store input w with
  | error message =>
      refine ⟨⟨kept.sound.newest, ?_, ?_⟩, kept⟩
      · rintro _ ⟨⟩
      · rintro _ ⟨⟩
  | ok ops =>
      obtain ⟨admissible, named⟩ := event_admissible kept later accepted
      have cut := admissible.take input.completed
      have next := kept.performAll cut fun name mem => named name (List.mem_of_mem_take mem)
      refine ⟨⟨next.sound.newest, ?_, ?_⟩, next⟩
      · rintro _ ⟨⟩ change mem
        exact (kept.sound.between cut change mem).2.2
      · rintro _ ⟨⟩ change mem name removal
        obtain ⟨sound, allowed, -⟩ := kept.sound.between cut change mem
        rw [removal] at allowed
        obtain ⟨segment, rest, first, enough⟩ := allowed
        exact ⟨segment, rest, (retained_eq sound.ordered).trans first, enough⟩

end Step

/-- In every run whose archive names come in order, the archive and the active file hold the newest
events after every file operation, in segments of the configured size, and only the oldest segment
is ever removed. -/
theorem newest_events_retained {store : Store} {inputs : List EventInput}
    (later : ∀ taken ∈ trace (step store) Files.empty inputs,
      NamedLater store taken.input taken.before) :
    ∀ taken ∈ trace (step store) Files.empty inputs, Retains store taken :=
  forall_mem_trace (step store) (Kept store)
    (fun taken => NamedLater store taken.input taken.before) Kept.empty later
    fun _ _ kept later => step_retains kept later

/-- A clock past those of the archived segments names them in order. -/
theorem namedLater_of_clock {store : Store} {input : EventInput} {w : EventFiles}
    (stamped : ∀ s ∈ w.archive, ∃ earlier < input.nowMs, ∃ id, s.1 = segmentName earlier id)
    (fits : input.nowMs < 2 ^ 64) : NamedLater store input w := by
  intro _ s mem
  obtain ⟨earlier, less, id, named⟩ := stamped s mem
  rw [named]
  exact segmentName_lt less fits id input.id

/-- One archived segment of at most a kilobyte is kept. -/
def smallStore : Store where
  policy := {
    eventSegmentBytes := 1024
    eventRetainedSegments := 1
    terminalOrdersKeep := 1
    orderArchiveMaxBytes := 1024
    minFreeBytes := 0 }
  writable := true

/-- Three events of 600 bytes at the given clocks. -/
def threeEvents (clocks : List Nat) : List EventInput :=
  clocks.zipIdx.map fun (nowMs, event) => ⟨List.replicate 599 event.toUInt8, nowMs, ['a'], 3⟩

theorem newest_events_retained_forward :
    Retains smallStore (transition (step smallStore)
      (run (step smallStore) Files.empty (threeEvents [1000, 1001]))
      ⟨List.replicate 599 2, 1002, ['a'], 3⟩) := by
  have split : threeEvents [1000, 1001, 1002] =
      threeEvents [1000, 1001] ++ [⟨List.replicate 599 2, 1002, ['a'], 3⟩] := rfl
  have later : ∀ taken ∈ trace (step smallStore) Files.empty (threeEvents [1000, 1001, 1002]),
      NamedLater smallStore taken.input taken.before := by decide +kernel
  refine newest_events_retained later _ ?_
  rw [split, trace_append]
  exact List.mem_append_right _ List.mem_cons_self

/-- When the clock goes back, the second event is removed and the first one is kept. -/
theorem newest_events_lost :
    (∀ input ∈ threeEvents [1000, 1001, 900],
        (record input).length ≤ smallStore.policy.eventSegmentBytes) ∧
      ¬ (run (step smallStore) Files.empty (threeEvents [1000, 1001, 900])).contents <:+
        (run (step smallStore) Files.empty (threeEvents [1000, 1001, 900])).written := by
  decide +kernel

end Store

end LpMaker
