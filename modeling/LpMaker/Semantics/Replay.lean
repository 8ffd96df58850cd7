import Mathlib

/-!
# Replays of a table

A replay plays the rows of a table in order. Every row has an opening, which only prepares and
decides, and a continuation, which produces the next state; either may fail and ends the
replay. Invariants are proved row by row, and two replays whose rows agree up to an opening
agree up to it.
-/

namespace Semantics

variable {Row State Opened ε : Type}

/-- The two parts of playing one row. -/
structure Player (Row State Opened ε : Type) where
  opening : Row → State → Except ε Opened
  follow : Row → Opened → Except ε State

/-- One played row. -/
structure Played (Row State Opened ε : Type) where
  row : Row
  before : State
  opened : Except ε Opened
  after : Except ε State

namespace Player

variable (player : Player Row State Opened ε)

/-- Play one row. -/
def play (state : State) (row : Row) : Played Row State Opened ε where
  row := row
  before := state
  opened := player.opening row state
  after := player.opening row state >>= player.follow row

/-- Play rows until one of them fails. -/
def playAll : State → List Row → List (Played Row State Opened ε)
  | _, [] => []
  | state, row :: rows =>
      player.play state row :: match (player.play state row).after with
        | .ok next => playAll next rows
        | .error _ => []

/-- The state after all rows. -/
def finish (state : State) (rows : List Row) : Except ε State :=
  rows.foldlM (fun state row => (player.play state row).after) state

variable {player} {state next : State} {row : Row} {rows first second : List Row}

@[simp] theorem playAll_nil : player.playAll state [] = [] := rfl

theorem playAll_cons_of_ok (after : (player.play state row).after = .ok next) :
    player.playAll state (row :: rows) = player.play state row :: player.playAll next rows := by
  simp only [playAll, after]

theorem playAll_cons_of_error {failure : ε} (after : (player.play state row).after = .error failure) :
    player.playAll state (row :: rows) = [player.play state row] := by
  simp only [playAll, after]

theorem finish_cons_of_ok (after : (player.play state row).after = .ok next) :
    player.finish state (row :: rows) = player.finish next rows := by
  simp only [finish, List.foldlM_cons, after]
  rfl

theorem finish_cons_of_error {failure : ε}
    (after : (player.play state row).after = .error failure) :
    player.finish state (row :: rows) = .error failure := by
  simp only [finish, List.foldlM_cons, after]
  rfl

theorem play_after_eq_ok :
    (player.play state row).after = .ok next ↔
      ∃ opened, player.opening row state = .ok opened ∧ player.follow row opened = .ok next := by
  unfold play
  cases player.opening row state with
  | error _ => exact ⟨nofun, fun ⟨_, same, _⟩ => by cases same⟩
  | ok opened =>
      constructor
      · intro followed
        exact ⟨opened, rfl, followed⟩
      · rintro ⟨_, same, followed⟩
        cases same
        exact followed

/-- A property of every played row follows from an invariant of the states. -/
theorem forall_mem_playAll (Inv : State → Prop) (Allowed : Played Row State Opened ε → Prop)
    {Post : Played Row State Opened ε → Prop} (start : Inv state)
    (allowed : ∀ played ∈ player.playAll state rows, Allowed played)
    (preserved : ∀ state row, Inv state → Allowed (player.play state row) →
      Post (player.play state row) ∧
        ∀ next, (player.play state row).after = .ok next → Inv next) :
    ∀ played ∈ player.playAll state rows, Post played := by
  induction rows generalizing state with
  | nil =>
      intro played mem
      cases mem
  | cons row rows inductionHypothesis =>
      cases after : (player.play state row).after with
      | error _ =>
          rw [playAll_cons_of_error after, List.forall_mem_singleton] at allowed ⊢
          exact (preserved state row start allowed).1
      | ok next =>
          rw [playAll_cons_of_ok after] at allowed ⊢
          obtain ⟨here, later⟩ := List.forall_mem_cons.mp allowed
          obtain ⟨post, kept⟩ := preserved state row start here
          exact List.forall_mem_cons.mpr ⟨post, inductionHypothesis (kept next after) later⟩

/-- What follows a played row is a replay from its result. -/
theorem playAll_split {before rest : List (Played Row State Opened ε)} {played : Played Row State Opened ε}
    (split : player.playAll state rows = before ++ played :: rest) :
    ∃ state row rows, played = player.play state row ∧
      (rest = [] ∨ ∃ next, played.after = .ok next ∧ rest = player.playAll next rows) := by
  induction rows generalizing state before with
  | nil => cases before <;> cases split
  | cons row rows inductionHypothesis =>
      cases after : (player.play state row).after with
      | error _ =>
          rw [playAll_cons_of_error after] at split
          cases before with
          | nil =>
              simp only [List.nil_append, List.cons.injEq] at split
              exact ⟨state, row, rows, split.1.symm, .inl split.2.symm⟩
          | cons _ before => simp at split
      | ok next =>
          rw [playAll_cons_of_ok after] at split
          cases before with
          | nil =>
              simp only [List.nil_append, List.cons.injEq] at split
              exact ⟨state, row, rows, split.1.symm,
                .inr ⟨next, split.1 ▸ after, split.2.symm⟩⟩
          | cons _ before =>
              simp only [List.cons_append, List.cons.injEq] at split
              exact inductionHypothesis split.2

/-- A replay continues from the state its first rows reach. -/
theorem playAll_append :
    player.playAll state (first ++ second) = player.playAll state first ++
      match player.finish state first with
      | .ok next => player.playAll next second
      | .error _ => [] := by
  induction first generalizing state with
  | nil => rfl
  | cons row first inductionHypothesis =>
      cases after : (player.play state row).after with
      | error _ =>
          rw [List.cons_append, playAll_cons_of_error after, playAll_cons_of_error after,
            finish_cons_of_error after]
          rfl
      | ok next =>
          rw [List.cons_append, playAll_cons_of_ok after, playAll_cons_of_ok after,
            finish_cons_of_ok after, inductionHypothesis]
          rfl

theorem row_mem_of_mem_playAll {played : Played Row State Opened ε}
    (mem : played ∈ player.playAll state rows) : played.row ∈ rows := by
  induction rows generalizing state with
  | nil => cases mem
  | cons row rows inductionHypothesis =>
      cases after : (player.play state row).after with
      | error _ =>
          rw [playAll_cons_of_error after, List.mem_singleton] at mem
          rw [mem]
          exact List.mem_cons_self
      | ok next =>
          rw [playAll_cons_of_ok after] at mem
          rcases List.mem_cons.mp mem with rfl | later
          · exact List.mem_cons_self
          · exact List.mem_cons_of_mem _ (inductionHypothesis later)

end Player

section Causal

/-- Two replays agree on the rows before a time and on the opening at it. -/
structure SameUntil (time : Row → Nat) (T : Nat) (left right : List (Played Row State Opened ε)) :
    Prop where
  before : left.filter (fun played => time played.row < T) = right.filter fun played => time played.row < T
  opening : (left.filter fun played => time played.row = T).map Played.opened =
    (right.filter fun played => time played.row = T).map Played.opened

variable {player : Player Row State Opened ε} {state : State} {time : Row → Nat} {T : Nat}
  {common left right : List Row} {here there : Option Row}

theorem SameUntil.refl (played : List (Played Row State Opened ε)) :
    SameUntil time T played played :=
  ⟨rfl, rfl⟩

/-- Replays which only start later agree. -/
theorem SameUntil.of_later {first second : List (Played Row State Opened ε)}
    (first_later : ∀ played ∈ first, T < time played.row)
    (second_later : ∀ played ∈ second, T < time played.row) : SameUntil time T first second := by
  have none_before : ∀ list : List (Played Row State Opened ε),
      (∀ played ∈ list, T < time played.row) →
      list.filter (fun played => time played.row < T) = [] ∧
        list.filter (fun played => time played.row = T) = [] := by
    intro list later
    simp only [List.filter_eq_nil_iff, decide_eq_true_eq]
    constructor
    · intro played mem
      have late := later played mem
      omega
    · intro played mem
      have late := later played mem
      omega
  obtain ⟨firstBefore, firstNow⟩ := none_before first first_later
  obtain ⟨secondBefore, secondNow⟩ := none_before second second_later
  exact ⟨by rw [firstBefore, secondBefore], by rw [firstNow, secondNow]⟩

namespace Player

/-- The played rows before a time. -/
theorem playAll_before (earlier : ∀ row ∈ common, time row < T)
    (later : ∀ row ∈ left, T ≤ time row) :
    (player.playAll state (common ++ left)).filter (fun played => time played.row < T) =
      player.playAll state common := by
  have kept : (player.playAll state common).filter (fun played => time played.row < T) =
      player.playAll state common := by
    rw [List.filter_eq_self]
    intro played mem
    exact decide_eq_true (earlier _ (row_mem_of_mem_playAll mem))
  rw [playAll_append, List.filter_append, kept, List.append_right_eq_self, List.filter_eq_nil_iff]
  intro played mem
  cases finished : player.finish state common with
  | error _ =>
      rw [finished] at mem
      cases mem
  | ok next =>
      rw [finished] at mem
      have late := later _ (row_mem_of_mem_playAll mem)
      simp only [decide_eq_true_eq]
      omega

theorem playAll_filter_eq_nil (other : ∀ row ∈ left, time row ≠ T) :
    (player.playAll state left).filter (fun played => time played.row = T) = [] := by
  rw [List.filter_eq_nil_iff]
  intro played mem
  simpa using other _ (row_mem_of_mem_playAll mem)

/-- The opening at a time, on the state which the earlier rows reach. -/
theorem playAll_opening (earlier : ∀ row ∈ common, time row < T) (now : ∀ row ∈ here, time row = T)
    (later : ∀ row ∈ left, T < time row) :
    ((player.playAll state (common ++ (here.toList ++ left))).filter
      fun played => time played.row = T).map Played.opened =
      match player.finish state common with
      | .ok next => (here.map (player.opening · next)).toList
      | .error _ => [] := by
  have before : (player.playAll state common).filter (fun played => time played.row = T) = [] :=
    playAll_filter_eq_nil fun row mem => Nat.ne_of_lt (earlier row mem)
  have after : ∀ next, (player.playAll next left).filter (fun played => time played.row = T) = [] :=
    fun next => playAll_filter_eq_nil fun row mem => Nat.ne_of_gt (later row mem)
  rw [playAll_append, List.filter_append, before, List.nil_append]
  cases player.finish state common with
  | error _ => rfl
  | ok next =>
      cases here with
      | none => simp [after]
      | some row =>
          have due : time row = T := now row rfl
          cases finished : (player.play next row).after with
          | error _ =>
              simp only [Option.toList_some, List.singleton_append, playAll_cons_of_error finished]
              simp [play, due]
          | ok reached =>
              simp only [Option.toList_some, List.singleton_append, playAll_cons_of_ok finished,
                List.filter_cons, after]
              simp [play, due]

/-- Rows which agree before a time, and whose rows at it open alike, play alike until then. -/
theorem playAll_sameUntil (earlier : ∀ row ∈ common, time row < T)
    (here_now : ∀ row ∈ here, time row = T) (there_now : ∀ row ∈ there, time row = T)
    (left_later : ∀ row ∈ left, T < time row) (right_later : ∀ row ∈ right, T < time row)
    (same : ∀ next, here.map (player.opening · next) = there.map (player.opening · next)) :
    SameUntil time T (player.playAll state (common ++ (here.toList ++ left)))
      (player.playAll state (common ++ (there.toList ++ right))) := by
  have late : ∀ (now : Option Row) (rest : List Row), (∀ row ∈ now, time row = T) →
      (∀ row ∈ rest, T < time row) → ∀ row ∈ now.toList ++ rest, T ≤ time row := by
    intro now rest due later row mem
    rcases List.mem_append.mp mem with current | rest
    · exact Nat.le_of_eq (due row (Option.mem_toList.mp current)).symm
    · exact Nat.le_of_lt (later row rest)
  constructor
  · rw [playAll_before earlier (late here left here_now left_later),
      playAll_before earlier (late there right there_now right_later)]
  · rw [playAll_opening earlier here_now left_later, playAll_opening earlier there_now right_later]
    cases player.finish state common with
    | error _ => rfl
    | ok next => simp only [same]

end Player

end Causal

end Semantics
