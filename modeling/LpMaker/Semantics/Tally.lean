import Mathlib

/-!
# Counters with resets

A log, the latest entry first, of marks that were credited to a counter and of events
that cleared it. The counter never exceeds the current streak, and when every credit
advances a clock by one period the streak is consecutive and no mark is credited twice.
-/

namespace Semantics

variable {Mark : Type}

/-- One entry of a log. -/
inductive Tally (Mark : Type) where
  | clear
  | credit (mark : Mark)

namespace Tally

/-- The effect of one entry on a counter with successor `succ`. -/
def count (succ : Nat → Nat) : Tally Mark → Nat → Nat
  | clear, _ => 0
  | credit _, total => succ total

/-- The effect of several entries, the earliest of them last. -/
def countAll (succ : Nat → Nat) (log : List (Tally Mark)) (total : Nat) : Nat :=
  log.foldr (count succ) total

/-- The marks credited since the counter was last cleared, the latest first. -/
def streak : List (Tally Mark) → List Mark
  | [] | clear :: _ => []
  | credit mark :: earlier => mark :: streak earlier

/-- All credited marks, the latest first. -/
def credits : List (Tally Mark) → List Mark
  | [] => []
  | clear :: earlier => credits earlier
  | credit mark :: earlier => mark :: credits earlier

@[simp] theorem countAll_nil (succ : Nat → Nat) (total : Nat) :
    countAll succ ([] : List (Tally Mark)) total = total := rfl

@[simp] theorem countAll_cons (succ : Nat → Nat) (entry : Tally Mark)
    (log : List (Tally Mark)) (total : Nat) :
    countAll succ (entry :: log) total = entry.count succ (countAll succ log total) := rfl

theorem countAll_append (succ : Nat → Nat) (later earlier : List (Tally Mark)) (total : Nat) :
    countAll succ (later ++ earlier) total = countAll succ later (countAll succ earlier total) :=
  List.foldr_append

theorem streak_subset_credits (log : List (Tally Mark)) : streak log ⊆ credits log := by
  induction log with
  | nil => exact List.Subset.refl _
  | cons entry earlier inductionHypothesis =>
      cases entry with
      | clear => exact List.nil_subset _
      | credit mark => exact List.cons_subset_cons mark inductionHypothesis

theorem credits_append (later earlier : List (Tally Mark)) :
    credits (later ++ earlier) = credits later ++ credits earlier := by
  induction later with
  | nil => rfl
  | cons entry later inductionHypothesis =>
      cases entry <;> simp [credits, inductionHypothesis]

/-- A counter which was within the streak stays within it. -/
theorem countAll_le_streak {succ : Nat → Nat} (atMostOne : ∀ total, succ total ≤ total + 1)
    (later : List (Tally Mark)) {earlier : List (Tally Mark)} {total : Nat}
    (within : total ≤ (streak earlier).length) :
    countAll succ later total ≤ (streak (later ++ earlier)).length := by
  induction later with
  | nil => exact within
  | cons entry later inductionHypothesis =>
      cases entry with
      | clear => exact Nat.zero_le _
      | credit mark =>
          have step := atMostOne (countAll succ later total)
          simp only [countAll_cons, count, List.cons_append, streak, List.length_cons]
          omega

/-- A log whose credits advance a clock: credited marks are never later than `last`, a
running streak ends there and proceeds by whole periods, and no mark is credited twice. -/
structure Recorded (period : Nat) (key : Mark → Nat) (log : List (Tally Mark)) (last : Nat) :
    Prop where
  bounded : ∀ mark ∈ credits log, key mark ≤ last
  latest : ∀ mark ∈ (streak log).head?, key mark = last
  consecutive : (streak log).IsChain fun later earlier => key later = key earlier + period
  increasing : (credits log).Pairwise fun later earlier => key earlier < key later

namespace Recorded

variable {period : Nat} {key : Mark → Nat} {log : List (Tally Mark)} {last : Nat}

theorem nil : Recorded period key [] last :=
  ⟨nofun, nofun, .nil, .nil⟩

/-- After a clear the clock may advance arbitrarily. -/
theorem clear (recorded : Recorded period key log last) {next : Nat} (later : last ≤ next) :
    Recorded period key (Tally.clear :: log) next where
  bounded mark mem := (recorded.bounded mark mem).trans later
  latest := nofun
  consecutive := .nil
  increasing := recorded.increasing

/-- A credit advances the clock, by one period within a streak. -/
theorem credit (recorded : Recorded period key log last) {mark : Mark} (later : last < key mark)
    (step : streak log ≠ [] → key mark = last + period) :
    Recorded period key (Tally.credit mark :: log) (key mark) where
  bounded := by
    intro other mem
    rcases List.mem_cons.mp mem with rfl | older
    · exact le_rfl
    · exact (recorded.bounded other older).trans later.le
  latest := by
    intro other mem
    obtain rfl : mark = other := Option.some.inj mem
    rfl
  consecutive := by
    rw [streak, List.isChain_cons]
    refine ⟨fun previous head => ?_, recorded.consecutive⟩
    have running : streak log ≠ [] := by
      rintro empty
      rw [empty] at head
      cases head
    rw [step running, recorded.latest previous head]
  increasing :=
    List.pairwise_cons.mpr ⟨fun other mem => (recorded.bounded other mem).trans_lt later,
      recorded.increasing⟩

end Recorded

end Tally

end Semantics
