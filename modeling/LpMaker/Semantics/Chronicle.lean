import Mathlib

/-!
# Chronological lists

A list whose entries carry increasing times splits at every time into the entries before it,
the one at it and the ones after it.
-/

namespace Semantics

variable {α : Type} {key : α → Nat} {list before after : List α} {here : Option α} {T t : Nat}

/-- A list is split into the entries before a time, the one at it and the ones after it. -/
structure SplitAt (key : α → Nat) (T : Nat) (list before : List α) (here : Option α)
    (after : List α) : Prop where
  split : list = before ++ (here.toList ++ after)
  earlier : ∀ x ∈ before, key x < T
  now : ∀ x ∈ here, key x = T
  later : ∀ x ∈ after, T < key x

/-- A chronological list splits at every time. -/
theorem exists_splitAt (ordered : list.Pairwise fun x y => key x < key y) (T : Nat) :
    ∃ before here after, SplitAt key T list before here after := by
  induction list with
  | nil => exact ⟨[], none, [], rfl, by simp, by simp, by simp⟩
  | cons x list inductionHypothesis =>
      obtain ⟨first, ordered⟩ := List.pairwise_cons.mp ordered
      rcases lt_trichotomy (key x) T with less | same | greater
      · obtain ⟨before, here, after, rfl, earlier, now, later⟩ := inductionHypothesis ordered
        exact ⟨x :: before, here, after, rfl, List.forall_mem_cons.mpr ⟨less, earlier⟩, now,
          later⟩
      · exact ⟨[], some x, list, rfl, by simp, by simpa using same, same ▸ first⟩
      · refine ⟨[], none, x :: list, rfl, by simp, by simp, ?_⟩
        exact List.forall_mem_cons.mpr ⟨greater, fun y mem => greater.trans (first y mem)⟩

namespace SplitAt

/-- The first part are the entries before the time. -/
theorem filter_lt (split : SplitAt key T list before here after) :
    list.filter (fun x => key x < T) = before := by
  have kept : before.filter (fun x => key x < T) = before := by
    simpa [List.filter_eq_self] using split.earlier
  have dropped : (here.toList ++ after).filter (fun x => key x < T) = [] := by
    rw [List.filter_eq_nil_iff]
    intro x mem
    rcases List.mem_append.mp mem with current | rest
    · have same := split.now x (Option.mem_toList.mp current)
      simp [same]
    · have late := split.later x rest
      simp only [decide_eq_true_eq]
      omega
  rw [split.split, List.filter_append, kept, dropped, List.append_nil]

/-- The middle part are the entries at the time. -/
theorem filter_eq (split : SplitAt key T list before here after) :
    list.filter (fun x => key x = T) = here.toList := by
  have first : before.filter (fun x => key x = T) = [] := by
    rw [List.filter_eq_nil_iff]
    intro x mem
    have early := split.earlier x mem
    simp only [decide_eq_true_eq]
    omega
  have last : after.filter (fun x => key x = T) = [] := by
    rw [List.filter_eq_nil_iff]
    intro x mem
    have late := split.later x mem
    simp only [decide_eq_true_eq]
    omega
  have middle : here.toList.filter (fun x => key x = T) = here.toList := by
    rw [List.filter_eq_self]
    intro x mem
    simpa using split.now x (Option.mem_toList.mp mem)
  rw [split.split, List.filter_append, List.filter_append, first, last, middle, List.nil_append,
    List.append_nil]

/-- An entry before the time is found in the first part. -/
theorem find_lt (split : SplitAt key T list before here after) (earlier : t < T) :
    list.find? (fun x => key x = t) = before.find? fun x => key x = t := by
  have missing : (here.toList ++ after).find? (fun x => key x = t) = none := by
    rw [List.find?_eq_none]
    intro x mem
    rcases List.mem_append.mp mem with current | rest
    · have same := split.now x (Option.mem_toList.mp current)
      simp only [decide_eq_true_eq]
      omega
    · have late := split.later x rest
      simp only [decide_eq_true_eq]
      omega
  rw [split.split, List.find?_append, missing, Option.or_none]

/-- The entry at the time is the middle part. -/
theorem find_eq (split : SplitAt key T list before here after) :
    list.find? (fun x => key x = T) = here := by
  rw [← List.head?_filter, split.filter_eq]
  cases here <;> rfl

end SplitAt

/-- A filter reads only what a weaker one keeps. -/
theorem filter_of_imp {p q : α → Bool} (weaker : ∀ x ∈ list, p x → q x) :
    list.filter p = (list.filter q).filter p := by
  rw [List.filter_filter]
  apply List.filter_congr
  intro x mem
  cases kept : p x with
  | false => simp
  | true => simp [weaker x mem kept]

/-- In a list of increasing keys the entries below a bound are a prefix. -/
theorem takeWhile_eq_filter {bound : Nat} (ordered : list.Pairwise fun x y => key x ≤ key y) :
    (list.takeWhile fun x => key x < bound) = list.filter fun x => key x < bound := by
  induction list with
  | nil => rfl
  | cons x list inductionHypothesis =>
      obtain ⟨first, ordered⟩ := List.pairwise_cons.mp ordered
      by_cases below : key x < bound
      · simp [below, inductionHypothesis ordered]
      · have none : list.filter (fun y => key y < bound) = [] := by
          rw [List.filter_eq_nil_iff]
          intro y mem
          have greater := first y mem
          simp only [decide_eq_true_eq]
          omega
        simp [below, none]

/-- Chronological lists which agree before a time and by `open_` at it split alike. -/
theorem splitAt_of_agree {β : Type} {open_ : α → β} {left right : List α}
    (left_ordered : left.Pairwise fun x y => key x < key y)
    (right_ordered : right.Pairwise fun x y => key x < key y)
    (before : left.filter (fun x => key x < T) = right.filter fun x => key x < T)
    (here : (left.filter fun x => key x = T).map open_ =
      (right.filter fun x => key x = T).map open_) :
    ∃ common leftHere rightHere leftAfter rightAfter,
      SplitAt key T left common leftHere leftAfter ∧
        SplitAt key T right common rightHere rightAfter ∧
        leftHere.map open_ = rightHere.map open_ := by
  obtain ⟨common, leftHere, leftAfter, leftSplit⟩ := exists_splitAt left_ordered T
  obtain ⟨common', rightHere, rightAfter, rightSplit⟩ := exists_splitAt right_ordered T
  rw [leftSplit.filter_lt, rightSplit.filter_lt] at before
  rw [leftSplit.filter_eq, rightSplit.filter_eq] at here
  subst before
  refine ⟨common, leftHere, rightHere, leftAfter, rightAfter, leftSplit, rightSplit, ?_⟩
  cases leftHere <;> cases rightHere <;> simp_all

end Semantics
