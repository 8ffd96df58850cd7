import Mathlib
import LpMaker.Semantics.Result

/-!
# Computations which may panic

A computation stops where it returns an error of its own, or where its arithmetic leaves the
machine word, divides by zero or reads outside a list. Two computations agree when the one with
these faults returns what the one without them does, and so never panics.
-/

namespace Fault

/-- Why a computation stops. -/
inductive Stop (ε : Type) where
  | panic
  | failed (error : ε)
deriving DecidableEq

abbrev Faulty (ε α : Type) := Except (Stop ε) α

variable {ε α β : Type}

/-- A sum which must fit in `w` bits. -/
def add (w a b : Nat) : Faulty ε Nat := if a + b < 2 ^ w then .ok (a + b) else .error .panic

/-- A product which must fit in `w` bits. -/
def mul (w a b : Nat) : Faulty ε Nat := if a * b < 2 ^ w then .ok (a * b) else .error .panic

def sub (a b : Nat) : Faulty ε Nat := if b ≤ a then .ok (a - b) else .error .panic

def div (a b : Nat) : Faulty ε Nat := if b = 0 then .error .panic else .ok (a / b)

/-- A conversion to a word of `w` bits. -/
def fit (w n : Nat) : Faulty ε Nat := if n < 2 ^ w then .ok n else .error .panic

/-- `xs[i]`. -/
def index (xs : List α) (i : Nat) : Faulty ε α :=
  match xs[i]? with
  | some x => .ok x
  | none => .error .panic

/-- `xs[low..high]`. -/
def slice (xs : List α) (low high : Nat) : Faulty ε (List α) :=
  if low ≤ high ∧ high ≤ xs.length then .ok ((xs.drop low).take (high - low))
  else .error .panic

/-- A computation without faults. -/
def returned (result : Except ε α) : Faulty ε α := result.mapError .failed

section Operations

variable {w a b : Nat} {xs : List α}

theorem add_of_lt (fits : a + b < 2 ^ w) : (add w a b : Faulty ε Nat) = .ok (a + b) := if_pos fits

theorem add_of_ge (large : 2 ^ w ≤ a + b) : (add w a b : Faulty ε Nat) = .error .panic :=
  if_neg (Nat.not_lt.mpr large)

theorem mul_of_lt (fits : a * b < 2 ^ w) : (mul w a b : Faulty ε Nat) = .ok (a * b) := if_pos fits

theorem mul_of_ge (large : 2 ^ w ≤ a * b) : (mul w a b : Faulty ε Nat) = .error .panic :=
  if_neg (Nat.not_lt.mpr large)

theorem sub_of_le (ordered : b ≤ a) : (sub a b : Faulty ε Nat) = .ok (a - b) := if_pos ordered

theorem div_of_ne (nonzero : b ≠ 0) : (div a b : Faulty ε Nat) = .ok (a / b) := if_neg nonzero

theorem fit_of_lt {n : Nat} (fits : n < 2 ^ w) : (fit w n : Faulty ε Nat) = .ok n := if_pos fits

theorem index_of_lt {i : Nat} (inside : i < xs.length) (default : α) :
    (index xs i : Faulty ε α) = .ok (xs.getD i default) := by
  unfold index
  rw [List.getD_eq_getElem?_getD, List.getElem?_eq_getElem inside]
  rfl

theorem slice_of_le {low high : Nat} (ordered : low ≤ high) (inside : high ≤ xs.length) :
    (slice xs low high : Faulty ε (List α)) = .ok ((xs.drop low).take (high - low)) :=
  if_pos ⟨ordered, inside⟩

/-- A slice to the end. -/
theorem slice_length {low : Nat} (inside : low ≤ xs.length) :
    (slice xs low xs.length : Faulty ε (List α)) = .ok (xs.drop low) := by
  rw [slice_of_le inside (Nat.le_refl _), List.take_of_length_le (by simp)]

end Operations

section Agreement

@[simp] theorem ok_bind {value : α} {rest : α → Faulty ε β} :
    ((.ok value : Faulty ε α) >>= rest) = rest value := rfl

@[simp] theorem panic_bind {rest : α → Faulty ε β} :
    ((.error .panic : Faulty ε α) >>= rest) = .error .panic := rfl

@[simp] theorem returned_ok (value : α) : (returned (.ok value) : Faulty ε α) = .ok value := rfl

theorem returned_ne_panic (result : Except ε α) : returned result ≠ .error .panic := by
  cases result <;> simp [returned, Except.mapError]

theorem returned_eq_ok {result : Except ε α} {value : α} :
    returned result = .ok value ↔ result = .ok value := by
  cases result <;> simp [returned, Except.mapError]

theorem returned_eq_failed {result : Except ε α} {error : ε} :
    returned result = .error (.failed error) ↔ result = .error error := by
  cases result <;> simp [returned, Except.mapError]

/-- The checked computation returns what the exact one does, and so never panics. -/
def Safe (guarded : Faulty ε α) (exact : Except ε α) : Prop :=
  guarded = returned exact ∧ guarded ≠ .error .panic

theorem Safe.of_agrees {guarded : Faulty ε α} {exact : Except ε α}
    (agrees : guarded = returned exact) : Safe guarded exact :=
  ⟨agrees, agrees ▸ returned_ne_panic exact⟩

theorem ensure_agrees {condition : Prop} [Decidable condition] {error : ε} :
    (LpMaker.ensure condition (.failed error) : Faulty ε Unit) =
      returned (LpMaker.ensure condition error) := by
  unfold LpMaker.ensure
  split_ifs <;> rfl

/-- A sequence agrees where its parts do, the second one where the first one succeeds. -/
theorem bind_agrees {first : Faulty ε α} {first' : Except ε α} {rest : α → Faulty ε β}
    {rest' : α → Except ε β} (here : first = returned first')
    (later : ∀ value, first' = .ok value → rest value = returned (rest' value)) :
    (first >>= rest) = returned (first' >>= rest') := by
  subst here
  cases same : first' with
  | ok value => exact later value same
  | error error => rfl

/-- A loop agrees where each of its steps does. -/
theorem forM_agrees {xs : List α} {check : α → Faulty ε Unit} {check' : α → Except ε Unit}
    (each : ∀ x ∈ xs, check x = returned (check' x)) :
    (forM xs check) = returned (forM xs check') := by
  induction xs with
  | nil => rfl
  | cons x xs inductionHypothesis =>
      rw [List.forM_cons, List.forM_cons]
      exact bind_agrees (each x List.mem_cons_self) fun _ _ =>
        inductionHypothesis fun y mem => each y (List.mem_cons_of_mem _ mem)

/-- A loop over a list agrees where an invariant keeps each of its steps from faults. -/
theorem foldlM_agrees {xs : List α} {step : β → α → Faulty ε β} {step' : β → α → β}
    (Inv : β → Prop)
    (each : ∀ b, Inv b → ∀ x ∈ xs, step b x = .ok (step' b x) ∧ Inv (step' b x)) {b : β}
    (start : Inv b) : xs.foldlM step b = .ok (xs.foldl step' b) := by
  induction xs generalizing b with
  | nil => rfl
  | cons x xs inductionHypothesis =>
      obtain ⟨here, next⟩ := each b start x List.mem_cons_self
      rw [List.foldlM_cons, here, ok_bind, List.foldl_cons]
      exact inductionHypothesis (fun b inv y mem => each b inv y (List.mem_cons_of_mem _ mem)) next

end Agreement

end Fault
