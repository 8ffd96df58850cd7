import Mathlib

/-!
# Fallible computations

The guard `ensure` and the inversion lemmas which turn a successful sequence of
guards into the conjunction of the guarded conditions.
-/

namespace LpMaker

variable {ε α β : Type}

/-- Succeed when the condition holds and fail with `error` otherwise. -/
def ensure (condition : Prop) [Decidable condition] (error : ε) : Except ε Unit :=
  if condition then .ok () else .error error

/-- A present value, or the error. -/
def context (value : Option α) (error : ε) : Except ε α :=
  match value with
  | some value => .ok value
  | none => .error error

@[simp] theorem ensure_eq_ok {condition : Prop} [Decidable condition] {error : ε} {u : Unit} :
    ensure condition error = .ok u ↔ condition := by
  simp [ensure]

@[simp] theorem ensure_eq_error {condition : Prop} [Decidable condition] {error failure : ε} :
    ensure condition error = .error failure ↔ ¬condition ∧ failure = error := by
  unfold ensure
  split_ifs with holds <;> simp [holds, eq_comm]

@[simp] theorem context_eq_ok {value : Option α} {error : ε} {result : α} :
    context value error = .ok result ↔ value = some result := by
  cases value <;> simp [context]

@[simp] theorem context_eq_error {value : Option α} {error failure : ε} :
    context value error = .error failure ↔ value = none ∧ failure = error := by
  cases value <;> simp [context, eq_comm]

/-- A sequence succeeds exactly when both parts do. -/
@[simp] theorem bind_eq_ok {first : Except ε α} {rest : α → Except ε β} {result : β} :
    first >>= rest = .ok result ↔ ∃ value, first = .ok value ∧ rest value = .ok result := by
  cases first <;> simp [bind, Except.bind]

/-- After a check, which returns nothing, the rest succeeds on its own. -/
@[simp high] theorem check_bind_eq_ok {check : Except ε Unit} {rest : Unit → Except ε β}
    {result : β} :
    check >>= rest = .ok result ↔ check = .ok () ∧ rest () = .ok result := by
  rw [bind_eq_ok]
  exact ⟨fun ⟨_, passed, next⟩ => ⟨passed, next⟩, fun ⟨passed, next⟩ => ⟨(), passed, next⟩⟩

/-- A sequence fails in its first part, or after it. -/
@[simp] theorem bind_eq_error {first : Except ε α} {rest : α → Except ε β} {failure : ε} :
    first >>= rest = .error failure ↔
      first = .error failure ∨ ∃ value, first = .ok value ∧ rest value = .error failure := by
  cases first <;> simp [bind, Except.bind]

@[simp] theorem pure_eq_ok {value result : α} :
    (pure value : Except ε α) = .ok result ↔ value = result := by
  simp [pure, Except.pure]

@[simp] theorem mapError_eq_ok {ε' : Type} {f : ε → ε'} {value : Except ε α} {result : α} :
    value.mapError f = .ok result ↔ value = .ok result := by
  cases value <;> simp [Except.mapError]

/-- A checked loop succeeds exactly when every element passes. -/
@[simp] theorem forM_eq_ok {items : List α} {check : α → Except ε Unit} {u : Unit} :
    forM items check = .ok u ↔ ∀ item ∈ items, check item = .ok () := by
  induction items with
  | nil => simp
  | cons item items inductionHypothesis =>
      simp only [List.forM_cons, check_bind_eq_ok, inductionHypothesis, List.forall_mem_cons]

/-- Every result of a mapping is the result of an element. -/
theorem mem_of_mapM_eq_ok {items : List α} {f : α → Except ε β} {results : List β} {result : β}
    (all : items.mapM f = .ok results) (mem : result ∈ results) :
    ∃ item ∈ items, f item = .ok result := by
  induction items generalizing results with
  | nil =>
      cases all
      cases mem
  | cons item items inductionHypothesis =>
      simp only [List.mapM_cons, bind_eq_ok, pure_eq_ok] at all
      obtain ⟨first, here, rest, later, rfl⟩ := all
      rcases List.mem_cons.mp mem with rfl | mem
      · exact ⟨item, List.mem_cons_self, here⟩
      · obtain ⟨other, stored, same⟩ := inductionHypothesis later mem
        exact ⟨other, List.mem_cons_of_mem _ stored, same⟩

end LpMaker
