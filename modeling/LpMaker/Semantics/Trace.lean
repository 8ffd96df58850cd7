import Mathlib

/-!
# Traces of deterministic machines

A machine maps an input and a state to the next state and an output. `trace`
records every transition along a list of inputs, and `forall_mem_trace` derives a
property of every transition from an inductive invariant.
-/

namespace Semantics

variable {State Input Output : Type}

/-- One transition of a machine, as observed from outside. -/
structure Transition (State Input Output : Type) where
  before : State
  input : Input
  after : State
  output : Output

variable (step : Input → State → State × Output)

/-- The transition a machine takes on one input. -/
def transition (state : State) (input : Input) : Transition State Input Output :=
  ⟨state, input, (step input state).1, (step input state).2⟩

/-- The state reached after a list of inputs. -/
def run (state : State) (inputs : List Input) : State :=
  inputs.foldl (fun state input => (step input state).1) state

/-- Every transition along a list of inputs, in order. -/
def trace (state : State) : List Input → List (Transition State Input Output)
  | [] => []
  | input :: inputs => transition step state input :: trace (step input state).1 inputs

@[simp] theorem run_nil (state : State) : run step state [] = state := rfl

@[simp] theorem run_cons (state : State) (input : Input) (inputs : List Input) :
    run step state (input :: inputs) = run step (step input state).1 inputs := rfl

/-- A trace continues from the state its first part reaches. -/
theorem trace_append (state : State) (first rest : List Input) :
    trace step state (first ++ rest) =
      trace step state first ++ trace step (run step state first) rest := by
  induction first generalizing state with
  | nil => rfl
  | cons input inputs inductionHypothesis =>
      simp only [List.cons_append, trace, inductionHypothesis, run_cons]

/-- A split of a trace is a split of its inputs. -/
theorem trace_eq_append {state : State} {inputs : List Input}
    {first rest : List (Transition State Input Output)}
    (split : trace step state inputs = first ++ rest) :
    ∃ earlier later, inputs = earlier ++ later ∧ first = trace step state earlier ∧
      rest = trace step (run step state earlier) later := by
  induction first generalizing state inputs with
  | nil => exact ⟨[], inputs, rfl, rfl, split.symm⟩
  | cons taken first inductionHypothesis =>
      cases inputs with
      | nil => cases split
      | cons input inputs =>
          simp only [trace, List.cons_append, List.cons.injEq] at split
          obtain ⟨rfl, split⟩ := split
          obtain ⟨earlier, later, rfl, rfl, rfl⟩ := inductionHypothesis split
          exact ⟨input :: earlier, later, rfl, rfl, rfl⟩

/-- The first transition of a trace is the transition on its first input. -/
theorem trace_eq_cons {state : State} {inputs : List Input}
    {taken : Transition State Input Output} {rest : List (Transition State Input Output)}
    (split : trace step state inputs = taken :: rest) :
    ∃ input later, inputs = input :: later ∧ taken = transition step state input ∧
      rest = trace step (step input state).1 later := by
  cases inputs with
  | nil => cases split
  | cons input inputs =>
      simp only [trace, List.cons.injEq] at split
      exact ⟨input, inputs, rfl, split.1.symm, split.2.symm⟩

/-- Every recorded transition is a transition of the machine. -/
theorem eq_transition_of_mem_trace {state : State} {inputs : List Input}
    {taken : Transition State Input Output} (mem : taken ∈ trace step state inputs) :
    taken = transition step taken.before taken.input ∧ taken.input ∈ inputs := by
  induction inputs generalizing state with
  | nil => cases mem
  | cons input inputs inductionHypothesis =>
      rcases List.mem_cons.mp mem with rfl | later
      · exact ⟨rfl, List.mem_cons_self⟩
      · obtain ⟨eq, member⟩ := inductionHypothesis later
        exact ⟨eq, List.mem_cons_of_mem _ member⟩

/-- What every allowed input preserves holds after a run. -/
theorem run_invariant (Inv : State → Prop) {Allowed : Input → Prop}
    (preserved : ∀ state input, Allowed input → Inv state → Inv (step input state).1)
    {state : State} {inputs : List Input} (start : Inv state)
    (allowed : ∀ input ∈ inputs, Allowed input) : Inv (run step state inputs) := by
  induction inputs generalizing state with
  | nil => exact start
  | cons input inputs inductionHypothesis =>
      obtain ⟨here, later⟩ := List.forall_mem_cons.mp allowed
      exact inductionHypothesis (preserved state input here start) later

/-- Every transition has the postcondition which an inductive invariant guarantees for
allowed transitions. -/
theorem forall_mem_trace (Inv : State → Prop)
    (Allowed : Transition State Input Output → Prop)
    {Post : Transition State Input Output → Prop} {state : State} {inputs : List Input}
    (start : Inv state) (allowed : ∀ taken ∈ trace step state inputs, Allowed taken)
    (preserved : ∀ state input, Inv state → Allowed (transition step state input) →
      Post (transition step state input) ∧ Inv (step input state).1) :
    ∀ taken ∈ trace step state inputs, Post taken := by
  induction inputs generalizing state with
  | nil => intro taken mem; cases mem
  | cons input inputs inductionHypothesis =>
      obtain ⟨here, later⟩ := List.forall_mem_cons.mp allowed
      obtain ⟨post, next⟩ := preserved state input start here
      exact List.forall_mem_cons.mpr ⟨post, inductionHypothesis next later⟩

/-- A property of the transitions so far, listed from the newest, and of the state holds after
a run when every transition keeps it. -/
theorem invariant_of_history (Inv : List (Transition State Input Output) → State → Prop)
    (preserved : ∀ past state input, Inv past state →
      Inv (transition step state input :: past) (step input state).1)
    {past : List (Transition State Input Output)} {state : State} (start : Inv past state)
    (inputs : List Input) :
    Inv ((trace step state inputs).reverse ++ past) (run step state inputs) := by
  induction inputs generalizing past state with
  | nil => exact start
  | cons input inputs inductionHypothesis =>
      rw [trace, List.reverse_cons, List.append_assoc, run_cons]
      exact inductionHypothesis (preserved past state input start)

end Semantics
