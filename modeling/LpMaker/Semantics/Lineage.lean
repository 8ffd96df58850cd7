import Mathlib
import LpMaker.Semantics.Trace

/-!
# Lineages of a checkpointed process

A process works on one state in memory and keeps one saved copy of it. Saving
replaces the copy and loading returns to it. The lineage of a state records the
transitions from which exactly this state resulted, so work lost by a load is not
part of the lineage of what follows, while the past of the saved copy is.
-/

namespace Semantics

variable {State Input Output : Type}

/-- A state together with the transitions that led to it. -/
inductive Lineage (State Input Output : Type) where
  | start (state : State)
  | extend (earlier : Lineage State Input Output) (input : Input) (after : State)
      (output : Output)

namespace Lineage

/-- The state a lineage has reached. -/
def state : Lineage State Input Output → State
  | start state => state
  | extend _ _ after _ => after

/-- The transitions of a lineage, the latest first. -/
def path : Lineage State Input Output → List (Transition State Input Output)
  | start _ => []
  | extend earlier input after output => ⟨earlier.state, input, after, output⟩ :: earlier.path

/-- The states of a lineage, the latest first. -/
def states : Lineage State Input Output → List State
  | start state => [state]
  | extend earlier _ after _ => after :: earlier.states

@[simp] theorem state_start (state : State) :
    (start state : Lineage State Input Output).state = state := rfl

@[simp] theorem state_extend (earlier : Lineage State Input Output) (input : Input)
    (after : State) (output : Output) : (earlier.extend input after output).state = after := rfl

@[simp] theorem path_start (state : State) :
    (start state : Lineage State Input Output).path = [] := rfl

@[simp] theorem path_extend (earlier : Lineage State Input Output) (input : Input)
    (after : State) (output : Output) :
    (earlier.extend input after output).path =
      ⟨earlier.state, input, after, output⟩ :: earlier.path := rfl

theorem state_mem_states (lineage : Lineage State Input Output) :
    lineage.state ∈ lineage.states := by
  cases lineage with
  | start => exact List.mem_singleton.mpr rfl
  | extend => exact List.mem_cons_self

theorem before_mem_states {lineage : Lineage State Input Output}
    {taken : Transition State Input Output} (mem : taken ∈ lineage.path) :
    taken.before ∈ lineage.states := by
  induction lineage with
  | start => cases mem
  | extend earlier input after output inductionHypothesis =>
      rcases List.mem_cons.mp mem with rfl | older
      · exact List.mem_cons_of_mem _ earlier.state_mem_states
      · exact List.mem_cons_of_mem _ (inductionHypothesis older)

variable (step : Lineage State Input Output → Input → State → Output → Prop)

/-- Every transition of the lineage is a step taken from the lineage before it. -/
def Valid : Lineage State Input Output → Prop
  | start _ => True
  | extend earlier input after output => earlier.Valid ∧ step earlier input after output

variable {step} {lineage : Lineage State Input Output}

/-- A property which every step establishes for its own transition holds along a lineage. -/
theorem Valid.forall_mem_path (valid : lineage.Valid step)
    {Post : Transition State Input Output → Prop}
    (post : ∀ earlier input after output, earlier.Valid step →
      step earlier input after output → Post ⟨earlier.state, input, after, output⟩) :
    ∀ taken ∈ lineage.path, Post taken := by
  induction lineage with
  | start => intro taken mem; cases mem
  | extend earlier input after output inductionHypothesis =>
      exact List.forall_mem_cons.mpr
        ⟨post _ _ _ _ valid.1 valid.2, inductionHypothesis valid.1⟩

/-- A transitive relation kept by every step relates every state to every later one. -/
theorem Valid.pairwise_states (valid : lineage.Valid step) {Kept : State → State → Prop}
    (trans : ∀ {a b c}, Kept a b → Kept b c → Kept a c)
    (kept : ∀ earlier input after output, earlier.Valid step →
      step earlier input after output → Kept earlier.state after) :
    lineage.states.Pairwise fun later earlier => Kept earlier later := by
  have reaches : ∀ lineage : Lineage State Input Output, lineage.Valid step →
      (∀ earlier ∈ lineage.states, earlier = lineage.state ∨ Kept earlier lineage.state) ∧
        lineage.states.Pairwise fun later earlier => Kept earlier later := by
    intro lineage valid
    induction lineage with
    | start state =>
        exact ⟨fun _ mem => .inl (List.mem_singleton.mp mem), List.pairwise_singleton _ _⟩
    | extend earlier input after output inductionHypothesis =>
        obtain ⟨below, pairwise⟩ := inductionHypothesis valid.1
        have last := kept _ _ _ _ valid.1 valid.2
        have all : ∀ state ∈ earlier.states, Kept state after := by
          intro state mem
          rcases below state mem with rfl | older
          · exact last
          · exact trans older last
        exact ⟨List.forall_mem_cons.mpr ⟨.inl rfl, fun state mem => .inr (all state mem)⟩,
          List.pairwise_cons.mpr ⟨all, pairwise⟩⟩
  exact (reaches lineage valid).2

/-- The later lineage continues the earlier one. -/
inductive Continues (earlier : Lineage State Input Output) : Lineage State Input Output → Prop
  | refl : Continues earlier earlier
  | extend {later : Lineage State Input Output} (continues : Continues earlier later)
      (input : Input) (after : State) (output : Output) :
      Continues earlier (later.extend input after output)

theorem Continues.trans {first second third : Lineage State Input Output}
    (left : Continues first second) (right : Continues second third) :
    Continues first third := by
  induction right with
  | refl => exact left
  | extend _ input after output inductionHypothesis =>
      exact inductionHypothesis.extend input after output

/-- Every state of a lineage is a state of whatever continues it. -/
theorem Continues.states_sublist {earlier later : Lineage State Input Output}
    (continues : Continues earlier later) : earlier.states.Sublist later.states := by
  induction continues with
  | refl => exact List.Sublist.refl _
  | extend _ _ after _ inductionHypothesis => exact inductionHypothesis.cons after

/-- A property of states kept by every step holds of whatever continues a lineage. -/
theorem Continues.keeps {earlier later : Lineage State Input Output}
    (continues : Continues earlier later) (Holds : State → Prop) (valid : later.Valid step)
    (kept : ∀ earlier input after output, earlier.Valid step →
      step earlier input after output → Holds earlier.state → Holds after)
    (holds : Holds earlier.state) : Holds later.state := by
  induction continues with
  | refl => exact holds
  | extend _ _ _ _ inductionHypothesis =>
      exact kept _ _ _ _ valid.1 valid.2 (inductionHypothesis valid.1)

end Lineage

/-- A process: the lineage in memory and the lineage of the saved copy. -/
structure Process (State Input Output : Type) where
  current : Lineage State Input Output
  saved : Option (Lineage State Input Output)

namespace Process

/-- A process which has not saved anything yet. -/
def fresh (state : State) : Process State Input Output := ⟨.start state, none⟩

variable (step : Lineage State Input Output → Input → State → Output → Prop)

/-- Work on the state in memory, save it, or return to the saved copy. -/
inductive Step : Process State Input Output → Process State Input Output → Prop
  | act {process : Process State Input Output} {input : Input} {after : State}
      {output : Output} (taken : step process.current input after output) :
      Step process { process with current := process.current.extend input after output }
  | save {process : Process State Input Output} :
      Step process { process with saved := some process.current }
  | load {process : Process State Input Output} {copy : Lineage State Input Output}
      (held : process.saved = some copy) : Step process { process with current := copy }

/-- What a driver asks a process to do. -/
inductive Command (Input : Type) where
  | act (input : Input)
  | save
  | load

variable {ε : Type} (apply : Lineage State Input Output → Input → Except ε (State × Output))

/-- One command, unless its operation refuses or there is no copy to load. -/
def perform (process : Process State Input Output) :
    Command Input → Option (Process State Input Output)
  | .act input =>
      match apply process.current input with
      | .ok (after, output) =>
          some { process with current := process.current.extend input after output }
      | .error _ => none
  | .save => some { process with saved := some process.current }
  | .load => process.saved.map fun copy => { process with current := copy }

/-- Commands in order. -/
def exec (process : Process State Input Output) :
    List (Command Input) → Option (Process State Input Output)
  | [] => some process
  | command :: commands => (process.perform apply command).bind fun next => next.exec commands

/-- Zero or more steps. -/
abbrev Steps : Process State Input Output → Process State Input Output → Prop :=
  Relation.ReflTransGen (Step step)

variable {step} {process next : Process State Input Output}

/-- Steps of a narrower relation are steps of a wider one. -/
theorem Steps.mono_step {wider : Lineage State Input Output → Input → State → Output → Prop}
    (widens : ∀ lineage input after output, step lineage input after output →
      wider lineage input after output) (steps : Steps step process next) :
    Steps wider process next := by
  refine Relation.ReflTransGen.mono (fun before after taken => ?_) _ _ steps
  cases taken with
  | act taken => exact .act (widens _ _ _ _ taken)
  | save => exact .save
  | load held => exact .load held

section Exec

variable {ε : Type} {apply : Lineage State Input Output → Input → Except ε (State × Output)}

theorem step_of_perform {command : Command Input} {Allowed : Input → Prop}
    (allowed : ∀ input, command = .act input → Allowed input)
    (performed : process.perform apply command = some next) :
    Step (fun lineage input after output =>
        apply lineage input = .ok (after, output) ∧ Allowed input) process next := by
  cases command with
  | act input =>
      cases applied : apply process.current input with
      | error e => simp [perform, applied] at performed
      | ok result =>
          simp only [perform, applied, Option.some.injEq] at performed
          subst performed
          exact .act ⟨applied, allowed input rfl⟩
  | save =>
      cases performed
      exact .save
  | load =>
      obtain ⟨copy, held, rfl⟩ := Option.map_eq_some_iff.mp performed
      exact .load held

/-- What a driver executes is a sequence of steps with the inputs it was given. -/
theorem steps_of_exec_allowed {commands : List (Command Input)} {Allowed : Input → Prop}
    (allowed : ∀ input, .act input ∈ commands → Allowed input)
    (executed : process.exec apply commands = some next) :
    Steps (fun lineage input after output =>
        apply lineage input = .ok (after, output) ∧ Allowed input) process next := by
  induction commands generalizing process with
  | nil =>
      cases executed
      exact .refl
  | cons command commands inductionHypothesis =>
      obtain ⟨middle, performed, rest⟩ := Option.bind_eq_some_iff.mp executed
      have first := step_of_perform
        (fun input eq => allowed input (eq ▸ List.mem_cons_self)) performed
      exact .head first
        (inductionHypothesis (fun input mem => allowed input (List.mem_cons_of_mem _ mem)) rest)

/-- What a driver executes is a sequence of steps. -/
theorem steps_of_exec {commands : List (Command Input)}
    (executed : process.exec apply commands = some next) :
    Steps (fun lineage input after output => apply lineage input = .ok (after, output))
      process next :=
  (steps_of_exec_allowed (fun (_ : Input) _ => trivial) executed).mono_step
    fun _ _ _ _ taken => taken.1

end Exec

/-- The lineage in memory is valid and continues the saved copy. -/
structure Sound (step : Lineage State Input Output → Input → State → Output → Prop)
    (process : Process State Input Output) : Prop where
  valid : process.current.Valid step
  saved : ∀ copy ∈ process.saved, copy.Valid step ∧ copy.Continues process.current

theorem sound_fresh (state : State) : (fresh state : Process State Input Output).Sound step :=
  ⟨trivial, nofun⟩

theorem Sound.of_step (sound : process.Sound step) (taken : Step step process next) :
    next.Sound step := by
  cases taken with
  | act taken =>
      refine ⟨⟨sound.valid, taken⟩, fun copy held => ?_⟩
      obtain ⟨valid, continues⟩ := sound.saved copy held
      exact ⟨valid, continues.extend _ _ _⟩
  | save =>
      refine ⟨sound.valid, fun copy held => ?_⟩
      obtain rfl := Option.mem_some.mp held
      exact ⟨sound.valid, .refl⟩
  | load held =>
      refine ⟨(sound.saved _ held).1, fun copy held' => ?_⟩
      obtain rfl : _ = copy := Option.some.inj (held.symm.trans held')
      exact ⟨(sound.saved _ held).1, .refl⟩

theorem Sound.of_steps (sound : process.Sound step) (taken : Steps step process next) :
    next.Sound step := by
  induction taken with
  | refl => exact sound
  | tail _ last inductionHypothesis => exact inductionHypothesis.of_step last

/-- What a fresh process reaches is sound. -/
theorem sound_of_steps {start : State} (reached : Steps step (fresh start) process) :
    process.Sound step :=
  (sound_fresh start).of_steps reached

/-- Once a state has been saved, every later saved copy and every later state in memory
continues it. -/
theorem Sound.continues_saved (sound : process.Sound step) (taken : Steps step process next)
    {copy : Lineage State Input Output} (held : process.saved = some copy) :
    (∃ later ∈ next.saved, copy.Continues later) ∧ copy.Continues next.current := by
  induction taken with
  | refl => exact ⟨⟨copy, held, .refl⟩, (sound.saved copy held).2⟩
  | tail _ last inductionHypothesis =>
      obtain ⟨⟨later, stored, continues⟩, reached⟩ := inductionHypothesis
      cases last with
      | act _ => exact ⟨⟨later, stored, continues⟩, reached.extend _ _ _⟩
      | save => exact ⟨⟨_, rfl, reached⟩, reached⟩
      | load stored' =>
          obtain rfl : later = _ := Option.some.inj (stored.symm.trans stored')
          exact ⟨⟨later, stored, continues⟩, continues⟩

end Process

end Semantics
