import Mathlib

/-!
# Programs which may stop at any point

A program performs operations on a world which outlives it. Each operation takes effect as a
whole, may fail, and receives one input of the environment. When the inputs end, the program
stops there, so a list of inputs is a run together with the point of its crash. The
precondition `wp` asks for an invariant of the world before and after every operation and for
a postcondition where the program finishes; sessions start programs again and again on what
the earlier ones left.
-/

namespace Semantics

/-- A program over the operations `Op`, each of which replies or fails. -/
inductive Program (Op : Type) (Reply : Op → Type) (ε α : Type) where
  | pure (value : α)
  | throw (error : ε)
  | perform (op : Op) (next : Except ε (Reply op) → Program Op Reply ε α)

namespace Program

variable {Op : Type} {Reply : Op → Type} {ε α β : Type}

/-- Continue with the result of a program, unless it fails. -/
def bind : Program Op Reply ε α → (α → Program Op Reply ε β) → Program Op Reply ε β
  | pure value, rest => rest value
  | throw error, _ => throw error
  | perform op next, rest => perform op fun reply => (next reply).bind rest

instance : Monad (Program Op Reply ε) where
  pure := pure
  bind := bind

/-- Perform one operation and fail where it fails. -/
def call (op : Op) : Program Op Reply ε (Reply op) :=
  perform op fun
    | .ok reply => pure reply
    | .error error => throw error

/-- Perform one operation and keep its failure as a value. -/
def tryCall (op : Op) : Program Op Reply ε (Except ε (Reply op)) := perform op pure

/-- A computation without operations. -/
def ofExcept : Except ε α → Program Op Reply ε α
  | .ok value => pure value
  | .error error => throw error

instance : MonadLift (Except ε) (Program Op Reply ε) where
  monadLift := ofExcept

/-- The result of a program as a value, so that a failure does not end its caller. -/
def attempt : Program Op Reply ε α → Program Op Reply ε (Except ε α)
  | pure value => pure (.ok value)
  | throw error => pure (.error error)
  | perform op next => perform op fun reply => (next reply).attempt

/-- A program of one component as a program of a larger system. -/
def embed {Op' : Type} {Reply' : Op' → Type} (inject : Op → Op')
    (reply : (op : Op) → Reply' (inject op) → Reply op) :
    Program Op Reply ε α → Program Op' Reply' ε α
  | pure value => pure value
  | throw error => throw error
  | perform op next =>
      perform (inject op) fun result => (next (result.map (reply op))).embed inject reply

/-- Every operation which a program may perform is allowed. -/
def uses (Allowed : Op → Prop) : Program Op Reply ε α → Prop
  | pure _ | throw _ => True
  | perform op next => Allowed op ∧ ∀ reply, (next reply).uses Allowed

section Uses

variable {Allowed : Op → Prop}

@[simp] theorem uses_pure (value : α) :
    (Pure.pure value : Program Op Reply ε α).uses Allowed := trivial

@[simp] theorem uses_ofExcept (result : Except ε α) :
    (ofExcept result : Program Op Reply ε α).uses Allowed := by
  cases result <;> trivial

@[simp] theorem uses_call {op : Op} :
    (call op : Program Op Reply ε (Reply op)).uses Allowed ↔ Allowed op := by
  constructor
  · intro allowed
    exact allowed.1
  · intro allowed
    refine ⟨allowed, fun reply => ?_⟩
    cases reply <;> trivial

theorem uses_always (program : Program Op Reply ε α) : program.uses fun _ => True := by
  induction program with
  | pure _ | throw _ => trivial
  | perform op next inductionHypothesis => exact ⟨trivial, inductionHypothesis⟩

theorem uses_mono {Allowed' : Op → Prop} {program : Program Op Reply ε α}
    (uses : program.uses Allowed) (weaker : ∀ op, Allowed op → Allowed' op) :
    program.uses Allowed' := by
  induction program with
  | pure _ | throw _ => trivial
  | perform op next inductionHypothesis =>
      exact ⟨weaker op uses.1, fun reply => inductionHypothesis reply (uses.2 reply)⟩

theorem uses_bind {first : Program Op Reply ε α} {rest : α → Program Op Reply ε β}
    (here : first.uses Allowed) (later : ∀ value, (rest value).uses Allowed) :
    (first >>= rest).uses Allowed := by
  change (first.bind rest).uses Allowed
  induction first with
  | pure value => exact later value
  | throw error => trivial
  | perform op next inductionHypothesis =>
      exact ⟨here.1, fun reply => inductionHypothesis reply (here.2 reply)⟩

end Uses

@[simp] theorem bind_pure (value : α) (rest : α → Program Op Reply ε β) :
    (pure value >>= rest) = rest value := rfl

theorem bind_pure_right (program : Program Op Reply ε α) : program >>= Pure.pure = program := by
  change program.bind Program.pure = program
  induction program with
  | pure _ | throw _ => rfl
  | perform op next inductionHypothesis => exact congrArg (perform op) (funext inductionHypothesis)

end Program

/-- How a program ends. -/
inductive Outcome (ε α : Type) where
  | crashed
  | finished (result : Except ε α)
deriving DecidableEq

/-- The value of a run which returned one. -/
def Outcome.returned? {ε α : Type} : Outcome ε α → Option α
  | .finished (.ok value) => some value
  | _ => none

/-- The effect of every operation, given an input of the environment. -/
structure Machine (Op : Type) (Reply : Op → Type) (ε World Input : Type) where
  step : (op : Op) → Input → World → Except ε (Reply op) × World

namespace Machine

variable {Op : Type} {Reply : Op → Type} {ε α β World Input : Type}
  (machine : Machine Op Reply ε World Input)

/-- Run a program until it finishes or the inputs end. -/
def run : Program Op Reply ε α → List Input → World → Outcome ε α × World
  | .pure value, _, w => (.finished (.ok value), w)
  | .throw error, _, w => (.finished (.error error), w)
  | .perform _ _, [], w => (.crashed, w)
  | .perform op next, input :: inputs, w =>
      run (next (machine.step op input w).1) inputs (machine.step op input w).2

/-- From this world every run keeps the invariant at each moment, and finishes only where the
postcondition holds. -/
def wp (Inv : World → Prop) :
    Program Op Reply ε α → (Except ε α → World → Prop) → World → Prop
  | .pure value, Q, w => Inv w ∧ Q (.ok value) w
  | .throw error, Q, w => Inv w ∧ Q (.error error) w
  | .perform op next, Q, w => Inv w ∧ ∀ input,
      wp Inv (next (machine.step op input w).1) Q (machine.step op input w).2

section Rules

variable {machine} {Inv : World → Prop} {Q Q' : Except ε α → World → Prop} {w : World}

theorem wp_inv {program : Program Op Reply ε α} (holds : machine.wp Inv program Q w) :
    Inv w := by
  cases program with
  | pure _ | throw _ | perform _ _ => exact holds.1

/-- What `wp` promises holds of every run, wherever it stops. -/
theorem wp_sound {program : Program Op Reply ε α} (holds : machine.wp Inv program Q w)
    (inputs : List Input) :
    Inv (machine.run program inputs w).2 ∧
      ∀ result, (machine.run program inputs w).1 = .finished result →
        Q result (machine.run program inputs w).2 := by
  induction program generalizing inputs w with
  | pure value =>
      refine ⟨holds.1, fun result finished => ?_⟩
      cases finished
      exact holds.2
  | throw error =>
      refine ⟨holds.1, fun result finished => ?_⟩
      cases finished
      exact holds.2
  | perform op next inductionHypothesis =>
      cases inputs with
      | nil => exact ⟨holds.1, nofun⟩
      | cons input inputs => exact inductionHypothesis _ (holds.2 input) inputs

theorem wp_mono {program : Program Op Reply ε α} (holds : machine.wp Inv program Q w)
    (weaker : ∀ result w, Inv w → Q result w → Q' result w) : machine.wp Inv program Q' w := by
  induction program generalizing w with
  | pure value => exact ⟨holds.1, weaker _ _ holds.1 holds.2⟩
  | throw error => exact ⟨holds.1, weaker _ _ holds.1 holds.2⟩
  | perform op next inductionHypothesis =>
      exact ⟨holds.1, fun input => inductionHypothesis _ (holds.2 input)⟩

/-- A stronger invariant may be used for a program. -/
theorem wp_mono_inv {Inv' : World → Prop} {program : Program Op Reply ε α}
    (holds : machine.wp Inv program Q w) (weaker : ∀ w, Inv w → Inv' w) :
    machine.wp Inv' program Q w := by
  induction program generalizing w with
  | pure value => exact ⟨weaker _ holds.1, holds.2⟩
  | throw error => exact ⟨weaker _ holds.1, holds.2⟩
  | perform op next inductionHypothesis =>
      exact ⟨weaker _ holds.1, fun input => inductionHypothesis _ (holds.2 input)⟩

@[simp] theorem wp_pure {value : α} :
    machine.wp Inv (pure value) Q w ↔ Inv w ∧ Q (.ok value) w := Iff.rfl

@[simp] theorem wp_throw {error : ε} :
    machine.wp Inv (.throw error) Q w ↔ Inv w ∧ Q (.error error) w := Iff.rfl

@[simp] theorem wp_call {op : Op} {Q : Except ε (Reply op) → World → Prop} :
    machine.wp Inv (.call op) Q w ↔
      Inv w ∧ ∀ input, Inv (machine.step op input w).2 ∧
        Q (machine.step op input w).1 (machine.step op input w).2 := by
  unfold Program.call wp
  refine and_congr_right fun _ => forall_congr' fun input => ?_
  cases (machine.step op input w).1 <;> rfl

@[simp] theorem wp_tryCall {op : Op} {Q : Except ε (Except ε (Reply op)) → World → Prop} :
    machine.wp Inv (.tryCall op) Q w ↔
      Inv w ∧ ∀ input, Inv (machine.step op input w).2 ∧
        Q (.ok (machine.step op input w).1) (machine.step op input w).2 := Iff.rfl

@[simp] theorem wp_ofExcept {result : Except ε α} :
    machine.wp Inv (.ofExcept result) Q w ↔ Inv w ∧ Q result w := by
  cases result <;> rfl

/-- A sequence runs its second part on what the first one returns. -/
theorem wp_bind {first : Program Op Reply ε α} {rest : α → Program Op Reply ε β}
    {Q : Except ε β → World → Prop} :
    machine.wp Inv (first >>= rest) Q w ↔
      machine.wp Inv first (fun result w => match result with
        | .ok value => machine.wp Inv (rest value) Q w
        | .error error => Q (.error error) w) w := by
  change machine.wp Inv (first.bind rest) Q w ↔ _
  induction first generalizing w with
  | pure value => exact ⟨fun holds => ⟨wp_inv holds, holds⟩, fun holds => holds.2⟩
  | throw error => exact Iff.rfl
  | perform op next inductionHypothesis =>
      exact and_congr_right fun _ => forall_congr' fun input => inductionHypothesis _

/-- A caller that keeps a failure continues with it. -/
theorem wp_attempt {program : Program Op Reply ε α}
    {Q : Except ε (Except ε α) → World → Prop} :
    machine.wp Inv program.attempt Q w ↔
      machine.wp Inv program (fun result => Q (.ok result)) w := by
  induction program generalizing w with
  | pure value => exact Iff.rfl
  | throw error => exact Iff.rfl
  | perform op next inductionHypothesis =>
      exact and_congr_right fun _ => forall_congr' fun input => inductionHypothesis _

end Rules

/-- From this world every run keeps the invariant at each moment, and a result which is not a
failure has the postcondition. -/
def spec (Inv : World → Prop) (program : Program Op Reply ε α) (P : α → World → Prop)
    (w : World) : Prop :=
  machine.wp Inv program (fun result w => ∀ value, result = .ok value → P value w) w

section Spec

variable {machine} {Inv : World → Prop} {P P' : α → World → Prop} {w : World}

theorem spec_inv {program : Program Op Reply ε α} (holds : machine.spec Inv program P w) :
    Inv w :=
  wp_inv holds

theorem spec_pure {value : α} (inv : Inv w) (holds : P value w) :
    machine.spec Inv (pure value) P w := by
  refine ⟨inv, fun result same => ?_⟩
  cases same
  exact holds

theorem spec_throw {error : ε} (inv : Inv w) : machine.spec Inv (.throw error) P w :=
  ⟨inv, nofun⟩

theorem spec_ofExcept {result : Except ε α} (inv : Inv w)
    (holds : ∀ value, result = .ok value → P value w) :
    machine.spec Inv (.ofExcept result) P w :=
  wp_ofExcept.mpr ⟨inv, holds⟩

theorem spec_call {op : Op} {P : Reply op → World → Prop} (inv : Inv w)
    (holds : ∀ input, Inv (machine.step op input w).2 ∧
      ∀ value, (machine.step op input w).1 = .ok value → P value (machine.step op input w).2) :
    machine.spec Inv (.call op) P w :=
  wp_call.mpr ⟨inv, holds⟩

theorem spec_bind {first : Program Op Reply ε α} {rest : α → Program Op Reply ε β}
    {P : β → World → Prop}
    (holds : machine.spec Inv first (fun value w => machine.spec Inv (rest value) P w) w) :
    machine.spec Inv (first >>= rest) P w := by
  refine wp_bind.mpr (wp_mono holds fun result w _ post => ?_)
  cases result with
  | ok value => exact post value rfl
  | error _ => exact nofun

theorem spec_tryCall {op : Op} {P : Except ε (Reply op) → World → Prop} (inv : Inv w)
    (holds : ∀ input, Inv (machine.step op input w).2 ∧
      P (machine.step op input w).1 (machine.step op input w).2) :
    machine.spec Inv (.tryCall op) P w := by
  refine wp_tryCall.mpr ⟨inv, fun input => ⟨(holds input).1, fun result same => ?_⟩⟩
  cases same
  exact (holds input).2

theorem spec_attempt {program : Program Op Reply ε α} (holds : machine.spec Inv program P w) :
    machine.spec Inv program.attempt
      (fun result w => ∀ value, result = .ok value → P value w) w := by
  refine wp_attempt.mpr (wp_mono holds fun result w _ post value same => ?_)
  cases same
  exact post

theorem spec_mono {program : Program Op Reply ε α} (holds : machine.spec Inv program P w)
    (weaker : ∀ value w, Inv w → P value w → P' value w) : machine.spec Inv program P' w :=
  wp_mono holds fun _ w inv post value same => weaker value w inv (post value same)

/-- Two promises about the same program hold together. -/
theorem spec_and {Inv' : World → Prop} {program : Program Op Reply ε α}
    (left : machine.spec Inv program P w) (right : machine.spec Inv' program P' w) :
    machine.spec (fun w => Inv w ∧ Inv' w) program (fun value w => P value w ∧ P' value w) w := by
  unfold spec at left right ⊢
  induction program generalizing w with
  | pure value | throw error =>
      exact ⟨⟨left.1, right.1⟩, fun value same => ⟨left.2 value same, right.2 value same⟩⟩
  | perform op next inductionHypothesis =>
      exact ⟨⟨left.1, right.1⟩, fun input =>
        inductionHypothesis _ (left.2 input) (right.2 input)⟩

/-- Nothing is promised of every program. -/
theorem spec_always (program : Program Op Reply ε α) (w : World) :
    machine.spec (fun _ => True) program (fun _ _ => True) w := by
  unfold spec
  induction program generalizing w with
  | pure value => exact ⟨trivial, fun _ _ => trivial⟩
  | throw error => exact ⟨trivial, fun _ _ => trivial⟩
  | perform op next inductionHypothesis =>
      exact ⟨trivial, fun input => inductionHypothesis _ _⟩

/-- Where the program finishes, its result has the postcondition. -/
theorem spec_sound {program : Program Op Reply ε α} (holds : machine.spec Inv program P w)
    (inputs : List Input) :
    Inv (machine.run program inputs w).2 ∧
      ∀ value, (machine.run program inputs w).1 = .finished (.ok value) →
        P value (machine.run program inputs w).2 := by
  obtain ⟨inv, post⟩ := wp_sound holds inputs
  exact ⟨inv, fun value finished => post _ finished value rfl⟩

end Spec

/-- Some inputs let the program finish where the postcondition holds. -/
def can (program : Program Op Reply ε α) (Q : Except ε α → World → Prop) (w : World) : Prop :=
  ∃ inputs result, (machine.run program inputs w).1 = .finished result ∧
    Q result (machine.run program inputs w).2

section Can

variable {machine} {Q Q' : Except ε α → World → Prop} {w : World}

theorem can_pure {value : α} (holds : Q (.ok value) w) : machine.can (pure value) Q w :=
  ⟨[], .ok value, rfl, holds⟩

theorem can_ofExcept {result : Except ε α} {value : α} (succeeds : result = .ok value)
    (holds : Q (.ok value) w) : machine.can (.ofExcept result) Q w := by
  rw [succeeds]
  exact can_pure holds

theorem can_call {op : Op} {Q : Except ε (Reply op) → World → Prop} (input : Input)
    (holds : Q (machine.step op input w).1 (machine.step op input w).2) :
    machine.can (.call op) Q w := by
  refine ⟨[input], (machine.step op input w).1, ?_, ?_⟩
  · change (machine.run _ [] _).1 = _
    cases (machine.step op input w).1 <;> rfl
  · change Q _ (machine.run _ [] _).2
    cases replied : (machine.step op input w).1 with
    | ok _ | error _ =>
        rw [replied] at holds
        exact holds

theorem can_tryCall {op : Op} {Q : Except ε (Except ε (Reply op)) → World → Prop}
    (input : Input)
    (holds : Q (.ok (machine.step op input w).1) (machine.step op input w).2) :
    machine.can (.tryCall op) Q w :=
  ⟨[input], .ok (machine.step op input w).1, rfl, holds⟩

theorem can_attempt {program : Program Op Reply ε α} (holds : machine.can program Q w) :
    machine.can program.attempt (fun result w => ∃ value, result = .ok value ∧ Q value w) w := by
  obtain ⟨inputs, result, finished, post⟩ := holds
  induction program generalizing inputs w with
  | pure value | throw error =>
      cases finished
      exact ⟨[], _, rfl, _, rfl, post⟩
  | perform op next inductionHypothesis =>
      cases inputs with
      | nil => cases finished
      | cons input inputs =>
          obtain ⟨later, value, ended, held⟩ := inductionHypothesis _ inputs finished post
          exact ⟨input :: later, value, ended, held⟩

theorem can_mono {program : Program Op Reply ε α} (holds : machine.can program Q w)
    (weaker : ∀ result w, Q result w → Q' result w) : machine.can program Q' w := by
  obtain ⟨inputs, result, finished, post⟩ := holds
  exact ⟨inputs, result, finished, weaker _ _ post⟩

/-- The inputs of a sequence are those of its parts. -/
theorem can_bind {first : Program Op Reply ε α} {rest : α → Program Op Reply ε β}
    {Q : Except ε β → World → Prop}
    (holds : machine.can first (fun result w => match result with
      | .ok value => machine.can (rest value) Q w
      | .error error => Q (.error error) w) w) :
    machine.can (first >>= rest) Q w := by
  change machine.can (first.bind rest) Q w
  obtain ⟨inputs, result, finished, post⟩ := holds
  induction first generalizing inputs w with
  | pure value =>
      cases finished
      exact post
  | throw error =>
      cases finished
      exact ⟨[], .error error, rfl, post⟩
  | perform op next inductionHypothesis =>
      cases inputs with
      | nil => cases finished
      | cons input inputs =>
          obtain ⟨later, value, ended, held⟩ := inductionHypothesis _ inputs finished post
          exact ⟨input :: later, value, ended, held⟩

/-- A sequence finishes where its first part can finish and the second part from there. -/
theorem can_seq {first : Program Op Reply ε α} {rest : α → Program Op Reply ε β}
    {Q : Except ε β → World → Prop}
    (holds : machine.can first
      (fun result w => ∃ value, result = .ok value ∧ machine.can (rest value) Q w) w) :
    machine.can (first >>= rest) Q w := by
  refine can_bind (can_mono holds ?_)
  rintro _ w' ⟨value, rfl, later⟩
  exact later

/-- A run which exists has what all runs have. -/
theorem can_and_wp {Inv : World → Prop} {program : Program Op Reply ε α}
    (holds : machine.can program Q w) (always : machine.wp Inv program Q' w) :
    machine.can program (fun result w => Q result w ∧ Inv w ∧ Q' result w) w := by
  obtain ⟨inputs, result, finished, post⟩ := holds
  obtain ⟨inv, every⟩ := wp_sound always inputs
  exact ⟨inputs, result, finished, post, inv, every result finished⟩

end Can

/-- What every operation keeps, every run keeps. -/
theorem run_of_step {Inv : World → Prop}
    (kept : ∀ op input w, Inv w → Inv (machine.step op input w).2)
    (program : Program Op Reply ε α) (inputs : List Input) {w : World} (starts : Inv w) :
    Inv (machine.run program inputs w).2 := by
  induction program generalizing inputs w with
  | pure _ | throw _ => exact starts
  | perform op next inductionHypothesis =>
      cases inputs with
      | nil => exact starts
      | cons input inputs => exact inductionHypothesis _ inputs (kept op input w starts)

/-- Worlds which every operation answers alike are alike to every program. -/
theorem run_congr {Alike : World → World → Prop}
    (step : ∀ op input w w', Alike w w' →
      (machine.step op input w).1 = (machine.step op input w').1 ∧
        Alike (machine.step op input w).2 (machine.step op input w').2)
    (program : Program Op Reply ε α) (inputs : List Input) {w w' : World} (alike : Alike w w') :
    (machine.run program inputs w).1 = (machine.run program inputs w').1 ∧
      Alike (machine.run program inputs w).2 (machine.run program inputs w').2 := by
  induction program generalizing inputs w w' with
  | pure _ | throw _ => exact ⟨rfl, alike⟩
  | perform op next inductionHypothesis =>
      cases inputs with
      | nil => exact ⟨rfl, alike⟩
      | cons input inputs =>
          obtain ⟨replies, later⟩ := step op input w w' alike
          have rest := inductionHypothesis (machine.step op input w).1 inputs later
          simp only [run]
          rw [← replies]
          exact rest

/-- What the allowed operations keep, a program of them keeps. -/
theorem wp_of_uses {Inv : World → Prop} {Allowed : Op → Prop}
    (kept : ∀ op input w, Allowed op → Inv w → Inv (machine.step op input w).2)
    {program : Program Op Reply ε α} (uses : program.uses Allowed) {w : World} (starts : Inv w) :
    machine.wp Inv program (fun _ w => Inv w) w := by
  induction program generalizing w with
  | pure _ | throw _ => exact ⟨starts, starts⟩
  | perform op next inductionHypothesis =>
      exact ⟨starts, fun input =>
        inductionHypothesis _ (uses.2 _) (kept op input w uses.1 starts)⟩

section Embed

variable {Op' : Type} {Reply' : Op' → Type} {World' Input' : Type}

/-- The operations of a component act on one part of a larger world. -/
structure Embedding (machine : Machine Op Reply ε World Input)
    (machine' : Machine Op' Reply' ε World' Input') (inject : Op → Op')
    (reply : (op : Op) → Reply' (inject op) → Reply op) where
  input : Input' → Input
  world : World' → World
  replies : ∀ op i w, (machine'.step (inject op) i w).1.map (reply op) =
    (machine.step op (input i) (world w)).1
  step : ∀ op i w, world (machine'.step (inject op) i w).2 =
    (machine.step op (input i) (world w)).2

variable {machine : Machine Op Reply ε World Input}
  {machine' : Machine Op' Reply' ε World' Input'} {inject : Op → Op'}
  {reply : (op : Op) → Reply' (inject op) → Reply op}
  (embedding : Embedding machine machine' inject reply)
  {Inv : World → Prop} {Frame : World' → Prop} {Q : Except ε α → World → Prop}

/-- What holds of a component holds of it inside the larger world, and so does what each of
its operations keeps there. -/
theorem wp_embed {Allowed : Op → Prop}
    (kept : ∀ op i w, Allowed op → Frame w → Frame (machine'.step (inject op) i w).2)
    {program : Program Op Reply ε α} (uses : program.uses Allowed) {w : World'} (frame : Frame w)
    (holds : machine.wp Inv program Q (embedding.world w)) :
    machine'.wp (fun w => Frame w ∧ Inv (embedding.world w)) (program.embed inject reply)
      (fun result w => Frame w ∧ Q result (embedding.world w)) w := by
  induction program generalizing w with
  | pure value => exact ⟨⟨frame, holds.1⟩, frame, holds.2⟩
  | throw error => exact ⟨⟨frame, holds.1⟩, frame, holds.2⟩
  | perform op next inductionHypothesis =>
      refine ⟨⟨frame, holds.1⟩, fun i => ?_⟩
      have later := holds.2 (embedding.input i)
      rw [← embedding.replies, ← embedding.step] at later
      exact inductionHypothesis _ (uses.2 _) (kept op i w uses.1 frame) later

/-- What a component can do it can do inside the larger world. -/
theorem can_embed (covers : Function.Surjective embedding.input) {program : Program Op Reply ε α}
    {w : World'} (holds : machine.can program Q (embedding.world w)) :
    machine'.can (program.embed inject reply) (fun result w => Q result (embedding.world w)) w := by
  obtain ⟨inputs, result, finished, post⟩ := holds
  induction program generalizing inputs w with
  | pure value =>
      cases finished
      exact ⟨[], .ok value, rfl, post⟩
  | throw error =>
      cases finished
      exact ⟨[], .error error, rfl, post⟩
  | perform op next inductionHypothesis =>
      cases inputs with
      | nil => cases finished
      | cons input inputs =>
          obtain ⟨i, rfl⟩ := covers input
          change (machine.run (next (machine.step op (embedding.input i) _).1) inputs _).1 = _
            at finished
          change Q result (machine.run (next (machine.step op (embedding.input i) _).1) inputs _).2
            at post
          rw [← embedding.replies, ← embedding.step] at finished post
          obtain ⟨later, value, ended, held⟩ :=
            inductionHypothesis _ inputs finished post
          exact ⟨i :: later, value, ended, held⟩

end Embed

section Sessions

variable {Command : Type} (program : Command → Program Op Reply ε α)

/-- Start one program after the other, each with its own inputs, on the same world. -/
def sessions : List (Command × List Input) → World → World
  | [], w => w
  | session :: rest, w =>
      sessions rest (machine.run (program session.1) session.2 w).2

variable {machine program} {Inv : World → Prop} {w : World}

/-- What every program keeps at each of its moments holds at each moment of all sessions. -/
theorem sessions_inv (starts : Inv w)
    (kept : ∀ command w, Inv w → machine.wp Inv (program command) (fun _ _ => True) w)
    (runs : List (Command × List Input)) : Inv (machine.sessions program runs w) := by
  induction runs generalizing w with
  | nil => exact starts
  | cons session rest inductionHypothesis =>
      exact inductionHypothesis (wp_sound (kept session.1 w starts) session.2).1

theorem sessions_inv_of_spec {P : World → α → World → Prop} (starts : Inv w)
    (kept : ∀ command w, Inv w → machine.spec Inv (program command) (P w) w)
    (runs : List (Command × List Input)) : Inv (machine.sessions program runs w) :=
  sessions_inv starts
    (fun command w inv => wp_mono (kept command w inv) fun _ _ _ _ => trivial) runs

theorem sessions_of_step (kept : ∀ op input w, Inv w → Inv (machine.step op input w).2)
    (starts : Inv w) (runs : List (Command × List Input)) :
    Inv (machine.sessions program runs w) := by
  induction runs generalizing w with
  | nil => exact starts
  | cons session rest inductionHypothesis =>
      exact inductionHypothesis (machine.run_of_step kept (program session.1) session.2 starts)

theorem sessions_append (earlier later : List (Command × List Input)) :
    machine.sessions program (earlier ++ later) w =
      machine.sessions program later (machine.sessions program earlier w) := by
  induction earlier generalizing w with
  | nil => rfl
  | cons session rest inductionHypothesis => exact inductionHypothesis

end Sessions

end Machine

end Semantics
