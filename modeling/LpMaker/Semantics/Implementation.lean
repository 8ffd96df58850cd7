import LpMaker.Semantics.Program

/-!
# Implementing operations by programs

An operation of one machine may be a program of another one. Where each such program ends as some
step of the operation could, what holds of a program over the operations holds of its
implementation.
-/

namespace Semantics

variable {Op Op' : Type} {Reply : Op → Type} {Reply' : Op' → Type} {ε α β : Type}

namespace Program

/-- Perform a program for every operation. -/
def implement (f : (op : Op) → Program Op' Reply' ε (Reply op)) :
    Program Op Reply ε α → Program Op' Reply' ε α
  | pure value => pure value
  | throw error => throw error
  | perform op next => (f op).attempt >>= fun reply => (next reply).implement f

variable {f : (op : Op) → Program Op' Reply' ε (Reply op)}

theorem bind_assoc {γ : Type} (first : Program Op Reply ε α) (rest : α → Program Op Reply ε β)
    (last : β → Program Op Reply ε γ) :
    (first >>= rest) >>= last = first >>= fun value => rest value >>= last := by
  change (first.bind rest).bind last = first.bind fun value => (rest value).bind last
  induction first with
  | pure _ | throw _ => rfl
  | perform op next inductionHypothesis => exact congrArg (perform op) (funext inductionHypothesis)

@[simp] theorem implement_pure (value : α) :
    (Pure.pure value : Program Op Reply ε α).implement f = Pure.pure value := rfl

@[simp] theorem implement_ofExcept (result : Except ε α) :
    (ofExcept result : Program Op Reply ε α).implement f = ofExcept result := by
  cases result <;> rfl

/-- The parts of a sequence are implemented one after the other. -/
theorem implement_bind (first : Program Op Reply ε α) (rest : α → Program Op Reply ε β) :
    (first >>= rest).implement f = first.implement f >>= fun value => (rest value).implement f := by
  induction first with
  | pure _ | throw _ => rfl
  | perform op next inductionHypothesis =>
      change (f op).attempt >>= (fun reply => (next reply >>= rest).implement f) =
        ((f op).attempt >>= fun reply => (next reply).implement f) >>= _
      rw [bind_assoc]
      exact congrArg _ (funext inductionHypothesis)

/-- Operations which stay as they are. -/
theorem implement_eq_embed {inject : Op → Op'}
    {reply : (op : Op) → Reply' (inject op) → Reply op} {Allowed : Op → Prop}
    (same : ∀ op, Allowed op → (f op).attempt = perform (inject op) fun result =>
      Pure.pure (result.map (reply op)))
    {program : Program Op Reply ε α} (uses : program.uses Allowed) :
    program.implement f = program.embed inject reply := by
  induction program with
  | pure _ | throw _ => rfl
  | perform op next inductionHypothesis =>
      change (f op).attempt >>= (fun reply => (next reply).implement f) =
        perform (inject op) fun result => (next (result.map (reply op))).embed inject reply
      rw [same op uses.1]
      exact congrArg (perform (inject op))
        (funext fun result => inductionHypothesis _ (uses.2 _))

end Program

namespace Machine

variable {World Input World' Input' : Type} {machine : Machine Op Reply ε World Input}
  {machine' : Machine Op' Reply' ε World' Input'} {f : (op : Op) → Program Op' Reply' ε (Reply op)}

/-- Every program for an operation stays at its start or at one of its steps, and ends as that
step does. -/
def Implements (machine : Machine Op Reply ε World Input)
    (machine' : Machine Op' Reply' ε World' Input')
    (f : (op : Op) → Program Op' Reply' ε (Reply op)) (Related : World → World' → Prop) : Prop :=
  ∀ op w w', Related w w' →
    machine'.wp (fun v' => Related w v' ∨ ∃ input, Related (machine.step op input w).2 v') (f op)
      (fun result v' => ∃ input, (machine.step op input w).1 = result ∧
        Related (machine.step op input w).2 v') w'

/-- What holds of a program holds of its implementation. -/
theorem wp_implement {Related : World → World' → Prop}
    (implements : Implements machine machine' f Related) {Inv : World → Prop}
    {Q : Except ε α → World → Prop} {program : Program Op Reply ε α}
    {w : World} {w' : World'} (related : Related w w') (holds : machine.wp Inv program Q w) :
    machine'.wp (fun v' => ∃ v, Related v v' ∧ Inv v) (program.implement f)
      (fun result v' => ∃ v, Related v v' ∧ Q result v) w' := by
  induction program generalizing w w' with
  | pure value | throw error => exact ⟨⟨w, related, holds.1⟩, w, related, holds.2⟩
  | perform op next inductionHypothesis =>
      apply wp_bind.mpr
      apply wp_attempt.mpr
      refine wp_mono (wp_mono_inv (implements op w w' related) fun v' reached => ?_)
        fun result v' _ ended => ?_
      · rcases reached with start | ⟨input, after⟩
        · exact ⟨w, start, holds.1⟩
        · exact ⟨_, after, wp_inv (holds.2 input)⟩
      · obtain ⟨input, rfl, after⟩ := ended
        exact inductionHypothesis _ after (holds.2 input)

end Machine

end Semantics
