import LpMaker.Semantics.Program

/-!
# Interleaved programs

Threads run programs on one world which they share. A thread takes one operation at a time,
when the world is ready for it, and between two of its operations the other threads move. Each
thread relies on what the others keep, and it keeps what the others rely on. A restart ends all
threads and loses what was in memory.
-/

namespace Semantics

/-- Nothing is left to do. -/
def Program.done {Op : Type} {Reply : Op → Type} {ε α : Type} : Program Op Reply ε α → Bool
  | .pure _ | .throw _ => true
  | .perform _ _ => false

/-- Programs of the threads `ι` on a shared world. An operation which is not ready waits. -/
structure Concurrent (ι Op : Type) (Reply : Op → Type) (ε World Input Command : Type) where
  ready : ι → Op → World → Bool
  step : ι → (op : Op) → Input → World → Except ε (Reply op) × World
  program : ι → Command → Program Op Reply ε Unit
  restart : World → World

namespace Concurrent

/-- What happens next. -/
inductive Move (ι Input Command : Type) where
  | start (thread : ι) (command : Command)
  | advance (thread : ι) (input : Input)
  | restart

/-- The world, and what every thread still has to do. -/
structure Config (ι Op : Type) (Reply : Op → Type) (ε World : Type) where
  world : World
  threads : ι → Program Op Reply ε Unit

variable {ι Op : Type} {Reply : Op → Type} {ε α β World Input Command : Type}

/-- No thread does anything. -/
def Config.idle (w : World) : Config ι Op Reply ε World := ⟨w, fun _ => .pure ()⟩

variable (system : Concurrent ι Op Reply ε World Input Command)

/-- What holds at every moment, and what each thread relies on between its operations. -/
structure Protocol (ι World : Type) where
  Inv : World → Prop
  Rely : ι → World → World → Prop
  refl : ∀ i w, Rely i w w
  trans : ∀ {i a b c}, Rely i a b → Rely i b c → Rely i a c

variable (protocol : Protocol ι World)

/-- Whenever the thread moves, it finds what it relies on, keeps the invariant and what the
others rely on, and where it finishes the postcondition holds from then on. -/
def safe (i : ι) :
    Program Op Reply ε α → (Except ε α → World → Prop) → World → Prop
  | .pure value, Q, w => ∀ w', protocol.Rely i w w' → protocol.Inv w' → Q (.ok value) w'
  | .throw error, Q, w => ∀ w', protocol.Rely i w w' → protocol.Inv w' → Q (.error error) w'
  | .perform op next, Q, w => ∀ w', protocol.Rely i w w' → protocol.Inv w' →
      system.ready i op w' = true → ∀ input,
        protocol.Inv (system.step i op input w').2 ∧
          (∀ j, j ≠ i → protocol.Rely j w' (system.step i op input w').2) ∧
          safe i (next (system.step i op input w').1) Q (system.step i op input w').2

section Rules

variable {system} {protocol} {i : ι} {Q Q' : Except ε α → World → Prop} {w w' : World}

/-- The others may move before a thread does. -/
theorem safe_later {program : Program Op Reply ε α} (holds : system.safe protocol i program Q w)
    (rely : protocol.Rely i w w') : system.safe protocol i program Q w' := by
  cases program with
  | pure _ | throw _ | perform _ _ =>
      exact fun later relied => holds later (protocol.trans rely relied)

/-- What holds wherever the others lead holds here. -/
theorem safe_of_later {program : Program Op Reply ε α}
    (holds : ∀ w', protocol.Rely i w w' → protocol.Inv w' →
      system.safe protocol i program Q w') : system.safe protocol i program Q w := by
  cases program with
  | pure _ | throw _ | perform _ _ =>
      exact fun later relied inv => holds later relied inv later (protocol.refl i later) inv

theorem safe_mono {program : Program Op Reply ε α} (holds : system.safe protocol i program Q w)
    (weaker : ∀ result w, protocol.Inv w → Q result w → Q' result w) :
    system.safe protocol i program Q' w := by
  induction program generalizing w with
  | pure _ | throw _ => exact fun later relied inv => weaker _ _ inv (holds later relied inv)
  | perform op next inductionHypothesis =>
      intro later relied inv ready input
      obtain ⟨kept, guaranteed, rest⟩ := holds later relied inv ready input
      exact ⟨kept, guaranteed, inductionHypothesis _ rest⟩

theorem safe_pure {value : α}
    (holds : ∀ w', protocol.Rely i w w' → protocol.Inv w' → Q (.ok value) w') :
    system.safe protocol i (pure value) Q w := holds

theorem safe_throw {error : ε}
    (holds : ∀ w', protocol.Rely i w w' → protocol.Inv w' → Q (.error error) w') :
    system.safe protocol i (.throw error) Q w := holds

theorem safe_ofExcept {result : Except ε α}
    (holds : ∀ w', protocol.Rely i w w' → protocol.Inv w' → Q result w') :
    system.safe protocol i (.ofExcept result) Q w := by
  cases result with
  | ok _ | error _ => exact holds

/-- A sequence runs its second part on what the first one returns. -/
theorem safe_bind {first : Program Op Reply ε α} {rest : α → Program Op Reply ε β}
    {Q : Except ε β → World → Prop}
    (holds : system.safe protocol i first (fun result w => match result with
      | .ok value => system.safe protocol i (rest value) Q w
      | .error error => Q (.error error) w) w) :
    system.safe protocol i (first >>= rest) Q w := by
  change system.safe protocol i (first.bind rest) Q w
  induction first generalizing w with
  | pure value => exact safe_of_later holds
  | throw error => exact holds
  | perform op next inductionHypothesis =>
      intro later relied inv ready input
      obtain ⟨kept, guaranteed, onward⟩ := holds later relied inv ready input
      exact ⟨kept, guaranteed, inductionHypothesis _ onward⟩

/-- A caller that keeps a failure continues with it. -/
theorem safe_attempt {program : Program Op Reply ε α} {Q : Except ε (Except ε α) → World → Prop}
    (holds : system.safe protocol i program (fun result => Q (.ok result)) w) :
    system.safe protocol i program.attempt Q w := by
  induction program generalizing w with
  | pure _ | throw _ => exact holds
  | perform op next inductionHypothesis =>
      intro later relied inv ready input
      obtain ⟨kept, guaranteed, onward⟩ := holds later relied inv ready input
      exact ⟨kept, guaranteed, inductionHypothesis _ onward⟩

/-- One operation, and what the others leave of its postcondition. -/
theorem safe_call {op : Op} {Q : Except ε (Reply op) → World → Prop}
    (holds : ∀ w', protocol.Rely i w w' → protocol.Inv w' → system.ready i op w' = true →
      ∀ input, protocol.Inv (system.step i op input w').2 ∧
        (∀ j, j ≠ i → protocol.Rely j w' (system.step i op input w').2) ∧
        ∀ w'', protocol.Rely i (system.step i op input w').2 w'' → protocol.Inv w'' →
          Q (system.step i op input w').1 w'') :
    system.safe protocol i (.call op) Q w := by
  intro later relied inv ready input
  obtain ⟨kept, guaranteed, post⟩ := holds later relied inv ready input
  refine ⟨kept, guaranteed, ?_⟩
  cases replied : (system.step i op input later).1 with
  | ok _ | error _ => exact fun last relied inv => replied ▸ post last relied inv

/-- An operation which changes nothing. -/
theorem safe_read {op : Op} {Q : Except ε (Reply op) → World → Prop}
    (same : ∀ input w', (system.step i op input w').2 = w')
    (holds : ∀ w', protocol.Rely i w w' → protocol.Inv w' → ∀ input w'',
      protocol.Rely i w' w'' → protocol.Inv w'' → Q (system.step i op input w').1 w'') :
    system.safe protocol i (.call op) Q w := by
  refine safe_call fun w' relied inv _ input => ?_
  rw [same]
  exact ⟨inv, fun j _ => protocol.refl j w', holds w' relied inv input⟩

end Rules

section Run

variable [DecidableEq ι]

/-- A thread which is busy does not start again, and one which waits does not move. -/
def move (c : Config ι Op Reply ε World) :
    Move ι Input Command → Config ι Op Reply ε World
  | .start i command =>
      if (c.threads i).done then
        { c with threads := Function.update c.threads i (system.program i command) }
      else c
  | .advance i input =>
      match c.threads i with
      | .perform op next =>
          if system.ready i op c.world then
            ⟨(system.step i op input c.world).2,
              Function.update c.threads i (next (system.step i op input c.world).1)⟩
          else c
      | .pure _ | .throw _ => c
  | .restart => .idle (system.restart c.world)

def run (moves : List (Move ι Input Command)) (c : Config ι Op Reply ε World) :
    Config ι Op Reply ε World :=
  moves.foldl system.move c

variable {system protocol} {Idle : ι → World → Prop}

/-- Every thread is safe, and keeps to its idle condition once it has finished. -/
structure Sound (system : Concurrent ι Op Reply ε World Input Command)
    (protocol : Protocol ι World) (Idle : ι → World → Prop)
    (c : Config ι Op Reply ε World) : Prop where
  inv : protocol.Inv c.world
  safe : ∀ i, system.safe protocol i (c.threads i) (fun _ w => Idle i w) c.world

omit [DecidableEq ι] in
theorem Sound.idle_of_done {c : Config ι Op Reply ε World} {i : ι}
    (sound : Sound system protocol Idle c) (done : (c.threads i).done = true) :
    Idle i c.world := by
  have here := sound.safe i
  cases remaining : c.threads i with
  | pure _ | throw _ =>
      rw [remaining] at here
      exact here c.world (protocol.refl i _) sound.inv
  | perform _ _ =>
      rw [remaining] at done
      cases done

theorem Sound.start {c : Config ι Op Reply ε World} {i : ι} {command : Command}
    (sound : Sound system protocol Idle c)
    (started : system.safe protocol i (system.program i command) (fun _ w => Idle i w) c.world) :
    Sound system protocol Idle
      { c with threads := Function.update c.threads i (system.program i command) } := by
  refine ⟨sound.inv, fun j => ?_⟩
  dsimp only
  by_cases same : j = i
  · subst same
    rw [Function.update_self]
    exact started
  · rw [Function.update_of_ne same]
    exact sound.safe j

/-- The other threads go on from what the moving one guarantees. -/
theorem Sound.advance {c : Config ι Op Reply ε World} {i : ι} {input : Input} {op : Op}
    {next : Except ε (Reply op) → Program Op Reply ε Unit} (sound : Sound system protocol Idle c)
    (remaining : c.threads i = .perform op next) (ready : system.ready i op c.world = true) :
    Sound system protocol Idle ⟨(system.step i op input c.world).2,
      Function.update c.threads i (next (system.step i op input c.world).1)⟩ := by
  have here := sound.safe i
  rw [remaining] at here
  obtain ⟨kept, guaranteed, rest⟩ := here c.world (protocol.refl i _) sound.inv ready input
  refine ⟨kept, fun j => ?_⟩
  dsimp only
  by_cases same : j = i
  · subst same
    rw [Function.update_self]
    exact rest
  · rw [Function.update_of_ne same]
    exact safe_later (sound.safe j) (guaranteed j same)

theorem Sound.move {c : Config ι Op Reply ε World} (sound : Sound system protocol Idle c)
    (started : ∀ i command w, protocol.Inv w → Idle i w →
      system.safe protocol i (system.program i command) (fun _ w => Idle i w) w)
    (restarted : ∀ w, protocol.Inv w → Sound system protocol Idle (.idle (system.restart w)))
    (m : Move ι Input Command) : Sound system protocol Idle (system.move c m) := by
  cases m with
  | start i command =>
      simp only [Concurrent.move]
      split_ifs with done
      · exact sound.start (started i command _ sound.inv (sound.idle_of_done done))
      · exact sound
  | advance i input =>
      simp only [Concurrent.move]
      cases remaining : c.threads i with
      | pure _ | throw _ => exact sound
      | perform op next =>
          dsimp only
          split_ifs with ready
          · exact sound.advance remaining ready
          · exact sound
  | restart => exact restarted c.world sound.inv

/-- Where every thread which starts is safe, every run is. -/
theorem Sound.run {c : Config ι Op Reply ε World} (sound : Sound system protocol Idle c)
    (started : ∀ i command w, protocol.Inv w → Idle i w →
      system.safe protocol i (system.program i command) (fun _ w => Idle i w) w)
    (restarted : ∀ w, protocol.Inv w → Sound system protocol Idle (.idle (system.restart w)))
    (moves : List (Move ι Input Command)) : Sound system protocol Idle (system.run moves c) := by
  induction moves generalizing c with
  | nil => exact sound
  | cons m moves inductionHypothesis =>
      exact inductionHypothesis (sound.move started restarted m)

end Run

end Concurrent

end Semantics
