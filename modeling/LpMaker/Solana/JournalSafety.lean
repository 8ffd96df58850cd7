import LpMaker.Solana.Journal

/-!
# Exactly once

However often the program stops, whatever the adapter answers and whichever write fails, every
signed transaction is stored before it is broadcast and is broadcast at most once, all of them
but the pending one are decided, and the position map is the one which the decided transactions
leave.
-/

namespace LpMaker.Solana

open Semantics

namespace Pending

/-- The position of the layer after the transaction, from the one before. -/
def after (p : Pending) (before : Option String) : Option String :=
  if p.removesFinally then none
  else if p.operation = "mint" then before.or p.position
  else before

/-- The transaction is one of this layer, and the network carried it out. -/
def changes (chain : Json → Bool) (layer : String) (p : Pending) : Bool :=
  p.layer = some layer && chain p.signature

theorem removesFinally_of_mint {p : Pending} (mint : p.operation = "mint") :
    p.removesFinally = false := by
  simp [removesFinally, mint]

theorem after_eq_some {p : Pending} {before : Option String} {address : String} :
    p.after before = some address ↔ p.removesFinally = false ∧
      (before = some address ∨
        before = none ∧ p.operation = "mint" ∧ p.position = some address) := by
  unfold after
  split_ifs with final mint
  · simp [final]
  · simp [final, mint, Option.or_eq_some_iff]
  · simp [final, mint]

theorem after_after (p : Pending) (before : Option String) :
    p.after (p.after before) = p.after before := by
  unfold after
  split_ifs
  · rfl
  · rw [Option.or_assoc, Option.or_self]
  · rfl

end Pending

/-- The position which a layer holds after the transactions, the last first: that of its first
confirmed mint after its last confirmed final removal. -/
def held (chain : Json → Bool) (layer : String) : List Pending → Option String
  | [] => none
  | p :: earlier =>
      if p.changes chain layer then p.after (held chain layer earlier)
      else held chain layer earlier

section Held

variable {chain : Json → Bool} {layer : String} {p : Pending} {earlier : List Pending}

theorem held_cons (changes : p.changes chain layer = true) :
    held chain layer (p :: earlier) = p.after (held chain layer earlier) := by
  rw [held, if_pos changes]

theorem held_cons_of_not (not : p.changes chain layer = false) :
    held chain layer (p :: earlier) = held chain layer earlier := by
  rw [held, if_neg (by rw [not]; exact Bool.false_ne_true)]

/-- A layer holds a position exactly where a confirmed mint opened it on an empty layer, and no
confirmed final removal of the layer followed. -/
theorem held_eq_some {history : List Pending} {address : String} :
    held chain layer history = some address ↔
      ∃ later mint earlier, history = later ++ mint :: earlier ∧
        mint.changes chain layer = true ∧ mint.operation = "mint" ∧
        mint.position = some address ∧ held chain layer earlier = none ∧
        ∀ p ∈ later, p.changes chain layer = true → p.removesFinally = false := by
  induction history with
  | nil => simp [held]
  | cons p history inductionHypothesis =>
      constructor
      · intro found
        cases changes : p.changes chain layer with
        | false =>
            rw [held_cons_of_not changes, inductionHypothesis] at found
            obtain ⟨later, mint, earlier, rfl, opens, kind, position, free, stays⟩ := found
            refine ⟨p :: later, mint, earlier, rfl, opens, kind, position, free, ?_⟩
            intro q mem here
            rcases List.mem_cons.mp mem with rfl | mem
            · rw [changes] at here
              cases here
            · exact stays q mem here
        | true =>
            rw [held_cons changes, Pending.after_eq_some] at found
            obtain ⟨stays, found | ⟨free, kind, position⟩⟩ := found
            · obtain ⟨later, mint, earlier, rfl, opens, kind, position, free, kept⟩ :=
                inductionHypothesis.mp found
              refine ⟨p :: later, mint, earlier, rfl, opens, kind, position, free, ?_⟩
              intro q mem here
              rcases List.mem_cons.mp mem with rfl | mem
              · exact stays
              · exact kept q mem here
            · exact ⟨[], p, history, rfl, changes, kind, position, free, nofun⟩
      · rintro ⟨later, mint, earlier, same, opens, kind, position, free, stays⟩
        cases later with
        | nil =>
            cases same
            rw [held_cons opens, Pending.after_eq_some]
            exact ⟨Pending.removesFinally_of_mint kind, .inr ⟨free, kind, position⟩⟩
        | cons q later =>
            cases same
            have found := inductionHypothesis.mpr ⟨later, mint, earlier, rfl, opens, kind,
              position, free, fun p mem => stays p (List.mem_cons_of_mem _ mem)⟩
            cases changes : p.changes chain layer with
            | false => rw [held_cons_of_not changes, found]
            | true =>
                rw [held_cons changes, Pending.after_eq_some]
                exact ⟨stays p List.mem_cons_self changes, .inl found⟩

end Held

namespace Journal

/-- The address which the map has for a layer. -/
def address (w : Journal) (layer : String) : Option String :=
  (w.positions.lookup layer).map PositionRecord.address

/-- The adapter answered what the network decided about a transaction. -/
def isDecided (answers : List (Json × Json)) (p : Pending) : Bool :=
  answers.any fun answer => answer.1 = p.signature && resolved answer.2

/-- Whatever the adapter answered as decided is what the network did. -/
def Agrees (chain : Json → Bool) (answers : List (Json × Json)) : Prop :=
  ∀ answer ∈ answers, resolved answer.2 = true → succeeded answer.2 = chain answer.1

/-- The transactions before the pending one. -/
def earlier (w : Journal) : List Pending :=
  match w.pending with
  | none => w.history
  | some _ => w.history.tail

/-- The map is the one which the transactions leave. -/
def Mapped (chain : Json → Bool) (w : Journal) (transactions : List Pending) : Prop :=
  ∀ layer, w.address layer = held chain layer transactions

structure Sound (chain : Json → Bool) (w : Journal) : Prop where
  onDisk : ∀ b ∈ w.sent, ∃ p, b.onDisk = some p ∧ b.rawTransaction = p.rawTransaction
  once : (w.sent.map Broadcast.onDisk).Sublist (w.history.map some)
  latest : ∀ p, w.pending = some p → w.history = p :: w.earlier
  decided : ∀ p ∈ w.earlier, isDecided w.answers p = true
  /-- A confirmed transaction may be in the map while it is still pending. -/
  mapped : Agrees chain w.answers → Mapped chain w w.earlier ∨
    ∃ p, w.pending = some p ∧ chain p.signature = true ∧ Mapped chain w w.history

/-- The pending transaction is decided, and the map has it. -/
structure Accounted (chain : Json → Bool) (p : Pending) (w : Journal) : Prop where
  sound : Sound chain w
  pending : w.pending = some p
  decided : isDecided w.answers p = true
  mapped : Agrees chain w.answers → Mapped chain w w.history

theorem erase_same {layer : String} {rows : Positions} :
    (rows.erase layer).erase layer = rows.erase layer :=
  AList.ext (List.kerase_of_notMem_keys fun mem => (AList.mem_erase.mp mem).1 rfl)

section Map

variable {p : Pending} {layer address : String} {nowMs : Nat} {rows : Positions}

theorem address_confirmedRows (position : p.position = some address) :
    ((confirmedRows p layer address nowMs rows).lookup layer).map PositionRecord.address =
      p.after ((rows.lookup layer).map PositionRecord.address) := by
  unfold confirmedRows Pending.after
  by_cases final : p.removesFinally = true
  · rw [if_pos final, if_pos final, AList.lookup_erase]
    rfl
  rw [if_neg final, if_neg final]
  by_cases mint : p.operation = "mint"
  · by_cases mapped : layer ∈ rows
    · obtain ⟨row, found⟩ := Option.isSome_iff_exists.mp (AList.lookup_isSome.mpr mapped)
      rw [if_neg fun both => both.2 mapped, if_pos mint, found]
      rfl
    · rw [if_pos ⟨mint, mapped⟩, if_pos mint, AList.lookup_insert,
        AList.lookup_eq_none.mpr mapped, position]
      rfl
  · rw [if_neg fun both => mint both.1, if_neg mint]

theorem address_confirmedRows_other {other : String} (differs : other ≠ layer) :
    (confirmedRows p layer address nowMs rows).lookup other = rows.lookup other := by
  unfold confirmedRows
  split_ifs
  · rw [AList.lookup_erase_ne differs, AList.lookup_insert_ne differs]
  · rw [AList.lookup_insert_ne differs]
  · rw [AList.lookup_erase_ne differs]
  · rfl

/-- A confirmation which is applied again changes nothing. -/
theorem confirmedRows_again (laterMs : Nat) :
    confirmedRows p layer address laterMs (confirmedRows p layer address nowMs rows) =
      confirmedRows p layer address nowMs rows := by
  by_cases mint : p.operation = "mint"
  · have kept (rows : Positions) (ms : Nat) : confirmedRows p layer address ms rows =
        if layer ∉ rows then rows.insert layer ⟨address, ms⟩ else rows := by
      simp [confirmedRows, Pending.removesFinally_of_mint mint, mint]
    rw [kept rows nowMs, kept]
    by_cases mapped : layer ∈ rows
    · rw [if_neg (not_not_intro mapped), if_neg (not_not_intro mapped)]
    · rw [if_pos mapped, if_neg (not_not_intro ((AList.mem_insert rows).mpr (.inl rfl)))]
  · have kept (rows : Positions) (ms : Nat) : confirmedRows p layer address ms rows =
        if p.removesFinally then rows.erase layer else rows := by
      simp [confirmedRows, mint]
    rw [kept rows nowMs, kept]
    split_ifs with final
    · exact erase_same
    · rfl

end Map

section Store

variable {chain : Json → Bool} {w : Journal} {p : Pending}

theorem isDecided_cons {answer : Json × Json} {answers : List (Json × Json)}
    (seen : isDecided answers p = true) :
    isDecided (answer :: answers) p = true := by
  unfold isDecided at seen ⊢
  rw [List.any_cons, seen, Bool.or_true]

theorem Agrees.of_cons {answer : Json × Json} {answers : List (Json × Json)}
    (agrees : Agrees chain (answer :: answers)) : Agrees chain answers :=
  fun other mem => agrees other (List.mem_cons_of_mem _ mem)

theorem sound_fresh (chain : Json → Bool) : Sound chain fresh where
  onDisk := nofun
  once := .slnil
  latest := nofun
  decided := nofun
  mapped _ := .inl fun _ => rfl

namespace Sound

theorem earlier_of_idle (idle : w.pending = none) : w.earlier = w.history := by
  unfold earlier
  rw [idle]

theorem answered (sound : Sound chain w) (signature answer : Json) :
    Sound chain (w.answered signature answer) where
  onDisk := sound.onDisk
  once := sound.once
  latest := sound.latest
  decided p mem := isDecided_cons (sound.decided p mem)
  mapped agrees := sound.mapped agrees.of_cons

/-- A new transaction is stored where none is pending. -/
theorem stored (sound : Sound chain w) (idle : w.pending = none) (p : Pending) :
    Sound chain (w.stored (some p)) where
  onDisk := sound.onDisk
  once := sound.once.cons _
  latest q same := by
    cases same
    rfl
  decided q mem := sound.decided q (by rwa [earlier_of_idle idle])
  mapped agrees := by
    rcases sound.mapped agrees with mapped | ⟨q, busy, _⟩
    · rw [earlier_of_idle idle] at mapped
      exact .inl mapped
    · rw [idle] at busy
      cases busy

/-- The pending transaction is broadcast for the first time. -/
theorem broadcast (sound : Sound chain w) (pending : w.pending = some p)
    (unsent : (w.sent.map Broadcast.onDisk).Sublist (w.earlier.map some)) :
    Sound chain (w.broadcast p.rawTransaction) where
  onDisk := List.forall_mem_cons.mpr ⟨⟨p, pending, rfl⟩, sound.onDisk⟩
  once := by
    change (w.pending :: w.sent.map Broadcast.onDisk).Sublist (w.history.map some)
    rw [pending, sound.latest p pending]
    exact unsent.cons_cons _
  latest := sound.latest
  decided := sound.decided
  mapped := sound.mapped

end Sound

/-- A record which is accounted for is cleared. -/
theorem Accounted.cleared (accounted : Accounted chain p w) : Sound chain (w.stored none) where
  onDisk := accounted.sound.onDisk
  once := accounted.sound.once
  latest := nofun
  decided q mem := by
    change q ∈ w.history at mem
    rw [accounted.sound.latest p accounted.pending] at mem
    rcases List.mem_cons.mp mem with rfl | mem
    · exact accounted.decided
    · exact accounted.sound.decided q mem
  mapped agrees := .inl (accounted.mapped agrees)

/-- A transaction which changes no layer is accounted for once it is decided. -/
theorem Sound.accounted (sound : Sound chain w) (pending : w.pending = some p)
    (seen : isDecided w.answers p = true)
    (quiet : Agrees chain w.answers → ∀ layer, p.changes chain layer = false) :
    Accounted chain p w where
  sound := sound
  pending := pending
  decided := seen
  mapped agrees := by
    rcases sound.mapped agrees with mapped | ⟨_, _, _, mapped⟩
    · intro layer
      rw [mapped layer, sound.latest p pending, held_cons_of_not (quiet agrees layer)]
    · exact mapped

/-- A confirmed transaction of a layer is accounted for when the map has its change, whether or
not the map had it before. -/
theorem Sound.confirmed (sound : Sound chain w) (pending : w.pending = some p)
    (seen : isDecided w.answers p = true) {layer address : String} (ours : p.layer = some layer)
    (position : p.position = some address)
    (succeeds : Agrees chain w.answers → chain p.signature = true) (nowMs : Nat) :
    Accounted chain p
      { w with positions := confirmedRows p layer address nowMs w.positions } := by
  have mapped (agrees : Agrees chain w.answers) :
      Mapped chain { w with positions := confirmedRows p layer address nowMs w.positions }
        w.history := by
    intro other
    by_cases here : other = layer
    · subst here
      have changes : p.changes chain other = true := by
        simp [Pending.changes, ours, succeeds agrees]
      change ((confirmedRows p other address nowMs w.positions).lookup other).map _ = _
      rw [address_confirmedRows position]
      rcases sound.mapped agrees with mapped | ⟨_, _, _, mapped⟩
      · rw [sound.latest p pending, held_cons changes, ← mapped other]
        rfl
      · have already := mapped other
        rw [sound.latest p pending, held_cons changes] at already ⊢
        calc p.after (w.address other)
            = p.after (p.after (held chain other w.earlier)) := by rw [already]
          _ = p.after (held chain other w.earlier) := p.after_after _
    · have differs : p.changes chain other = false := by
        simp [Pending.changes, ours, Ne.symm here]
      change ((confirmedRows p layer address nowMs w.positions).lookup other).map _ = _
      rw [address_confirmedRows_other here]
      rcases sound.mapped agrees with mapped | ⟨_, _, _, mapped⟩
      · rw [sound.latest p pending, held_cons_of_not differs, ← mapped other]
        rfl
      · exact mapped other
  exact {
    sound := {
      onDisk := sound.onDisk
      once := sound.once
      latest := sound.latest
      decided := sound.decided
      mapped := fun agrees => .inr ⟨p, pending, succeeds agrees, mapped agrees⟩ }
    pending := pending
    decided := seen
    mapped := mapped }

end Store

section Rules

variable {Inv : Journal → Prop} {w : Journal}

/-- A write leaves the old state or the new one, and the new one where it succeeds. -/
theorem write_spec {input : JournalInput} {written : Journal} {P : Unit → Journal → Prop}
    (inv : Inv w) (kept : Inv written) (holds : P () written) :
    Inv (write input written w).2 ∧
      ∀ value, (write input written w).1 = .ok value → P value (write input written w).2 := by
  unfold write
  cases input.outcome with
  | ok _ => exact ⟨kept, fun _ _ => holds⟩
  | error message =>
      constructor
      · cases input.applied
        · exact inv
        · exact kept
      · intro value same
        cases same

theorem spec_record {P : Unit → Journal → Prop} (inv : Inv w) (holds : P () w) :
    machine.spec Inv record P w :=
  Machine.spec_call inv fun _ => write_spec inv inv holds

theorem spec_writePending {value : Option Pending} {P : Unit → Journal → Prop} (inv : Inv w)
    (kept : Inv (w.stored value)) (holds : P () (w.stored value)) :
    machine.spec Inv (writePending value) P w :=
  Machine.spec_call inv fun _ => write_spec inv kept holds

theorem spec_updatePositions {change : Nat → Positions → Positions} {P : Unit → Journal → Prop}
    (inv : Inv w) (changed : ∀ nowMs,
      Inv { w with positions := change nowMs w.positions } ∧
        P () { w with positions := change nowMs w.positions }) :
    machine.spec Inv (call (.updatePositions change)) P w :=
  Machine.spec_call inv fun input =>
    write_spec inv (changed input.nowMs).1 (changed input.nowMs).2

theorem spec_readVenue {P : Json → Journal → Prop} (inv : Inv w) (holds : ∀ value, P value w) :
    machine.spec Inv readVenue P w :=
  Machine.spec_call inv fun _ => ⟨inv, fun value _ => holds value⟩

theorem spec_readPending {P : Option Pending → Journal → Prop} (inv : Inv w)
    (holds : P w.pending w) : machine.spec Inv readPending P w := by
  apply Machine.spec_call inv
  intro input
  refine ⟨inv, fun value read => ?_⟩
  change input.reply.map (fun _ => w.pending) = .ok value at read
  cases replied : input.reply with
  | ok _ =>
      rw [replied] at read
      cases read
      exact holds
  | error _ =>
      rw [replied] at read
      cases read

/-- What the adapter is asked for, apart from a broadcast and a status, changes nothing. -/
theorem spec_ask {request : Request} {P : Json → Journal → Prop} (inv : Inv w)
    (quiet : ∀ input, ask input w request = w) (holds : ∀ value, P value w) :
    machine.spec Inv (adapter request) P w := by
  apply Machine.spec_call inv
  intro input
  change Inv (ask input w request) ∧ ∀ value, input.reply = .ok value → P value (ask input w request)
  rw [quiet input]
  exact ⟨inv, fun value _ => holds value⟩

theorem spec_send {rawTransaction : Json} {P : Json → Journal → Prop} (inv : Inv w)
    (kept : Inv (w.broadcast rawTransaction))
    (holds : ∀ value, P value (w.broadcast rawTransaction)) :
    machine.spec Inv (adapter (.send rawTransaction)) P w :=
  Machine.spec_call inv fun _ => ⟨kept, fun value _ => holds value⟩

theorem spec_status {signature : Json} {P : Json → Journal → Prop} (inv : Inv w)
    (kept : ∀ answer, Inv (w.answered signature answer))
    (holds : ∀ answer, P answer (w.answered signature answer)) :
    machine.spec Inv (adapter (.status signature)) P w := by
  apply Machine.spec_call inv
  intro input
  change Inv (ask input w (.status signature)) ∧
    ∀ value, input.reply = .ok value → P value (ask input w (.status signature))
  unfold ask JournalInput.reply
  cases input.outcome with
  | ok answer =>
      refine ⟨kept answer, fun value same => ?_⟩
      cases same
      exact holds answer
  | error _ =>
      refine ⟨inv, fun value same => ?_⟩
      cases same

end Rules

section Programs

variable {chain : Json → Bool} {w : Journal} {p : Pending}

theorem applyConfirmed_spec (sound : Sound chain w) (pending : w.pending = some p)
    (seen : isDecided w.answers p = true)
    (succeeds : Agrees chain w.answers → chain p.signature = true) :
    machine.spec (Sound chain) (applyConfirmed p) (fun _ w => Accounted chain p w) w := by
  unfold applyConfirmed
  cases ours : p.layer with
  | none =>
      refine Machine.spec_pure sound (sound.accounted pending seen fun _ layer => ?_)
      simp [Pending.changes, ours]
  | some layer =>
      refine Machine.spec_bind (Machine.spec_ofExcept sound fun address named => ?_)
      rw [context_eq_ok] at named
      refine spec_updatePositions sound fun nowMs => ?_
      have accounted := sound.confirmed pending seen ours named succeeds nowMs
      exact ⟨accounted.sound, accounted⟩

/-- The pending transaction is settled, or stays pending. -/
theorem settle_spec (sound : Sound chain w) (pending : w.pending = some p) :
    machine.spec (Sound chain) (settle p) (fun _ w => w.pending = none) w := by
  unfold settle
  refine Machine.spec_bind (Machine.spec_ofExcept sound fun signature named => ?_)
  rw [context_eq_ok, Json.asStr_eq_some] at named
  refine Machine.spec_bind (spec_status sound (sound.answered _) fun status => ?_)
  have asked := sound.answered (.str signature) status
  refine Machine.spec_bind (spec_record asked ?_)
  refine Machine.spec_bind (Machine.spec_ofExcept asked fun _ passed => ?_)
  rw [ensure_eq_ok] at passed
  have seen : isDecided (w.answered (.str signature) status).answers p = true := by
    simp [isDecided, answered, named, passed]
  have outcome (agrees : Agrees chain (w.answered (.str signature) status).answers) :
      chain p.signature = succeeded status := by
    rw [named]
    exact (agrees _ List.mem_cons_self passed).symm
  split_ifs with confirmed
  · refine Machine.spec_bind (Machine.spec_mono
      (applyConfirmed_spec asked pending seen fun agrees => by rw [outcome agrees, confirmed])
      fun _ w sound accounted => ?_)
    refine Machine.spec_bind (spec_record sound ?_)
    exact spec_writePending sound accounted.cleared rfl
  · have accounted := asked.accounted pending seen fun agrees layer => by
      simp [Pending.changes, outcome agrees, confirmed]
    refine Machine.spec_bind (spec_record asked ?_)
    refine Machine.spec_bind (spec_writePending asked accounted.cleared ?_)
    exact Machine.spec_throw accounted.cleared

/-- After a reconciliation which succeeds nothing is pending. -/
theorem reconcile_spec (sound : Sound chain w) :
    machine.spec (Sound chain) reconcile (fun _ w => w.pending = none) w := by
  unfold reconcile
  refine Machine.spec_bind (spec_readPending sound ?_)
  cases pending : w.pending with
  | none => exact Machine.spec_pure sound pending
  | some p => exact settle_spec sound pending

theorem confirm_spec (signature : Json) (attempts : Nat) (sound : Sound chain w) :
    machine.spec (Sound chain) (confirm signature attempts)
      (fun confirmed w => confirmed = true → w.pending = none) w := by
  induction attempts generalizing w with
  | zero => exact Machine.spec_pure sound nofun
  | succ attempts inductionHypothesis =>
      unfold confirm
      refine Machine.spec_bind (spec_status sound (sound.answered _) fun status => ?_)
      have asked := sound.answered signature status
      split_ifs
      · refine Machine.spec_bind (Machine.spec_mono (reconcile_spec asked)
          fun _ w sound idle => ?_)
        exact Machine.spec_pure sound fun _ => idle
      · exact inductionHypothesis asked

/-- A transaction is signed where none is pending, and none is pending after it. -/
theorem transaction_spec (kind : String) (layer : Option String) (index : Nat)
    (sound : Sound chain w) (idle : w.pending = none) :
    machine.spec (Sound chain) (transaction kind layer index) (fun _ w => w.pending = none) w := by
  unfold transaction
  refine Machine.spec_bind (spec_ask sound (fun _ => rfl) fun prepared => ?_)
  have stored := sound.stored idle ⟨prepared, layer, kind⟩
  refine Machine.spec_bind (spec_writePending sound stored ?_)
  refine Machine.spec_bind (spec_record stored ?_)
  have sent := stored.broadcast rfl sound.once
  refine Machine.spec_bind (spec_send stored sent fun response => ?_)
  refine Machine.spec_bind (Machine.spec_ofExcept sent fun _ _ => ?_)
  refine Machine.spec_bind (Machine.spec_mono (confirm_spec _ 40 sent)
    fun confirmed w sound settled => ?_)
  refine Machine.spec_bind (Machine.spec_ofExcept sound fun _ passed => ?_)
  rw [ensure_eq_ok] at passed
  refine Machine.spec_bind (spec_ask sound (fun _ => rfl) fun _ => ?_)
  exact Machine.spec_pure sound (settled passed)

theorem transactions_spec (kind : String) (layer : Option String) (remaining index : Nat)
    (sound : Sound chain w) (idle : w.pending = none) :
    machine.spec (Sound chain) (transactions kind layer remaining index)
      (fun _ w => w.pending = none) w := by
  induction remaining generalizing index w with
  | zero => exact Machine.spec_pure sound idle
  | succ remaining inductionHypothesis =>
      unfold transactions
      refine Machine.spec_bind (Machine.spec_mono (transaction_spec kind layer index sound idle)
        fun _ w sound idle => ?_)
      exact inductionHypothesis _ sound idle

theorem execute_spec (intent : Json) (layer : Option String) (sound : Sound chain w) :
    machine.spec (Sound chain) (execute intent layer) (fun _ w => w.pending = none) w := by
  unfold execute
  refine Machine.spec_bind (spec_readVenue sound fun venue => ?_)
  refine Machine.spec_bind (Machine.spec_ofExcept sound fun _ _ => ?_)
  refine Machine.spec_bind (spec_readPending sound ?_)
  refine Machine.spec_bind (Machine.spec_ofExcept sound fun _ idle => ?_)
  rw [ensure_eq_ok] at idle
  refine Machine.spec_bind (Machine.spec_ofExcept sound fun kind _ => ?_)
  refine Machine.spec_bind (spec_ask sound (fun _ => rfl) fun plan => ?_)
  refine Machine.spec_bind (Machine.spec_ofExcept sound fun count _ => ?_)
  refine Machine.spec_bind (spec_record sound ?_)
  exact transactions_spec kind layer count 0 sound idle

/-- However often the trading loop stops, and wherever. -/
theorem sessions_sound (chain : Json → Bool) (runs : List (Command × List JournalInput)) :
    Sound chain (machine.sessions Command.program runs fresh) := by
  refine Machine.sessions_inv_of_spec (sound_fresh chain) ?_ runs (P := fun _ _ w => w.pending = none)
  intro command w sound
  cases command with
  | reconcile => exact reconcile_spec sound
  | execute intent layer => exact execute_spec intent layer sound

end Programs

section Outcome

variable {chain : Json → Bool} {w : Journal}

theorem Sound.mapped_of_idle (sound : Sound chain w) (idle : w.pending = none)
    (agrees : Agrees chain w.answers) : Mapped chain w w.history := by
  rcases sound.mapped agrees with mapped | ⟨_, _, _, mapped⟩
  · rwa [Sound.earlier_of_idle idle] at mapped
  · exact mapped

theorem Sound.undecided (sound : Sound chain w) {p : Pending} (signed : p ∈ w.history)
    (undecided : isDecided w.answers p = false) : w.pending = some p := by
  cases pending : w.pending with
  | none =>
      rw [← Sound.earlier_of_idle pending] at signed
      rw [sound.decided p signed] at undecided
      cases undecided
  | some q =>
      rw [sound.latest q pending] at signed
      rcases List.mem_cons.mp signed with rfl | before
      · rfl
      · rw [sound.decided p before] at undecided
        cases undecided

theorem Sound.countP_undecided_le_one (sound : Sound chain w) :
    w.history.countP (!isDecided w.answers ·) ≤ 1 := by
  have none : w.earlier.countP (!isDecided w.answers ·) = 0 := by
    rw [List.countP_eq_zero]
    intro p mem
    rw [sound.decided p mem]
    exact Bool.false_ne_true
  cases pending : w.pending with
  | none =>
      rw [← Sound.earlier_of_idle pending, none]
      exact Nat.zero_le 1
  | some p =>
      rw [sound.latest p pending, List.countP_cons, none]
      split_ifs <;> omega

/-- The broadcasts are the signed transactions, each at most once and in their order. -/
theorem Sound.broadcasts (sound : Sound chain w) :
    (w.sent.map Broadcast.rawTransaction).Sublist (w.history.map Pending.rawTransaction) := by
  have raws : w.sent.map Broadcast.rawTransaction =
      (w.sent.map Broadcast.onDisk).filterMap (Option.map Pending.rawTransaction) := by
    rw [List.filterMap_map, ← List.filterMap_eq_map]
    refine List.filterMap_congr fun b mem => ?_
    obtain ⟨p, onDisk, raw⟩ := sound.onDisk b mem
    simp [onDisk, raw]
  have signed : w.history.map Pending.rawTransaction =
      (w.history.map some).filterMap (Option.map Pending.rawTransaction) := by
    rw [List.filterMap_map, ← List.filterMap_eq_map]
    rfl
  rw [raws, signed]
  exact sound.once.filterMap _

theorem Sound.onHistory (sound : Sound chain w) {b : Broadcast} (sent : b ∈ w.sent) :
    ∃ p ∈ w.history, b.onDisk = some p ∧ b.rawTransaction = p.rawTransaction := by
  obtain ⟨p, onDisk, raw⟩ := sound.onDisk b sent
  have mem : b.onDisk ∈ w.history.map some := sound.once.subset (List.mem_map_of_mem sent)
  obtain ⟨q, signed, same⟩ := List.mem_map.mp mem
  rw [onDisk] at same
  cases same
  exact ⟨p, signed, onDisk, raw⟩

/-- The map misses at most the change of the pending transaction. -/
theorem Sound.mapped_or_missing (sound : Sound chain w) (agrees : Agrees chain w.answers) :
    Mapped chain w w.history ∨ ∃ p earlier, w.pending = some p ∧ w.history = p :: earlier ∧
      chain p.signature = true ∧ Mapped chain w earlier := by
  rcases sound.mapped agrees with mapped | ⟨_, _, _, mapped⟩
  · cases pending : w.pending with
    | none =>
        rw [Sound.earlier_of_idle pending] at mapped
        exact .inl mapped
    | some p =>
        have latest := sound.latest p pending
        cases succeeds : chain p.signature with
        | true => exact .inr ⟨p, w.earlier, rfl, latest, succeeds, mapped⟩
        | false =>
            refine .inl fun layer => ?_
            rw [latest, held_cons_of_not (by simp [Pending.changes, succeeds])]
            exact mapped layer
  · exact .inl mapped

end Outcome

/-- Whatever the adapter replies and wherever the journal stops: a transaction is broadcast only
while its record is on disk, and once for each time it was signed; at most one transaction is
undecided, and it is the pending one; the map has the positions which the confirmed mints opened
and no confirmed final removal closed, except that the confirmation of the pending transaction
may still be missing; after a reconciliation nothing is missing; and a confirmation which is
applied again changes nothing. -/
theorem journal_exactly_once (chain : Json → Bool) (runs : List (Command × List JournalInput)) :
    let w := machine.sessions Command.program runs fresh
    (∀ b ∈ w.sent, ∃ p ∈ w.history, b.onDisk = some p ∧ b.rawTransaction = p.rawTransaction) ∧
      (w.sent.map Broadcast.rawTransaction).Sublist (w.history.map Pending.rawTransaction) ∧
      w.history.countP (!isDecided w.answers ·) ≤ 1 ∧
      (∀ p ∈ w.history, isDecided w.answers p = false → w.pending = some p) ∧
      (Agrees chain w.answers → Mapped chain w w.history ∨
        ∃ p earlier, w.pending = some p ∧ w.history = p :: earlier ∧
          chain p.signature = true ∧ Mapped chain w earlier) ∧
      (∀ inputs, (machine.run reconcile inputs w).1 = .finished (.ok ()) →
        Agrees chain (machine.run reconcile inputs w).2.answers →
        Mapped chain (machine.run reconcile inputs w).2
          (machine.run reconcile inputs w).2.history) ∧
      ∀ p layer address nowMs laterMs rows,
        confirmedRows p layer address laterMs (confirmedRows p layer address nowMs rows) =
          confirmedRows p layer address nowMs rows := by
  intro w
  have sound := sessions_sound chain runs
  refine ⟨fun b sent => sound.onHistory sent, sound.broadcasts, sound.countP_undecided_le_one,
    fun p signed undecided => sound.undecided signed undecided, sound.mapped_or_missing, ?_,
    fun p layer address nowMs laterMs rows => confirmedRows_again laterMs⟩
  intro inputs finished agrees
  obtain ⟨recovered, idle⟩ := Machine.spec_sound (reconcile_spec sound) inputs
  exact recovered.mapped_of_idle (idle () finished) agrees

section Interrupted

/-- The adapter replies, and a write succeeds. -/
def replies (json : Json) : JournalInput := ⟨0, .ok json, true⟩

def mintPrepared : Json := .obj [("signature", .str "signature"), ("raw_transaction", .str "raw"),
  ("position", .str "address"), ("index", .nat 0), ("count", .nat 1)]

def confirmedStatus : Json := .obj [("status", .obj [("confirmationStatus", .str "confirmed"),
  ("err", .null)])]

/-- A mint which stops after its broadcast, a recovery which stops before it clears the record,
and a recovery which does not stop. -/
def interruptedMint : List (Command × List JournalInput) :=
  [(.execute (.obj [("kind", .str "mint")]) (some "core"),
      [replies .null, replies .null, replies (.obj [("count", .nat 1)]), replies .null,
        replies mintPrepared, replies .null, replies .null, replies .null]),
    (.reconcile, [replies .null, replies confirmedStatus, replies .null, replies .null]),
    (.reconcile, [replies .null, replies confirmedStatus, replies .null, replies .null,
      replies .null, replies .null])]

theorem interrupted_mint_mapped :
    (machine.sessions Command.program interruptedMint fresh).address "core" = some "address" := by
  obtain ⟨_, _, _, _, mapped, _⟩ := journal_exactly_once (fun _ => true) interruptedMint
  rcases mapped (by unfold Agrees; decide) with mapped | ⟨_, _, pending, _⟩
  · rw [mapped "core"]
    decide
  · cases pending

end Interrupted

end Journal

end LpMaker.Solana
