import LpMaker.Evm.Transactions

/-!
# Invariants of the wallet

What holds of the stored files at every moment, what the two tasks rely on, and the rules by
which the programs of either task are shown to keep it.
-/

namespace LpMaker.Evm

open Semantics

variable {Hash : Type}

namespace TxWorld

/-- No nonce below this one is allocated any more. -/
def floor (w : TxWorld Hash) : Nat := (w.nonce.map NonceState.nextFloor).getD 0

/-- The operation of the wallet without an outcome. -/
def current (w : TxWorld Hash) : Option (Pending Hash) :=
  match w.pending with
  | some (.evm p) => some p
  | some (.venue _) | none => none

/-- The operations before it. -/
def earlier (w : TxWorld Hash) : List (Pending Hash) :=
  match w.current with
  | some _ => w.begun.tail
  | none => w.begun

def holds (i : Thread) (w : TxWorld Hash) : Bool := w.lock = some i

end TxWorld

/-- Nothing but the fees differs. -/
def Signed.sameCall (a b : Signed) : Prop := { a with fees := b.fees } = b

theorem Signed.sameCall_trans {a b c : Signed} (first : a.sameCall c) (second : b.sameCall c) :
    a.sameCall b := by
  unfold Signed.sameCall at *
  rw [← second] at first
  exact congrArg (fun tx : Signed => { tx with fees := b.fees }) first

namespace Tx

/-- The stored operation is the one which was begun, maybe with replacements. -/
structure Continues (p begun : Pending Hash) : Prop where
  root : p.root = begun.root
  nonce : p.nonce = begun.nonce
  operation : p.operation = begun.operation
  candidates : ∀ c ∈ p.candidates, c.raw.nonce = p.nonce
  calls : ∀ c ∈ p.candidates, c.raw.sameCall p.root.raw

section Registry

variable (wallet : Wallet) (chain : Chain Hash)

/-- The NFTs after an operation which was carried out. -/
def applied (kind : Kind) (r : Receipt Hash) (rows : String → Option String) :
    String → Option String :=
  match kind with
  | .mint layer =>
      match mintedId wallet r with
      | .ok id => Function.update rows layer (some id)
      | .error _ => rows
  | .burn layer => Function.update rows layer none
  | .approve _ _ _ | .approveZero _ _ _ | .increase | .collect | .swap => rows

/-- The receipt of an operation which succeeded. -/
def succeeded (p : Pending Hash) : Option (Receipt Hash) :=
  ((chain.mined p.nonce).map Prod.snd).filter fun r => r.status = 1

/-- The NFTs which the operations leave, the last first. -/
def registry : List (Pending Hash) → String → Option String
  | [] => fun _ => none
  | p :: earlier =>
      match succeeded chain p with
      | some r => applied wallet p.operation.kind r (registry earlier)
      | none => registry earlier

/-- The operation opened a position. -/
def opens (p : Pending Hash) : Prop :=
  (∃ layer, p.operation.kind = .mint layer) ∧ (succeeded chain p).isSome

/-- The stored registry is the one which the operations leave. -/
def Mapped (w : TxWorld Hash) (operations : List (Pending Hash)) : Prop :=
  ∀ layer, w.nfts.lookup layer = registry wallet chain operations layer

end Registry

/-- What holds at every moment. -/
structure Sound (wallet : Wallet) (chain : Chain Hash) (w : TxWorld Hash) : Prop where
  ordered : w.begun.Pairwise fun later earlier => earlier.nonce < later.nonce
  current : ∀ p, w.current = some p → ∃ r rest, w.begun = r :: rest ∧ Continues p r
  reserved : ∀ r ∈ w.earlier, r.nonce < w.floor
  settled : ∀ r ∈ w.earlier, (chain.mined r.nonce).isSome
  sent : ∀ b ∈ w.sent, b.raw.nonce < w.floor ∧ ∃ p, b.onDisk = some (.evm p) ∧
    (∃ c ∈ p.candidates, c.raw = b.raw) ∧ ∃ r ∈ w.begun, Continues p r
  mapped : Mapped wallet chain w w.earlier ∨
    ∃ p, w.current = some p ∧ (chain.mined p.nonce).isSome ∧ Mapped wallet chain w w.begun
  history : ∀ r ∈ w.earlier, opens chain r → w.lpHistory = true

/-- What a task finds unchanged when it goes on: the floor never falls, and the worker changes
no file but the nonce state. -/
structure Frame (i : Thread) (w w' : TxWorld Hash) : Prop where
  floor : w.floor ≤ w'.floor
  files : i = .main → w'.pending = w.pending ∧ w'.nfts = w.nfts ∧
    w'.lpHistory = w.lpHistory ∧ w'.begun = w.begun ∧ w'.sent = w.sent

namespace Frame

variable {i : Thread} {a b c w : TxWorld Hash}

theorem refl (i : Thread) (w : TxWorld Hash) : Frame i w w :=
  ⟨le_rfl, fun _ => ⟨rfl, rfl, rfl, rfl, rfl⟩⟩

theorem trans (first : Frame i a b) (second : Frame i b c) : Frame i a c where
  floor := first.floor.trans second.floor
  files := by
    intro main
    obtain ⟨pending, nfts, history, begun, sent⟩ := first.files main
    obtain ⟨pending', nfts', history', begun', sent'⟩ := second.files main
    exact ⟨pending'.trans pending, nfts'.trans nfts, history'.trans history,
      begun'.trans begun, sent'.trans sent⟩

theorem pending (frame : Frame .main a b) : b.pending = a.pending := (frame.files rfl).1

theorem nfts (frame : Frame .main a b) : b.nfts = a.nfts := (frame.files rfl).2.1

theorem history (frame : Frame .main a b) : b.lpHistory = a.lpHistory := (frame.files rfl).2.2.1

theorem begun (frame : Frame .main a b) : b.begun = a.begun := (frame.files rfl).2.2.2.1

theorem sent (frame : Frame .main a b) : b.sent = a.sent := (frame.files rfl).2.2.2.2

end Frame

/-- What a task relies on between its operations: who holds the lock keeps the nonce state to
itself. -/
structure Rely (i : Thread) (w w' : TxWorld Hash) : Prop where
  holds : w'.holds i = w.holds i
  nonce : w.holds i = true → w'.nonce = w.nonce
  frame : Frame i w w'

namespace Rely

variable {i : Thread} {a b c w : TxWorld Hash}

theorem refl (i : Thread) (w : TxWorld Hash) : Rely i w w := ⟨rfl, fun _ => rfl, Frame.refl i w⟩

theorem trans (first : Rely i a b) (second : Rely i b c) : Rely i a c where
  holds := second.holds.trans first.holds
  nonce := fun held => (second.nonce (first.holds.trans held)).trans (first.nonce held)
  frame := first.frame.trans second.frame

end Rely

def protocol (wallet : Wallet) (chain : Chain Hash) :
    Concurrent.Protocol Thread (TxWorld Hash) where
  Inv := Sound wallet chain
  Rely := Rely
  refl := Rely.refl
  trans := Rely.trans

variable [DecidableEq Hash] (wallet : Wallet) (digest : Signed → Hash)
  (approveCall : Address → Word → List (BitVec 8)) (chain : Chain Hash)

/-- The program is safe, ends with the lock held as it began, and a result has the
postcondition. -/
def spec {α : Type} (i : Thread) (held : Bool) (program : TxProgram Hash α)
    (P : α → TxWorld Hash → Prop) (w : TxWorld Hash) : Prop :=
  (system wallet digest approveCall chain).safe (protocol wallet chain) i program
    (fun result w => w.holds i = held ∧ ∀ value, result = .ok value → P value w) w

section Rules

variable {wallet digest approveCall chain} {α β : Type} {i : Thread} {held : Bool}
  {P : α → TxWorld Hash → Prop} {w : TxWorld Hash}

theorem spec_pure {value : α} (mode : w.holds i = held)
    (post : ∀ w', Rely i w w' → Sound wallet chain w' → P value w') :
    spec wallet digest approveCall chain i held (pure value) P w := by
  refine Concurrent.safe_pure fun w' rely inv => ⟨rely.holds.trans mode, fun value' same => ?_⟩
  cases same
  exact post w' rely inv

theorem spec_throw {message : String} (mode : w.holds i = held) :
    spec wallet digest approveCall chain i held (.throw message : TxProgram Hash α) P w :=
  Concurrent.safe_throw fun _ rely _ => ⟨rely.holds.trans mode, fun _ same => by cases same⟩

theorem spec_mono {program : TxProgram Hash α} {P' : α → TxWorld Hash → Prop}
    (holds : spec wallet digest approveCall chain i held program P w)
    (weaker : ∀ value w', Sound wallet chain w' → w'.holds i = held → P value w' → P' value w') :
    spec wallet digest approveCall chain i held program P' w :=
  Concurrent.safe_mono holds fun _ w' inv post =>
    ⟨post.1, fun value same => weaker value w' inv post.1 (post.2 value same)⟩

theorem spec_bind {first : TxProgram Hash α} {rest : α → TxProgram Hash β}
    {R : β → TxWorld Hash → Prop}
    (here : spec wallet digest approveCall chain i held first P w)
    (later : ∀ value w', Sound wallet chain w' → w'.holds i = held → P value w' →
      spec wallet digest approveCall chain i held (rest value) R w') :
    spec wallet digest approveCall chain i held (first >>= rest) R w := by
  refine Concurrent.safe_bind (Concurrent.safe_mono here fun result w' inv post => ?_)
  cases result with
  | ok value => exact later value w' inv post.1 (post.2 value rfl)
  | error _ => exact ⟨post.1, fun _ same => by cases same⟩

theorem bind_lift {result : Except String α} {rest : α → TxProgram Hash β}
    {R : β → TxWorld Hash → Prop} (mode : w.holds i = held)
    (later : ∀ value, result = .ok value →
      spec wallet digest approveCall chain i held (rest value) R w) :
    spec wallet digest approveCall chain i held (lift result >>= rest) R w := by
  cases result with
  | ok value => exact later value rfl
  | error _ => exact spec_throw mode

/-- The last part of a program is followed by nothing. -/
theorem spec_last {program : TxProgram Hash α}
    (holds : spec wallet digest approveCall chain i held (program >>= pure) P w) :
    spec wallet digest approveCall chain i held program P w := by
  rwa [Program.bind_pure_right] at holds

/-- One operation keeps the invariant and what the other task relies on. -/
theorem bind_call {op : TxOp Hash} {rest : op.Reply Hash → TxProgram Hash β}
    {R : β → TxWorld Hash → Prop}
    (holds : ∀ w', Rely i w w' → Sound wallet chain w' →
      (system wallet digest approveCall chain).ready i op w' = true → ∀ input,
        Sound wallet chain (TxWorld.step digest chain i op input w').2 ∧
        (∀ j, j ≠ i → Rely j w' (TxWorld.step digest chain i op input w').2) ∧
        (∀ message, (TxWorld.step digest chain i op input w').1 = .error message →
          (TxWorld.step digest chain i op input w').2.holds i = held) ∧
        ∀ reply, (TxWorld.step digest chain i op input w').1 = .ok reply →
          spec wallet digest approveCall chain i held (rest reply) R
            (TxWorld.step digest chain i op input w').2) :
    spec wallet digest approveCall chain i held (call op >>= rest) R w := by
  refine Concurrent.safe_bind fun w' rely inv ready input => ?_
  obtain ⟨kept, guaranteed, mode, onward⟩ := holds w' rely inv ready input
  refine ⟨kept, guaranteed, ?_⟩
  cases replied : ((system wallet digest approveCall chain).step i op input w').1 with
  | ok reply => exact fun w'' rely _ => Concurrent.safe_later (onward reply replied) rely
  | error message =>
      exact fun w'' rely _ => ⟨rely.holds.trans (mode message replied), fun _ same => by cases same⟩

/-- A question changes nothing. -/
theorem bind_ask {op : TxOp Hash} {reply : TxInput Hash → TxWorld Hash → op.Reply Hash}
    {rest : op.Reply Hash → TxProgram Hash β} {R : β → TxWorld Hash → Prop}
    (asks : ∀ input w, TxWorld.step digest chain i op input w =
      TxWorld.ask input (reply input w) w)
    (mode : w.holds i = held)
    (later : ∀ w' input, Rely i w w' → Sound wallet chain w' →
      spec wallet digest approveCall chain i held (rest (reply input w')) R w') :
    spec wallet digest approveCall chain i held (call op >>= rest) R w := by
  refine bind_call fun w' rely inv _ input => ?_
  have same : (TxWorld.step digest chain i op input w').2 = w' := by
    rw [asks]
    unfold TxWorld.ask
    cases input.failure with
    | none | some _ => rfl
  rw [same]
  refine ⟨inv, fun j _ => Rely.refl j w', fun _ _ => rely.holds.trans mode,
    fun value replied => ?_⟩
  rw [asks] at replied
  unfold TxWorld.ask at replied
  cases failed : input.failure with
  | some _ =>
      rw [failed] at replied
      cases replied
  | none =>
      rw [failed] at replied
      cases replied
      exact later w' input rely inv

/-- A write keeps the invariant and what the other task relies on. -/
structure Kept (wallet : Wallet) (chain : Chain Hash) (i : Thread) (w w' : TxWorld Hash) :
    Prop where
  inv : Sound wallet chain w'
  holds : w'.holds i = w.holds i
  guarantee : ∀ j, j ≠ i → Rely j w w'

omit [DecidableEq Hash] in
theorem Kept.refl (i : Thread) (inv : Sound wallet chain w) : Kept wallet chain i w w :=
  ⟨inv, rfl, fun j _ => Rely.refl j w⟩

/-- A write which fails may have taken effect. -/
theorem bind_write {op : TxOp Hash} {reply : op.Reply Hash}
    {rest : op.Reply Hash → TxProgram Hash β} {R : β → TxWorld Hash → Prop}
    (written : TxWorld Hash → TxWorld Hash) (mode : w.holds i = held)
    (writes : ∀ w', Rely i w w' → ∀ input, TxWorld.step digest chain i op input w' =
      TxWorld.write input reply (written w') w')
    (kept : ∀ w', Rely i w w' → Sound wallet chain w' → Kept wallet chain i w' (written w'))
    (later : ∀ w', Rely i w w' → Sound wallet chain w' →
      spec wallet digest approveCall chain i held (rest reply) R (written w')) :
    spec wallet digest approveCall chain i held (call op >>= rest) R w := by
  refine bind_call fun w' rely inv _ input => ?_
  have here := rely.holds.trans mode
  have done := kept w' rely inv
  rw [writes w' rely]
  unfold TxWorld.write
  cases input.failure with
  | none =>
      refine ⟨done.inv, done.guarantee, fun _ _ => done.holds.trans here, fun _ replied => ?_⟩
      cases replied
      exact later w' rely inv
  | some _ =>
      dsimp only
      split_ifs with applied
      · exact ⟨done.inv, done.guarantee, fun _ _ => done.holds.trans here,
          fun _ replied => by cases replied⟩
      · exact ⟨inv, fun j _ => Rely.refl j w', fun _ _ => here, fun _ replied => by cases replied⟩

/-- Nothing in the journal matters here. -/
theorem bind_record {rest : Unit → TxProgram Hash β} {R : β → TxWorld Hash → Prop}
    (mode : w.holds i = held)
    (later : ∀ w', Rely i w w' → Sound wallet chain w' →
      spec wallet digest approveCall chain i held (rest ()) R w') :
    spec wallet digest approveCall chain i held (call .record >>= rest) R w :=
  bind_write id mode (fun _ _ _ => rfl) (fun _ _ inv => Kept.refl i inv) later

omit [DecidableEq Hash] in
theorem Sound.relock {lock : Option Thread} (inv : Sound wallet chain w) :
    Sound wallet chain { w with lock := lock } :=
  ⟨inv.ordered, inv.current, inv.reserved, inv.settled, inv.sent, inv.mapped, inv.history⟩

omit [DecidableEq Hash] in
theorem Frame.relock (i : Thread) (w : TxWorld Hash) (lock : Option Thread) :
    Frame i w { w with lock := lock } :=
  ⟨le_rfl, fun _ => ⟨rfl, rfl, rfl, rfl, rfl⟩⟩

omit [DecidableEq Hash] in
theorem relied_of_taken {j : Thread} (free : w.lock = none) (other : j ≠ i) :
    Rely j w { w with lock := some i } := by
  have before : w.holds j = false := by simp [TxWorld.holds, free]
  refine ⟨?_, fun held => absurd (before.symm.trans held) Bool.false_ne_true, Frame.relock j w _⟩
  rw [before]
  simp [TxWorld.holds, Ne.symm other]

omit [DecidableEq Hash] in
theorem relied_of_released {j : Thread} (held : w.holds i = true) (other : j ≠ i) :
    Rely j w { w with lock := none } := by
  have owned : w.lock = some i := by simpa [TxWorld.holds] using held
  have before : w.holds j = false := by simp [TxWorld.holds, owned, Ne.symm other]
  refine ⟨?_, fun held => absurd (before.symm.trans held) Bool.false_ne_true, Frame.relock j w _⟩
  rw [before]
  rfl

/-- The lock is released however the body ends. What the body establishes outlives it when the
other task, which may take the lock then, keeps it. -/
theorem spec_locked {body : TxProgram Hash α}
    (stable : ∀ value w w', P value w → Frame i w w' → P value w')
    (holds : ∀ w', Frame i w w' → Sound wallet chain w' → w'.holds i = true →
      spec wallet digest approveCall chain i true body P w') :
    spec wallet digest approveCall chain i false (locked body) P w := by
  refine bind_call fun w' rely inv ready input => ?_
  have free : w'.lock = none := Option.isNone_iff_eq_none.mp ready
  refine ⟨inv.relock, fun j other => relied_of_taken free other,
    (fun _ (same : Except.ok () = Except.error _) => by cases same), fun _ _ => ?_⟩
  have taken : TxWorld.holds i { w' with lock := some i } = true := by simp [TxWorld.holds]
  refine Concurrent.safe_bind (Concurrent.safe_attempt
    (Concurrent.safe_mono (holds _ (rely.frame.trans (Frame.relock i w' _)) inv.relock taken)
      fun result w'' inv post => ?_))
  refine bind_call fun last rely inv _ _ => ?_
  have held := rely.holds.trans post.1
  refine ⟨inv.relock, fun j other => relied_of_released held other,
    (fun _ (same : Except.ok () = Except.error _) => by cases same), fun _ _ => ?_⟩
  have released : TxWorld.holds i { last with lock := none } = false := rfl
  cases result with
  | error _ => exact spec_throw released
  | ok value =>
      refine spec_pure released fun w later _ => ?_
      have onward := (rely.frame.trans (Frame.relock i last none)).trans later.frame
      exact stable value w'' w (post.2 value rfl) onward

end Rules

end Tx

end LpMaker.Evm
