import LpMaker.Evm.TransactionRules

/-!
# Safety of the wallet

Whatever the worker does in between, wherever the process stops and whatever a node replies: an
operation gets a nonce of its own and is begun only when the one before it is mined, what is
broadcast is what is stored, and the registry of positions follows the mined transactions.
-/

namespace LpMaker.Evm

open Semantics

namespace Tx

variable {Hash : Type} {wallet : Wallet} {chain : Chain Hash} {w w' : TxWorld Hash}
  {i : Thread} {p p' : Pending Hash}

section Writes

theorem current_of_pending (pending : w.pending = some (.evm p)) : w.current = some p := by
  rw [TxWorld.current, pending]

theorem pending_of_current (busy : w.current = some p) : w.pending = some (.evm p) := by
  unfold TxWorld.current at busy
  cases pending : w.pending with
  | none =>
      rw [pending] at busy
      cases busy
  | some unresolved =>
      rw [pending] at busy
      cases unresolved with
      | evm q =>
          cases busy
          rfl
      | venue _ => cases busy

theorem current_of_none (pending : w.pending = none) : w.current = none := by
  rw [TxWorld.current, pending]

theorem earlier_of_none (free : w.current = none) : w.earlier = w.begun := by
  rw [TxWorld.earlier, free]

theorem earlier_of_some (busy : w.current = some p) : w.earlier = w.begun.tail := by
  rw [TxWorld.earlier, busy]

theorem eq_of_nonce {operations : List (Pending Hash)} {r r' : Pending Hash}
    (ordered : operations.Pairwise fun later earlier => earlier.nonce < later.nonce)
    (mem : r ∈ operations) (mem' : r' ∈ operations) (same : r.nonce = r'.nonce) : r = r' := by
  by_contra apart
  have rising : operations.Pairwise fun a b => a.nonce ≠ b.nonce :=
    ordered.imp fun below => below.ne'
  have symmetric : Std.Symm fun a b : Pending Hash => a.nonce ≠ b.nonce := ⟨fun _ _ => Ne.symm⟩
  exact rising.forall mem mem' apart same

/-- The main task writes the files, which the worker does not read but the nonce state. -/
theorem relied_of_nonce (lock : w'.lock = w.lock) (nonce : w'.nonce = w.nonce) :
    ∀ j, j ≠ Thread.main → Rely j w w' := by
  intro j other
  refine ⟨?_, fun _ => nonce, ?_, fun main => absurd main other⟩
  · rw [TxWorld.holds, TxWorld.holds, lock]
  · rw [TxWorld.floor, TxWorld.floor, nonce]

theorem Kept.of_files (inv : Sound wallet chain w') (lock : w'.lock = w.lock)
    (nonce : w'.nonce = w.nonce) : Kept wallet chain .main w w' :=
  ⟨inv, by rw [TxWorld.holds, TxWorld.holds, lock], relied_of_nonce lock nonce⟩

/-- Who holds the lock may raise the floor. -/
theorem Kept.writeNonce {state : NonceState Hash} (inv : Sound wallet chain w)
    (held : w.holds i = true) (raised : w.floor ≤ state.nextFloor) :
    Kept wallet chain i w { w with nonce := some state } := by
  have owned : w.lock = some i := by simpa [TxWorld.holds] using held
  refine ⟨⟨inv.ordered, inv.current, fun r mem => (inv.reserved r mem).trans_le raised,
    inv.settled, fun b mem => ?_, inv.mapped, inv.history⟩, rfl, fun j other => ?_⟩
  · obtain ⟨below, stored⟩ := inv.sent b mem
    exact ⟨below.trans_le raised, stored⟩
  · have apart : w.holds j = false := by simp [TxWorld.holds, owned, Ne.symm other]
    exact ⟨rfl, fun held => absurd (apart.symm.trans held) Bool.false_ne_true, raised,
      fun _ => ⟨rfl, rfl, rfl, rfl, rfl⟩⟩

theorem Sound.begin (inv : Sound wallet chain w) (free : w.pending = none)
    (fresh : ∀ r ∈ w.begun, r.nonce < p.nonce) (signed : p.root.raw.nonce = p.nonce)
    (new : p.replacements = []) : Sound wallet chain (w.store (.evm p)) := by
  have before : w.earlier = w.begun := earlier_of_none (current_of_none free)
  have after : (w.store (.evm p)).earlier = w.begun := rfl
  have begun : Continues p p := by
    have only : ∀ c ∈ p.candidates, c = p.root := by
      intro c mem
      rwa [Pending.candidates, new, List.mem_singleton] at mem
    exact ⟨rfl, rfl, rfl, fun c mem => only c mem ▸ signed, fun c mem => only c mem ▸ rfl⟩
  refine ⟨List.pairwise_cons.mpr ⟨fresh, inv.ordered⟩, fun p' same => ?_, ?_, ?_,
    fun b mem => ?_, .inl ?_, ?_⟩
  · cases same
    exact ⟨p, w.begun, rfl, begun⟩
  · rw [after, ← before]
    exact inv.reserved
  · rw [after, ← before]
    exact inv.settled
  · obtain ⟨below, p', stored, signed, r, mem, continues⟩ := inv.sent b mem
    exact ⟨below, p', stored, signed, r, List.mem_cons_of_mem _ mem, continues⟩
  · rw [after, ← before]
    rcases inv.mapped with mapped | ⟨p', busy, -⟩
    · exact mapped
    · rw [current_of_none free] at busy
      cases busy
  · rw [after, ← before]
    exact inv.history

/-- Only the other venue begins or ends an operation. -/
theorem Sound.vacant {value : Option (Unresolved Hash)} (inv : Sound wallet chain w)
    (free : w.current = none) (still : TxWorld.current { w with pending := value } = none) :
    Sound wallet chain { w with pending := value } := by
  have after : TxWorld.earlier { w with pending := value } = w.earlier :=
    (earlier_of_none still).trans (earlier_of_none free).symm
  refine ⟨inv.ordered, fun p same => ?_, after ▸ inv.reserved, after ▸ inv.settled, inv.sent,
    .inl ?_, after ▸ inv.history⟩
  · rw [still] at same
    cases same
  · rcases inv.mapped with mapped | ⟨p', busy, -⟩
    · exact after ▸ mapped
    · rw [free] at busy
      cases busy

/-- The operation of the wallet is stored again. -/
theorem Sound.update (inv : Sound wallet chain w) (pending : w.pending = some (.evm p))
    (root : p'.root = p.root) (nonce : p'.nonce = p.nonce) (operation : p'.operation = p.operation)
    (signed : ∀ c ∈ p'.candidates, c.raw.nonce = p'.nonce)
    (calls : ∀ c ∈ p'.candidates, c.raw.sameCall p'.root.raw) :
    Sound wallet chain { w with pending := some (.evm p') } := by
  have busy := current_of_pending pending
  have after : TxWorld.earlier { w with pending := some (.evm p') } = w.earlier :=
    (earlier_of_some busy).symm
  refine ⟨inv.ordered, fun p'' same => ?_, after ▸ inv.reserved, after ▸ inv.settled, inv.sent, ?_,
    after ▸ inv.history⟩
  · cases same
    obtain ⟨r, rest, begun, continues⟩ := inv.current p busy
    exact ⟨r, rest, begun, root.trans continues.root, nonce.trans continues.nonce,
      operation.trans continues.operation, signed, calls⟩
  · rcases inv.mapped with mapped | ⟨q, same, mined, mapped⟩
    · exact .inl (after ▸ mapped)
    · rw [busy] at same
      cases same
      exact .inr ⟨p', rfl, nonce ▸ mined, mapped⟩

/-- The operation of the wallet is over. -/
theorem Sound.settle (inv : Sound wallet chain w) (pending : w.pending = some (.evm p))
    (mined : (chain.mined p.nonce).isSome) (reserved : p.nonce < w.floor)
    (mapped : Mapped wallet chain w w.begun) (recorded : opens chain p → w.lpHistory = true) :
    Sound wallet chain { w with pending := none } := by
  have busy := current_of_pending pending
  obtain ⟨r, rest, begun, continues⟩ := inv.current p busy
  have before : w.earlier = rest := by rw [earlier_of_some busy, begun, List.tail_cons]
  have each : ∀ q ∈ w.begun, q = r ∨ q ∈ w.earlier := by
    intro q mem
    rw [begun, List.mem_cons] at mem
    rwa [before]
  refine ⟨inv.ordered, (fun _ same => by cases same), fun q mem => ?_, fun q mem => ?_, inv.sent,
    .inl mapped, fun q mem opened => ?_⟩
  · rcases each q mem with same | mem
    · rw [same, ← continues.nonce]
      exact reserved
    · exact inv.reserved q mem
  · rcases each q mem with same | mem
    · rw [same, ← continues.nonce]
      exact mined
    · exact inv.settled q mem
  · rcases each q mem with same | mem
    · refine recorded ?_
      rw [opens, continues.operation, succeeded, continues.nonce, ← same]
      exact opened
    · exact inv.history q mem opened

theorem applied_twice (kind : Kind) (r : Receipt Hash) (rows : String → Option String) :
    applied wallet kind r (applied wallet kind r rows) = applied wallet kind r rows := by
  cases kind with
  | mint layer =>
      simp only [applied]
      cases mintedId wallet r with
      | ok id => exact Function.update_idem _ _ _
      | error _ => rfl
  | burn layer => exact Function.update_idem _ _ _
  | approve _ _ _ | approveZero _ _ _ | increase | collect | swap => rfl

/-- What the mined operation leaves, whether or not its receipt was recorded before. -/
theorem Sound.applied_nfts {r : Receipt Hash} {tx : Signed} (inv : Sound wallet chain w)
    (pending : w.pending = some (.evm p)) (mined : chain.mined p.nonce = some (tx, r))
    (good : r.status = 1) :
    registry wallet chain w.begun = applied wallet p.operation.kind r w.nfts.lookup := by
  obtain ⟨root, rest, begun, continues⟩ := inv.current p (current_of_pending pending)
  have found : succeeded chain p = some r := by
    rw [succeeded, mined]
    exact Option.filter_eq_some_iff.mpr ⟨rfl, decide_eq_true good⟩
  have whole : registry wallet chain w.begun =
      applied wallet p.operation.kind r (registry wallet chain rest) := by
    rw [begun, registry, succeeded, ← continues.nonce, ← succeeded, found,
      continues.operation]
  rcases inv.mapped with mapped | ⟨-, -, -, mapped⟩
  · have before : w.earlier = rest := by
      rw [earlier_of_some (current_of_pending pending), begun, List.tail_cons]
    rw [whole, ← before, funext mapped]
  · rw [funext mapped, whole, applied_twice]

/-- A failed operation leaves the registry as it was. -/
theorem Sound.mapped_of_failed {r : Receipt Hash} {tx : Signed} (inv : Sound wallet chain w)
    (pending : w.pending = some (.evm p)) (mined : chain.mined p.nonce = some (tx, r))
    (failed : r.status ≠ 1) : Mapped wallet chain w w.begun ∧ ¬ opens chain p := by
  obtain ⟨root, rest, begun, continues⟩ := inv.current p (current_of_pending pending)
  have none : succeeded chain p = none := by
    rw [succeeded, mined]
    simp [failed]
  have whole : registry wallet chain w.begun = registry wallet chain w.earlier := by
    rw [earlier_of_some (current_of_pending pending), begun, List.tail_cons, registry,
      succeeded, ← continues.nonce, ← succeeded, none]
  refine ⟨?_, fun opened => ?_⟩
  · rcases inv.mapped with mapped | ⟨-, -, -, mapped⟩
    · exact fun layer => whole ▸ mapped layer
    · exact mapped
  · have here := opened.2
    rw [none] at here
    cases here

theorem Sound.writeNfts {ids : Registry} (inv : Sound wallet chain w)
    (pending : w.pending = some (.evm p)) (mined : (chain.mined p.nonce).isSome)
    (rows : ids.lookup = registry wallet chain w.begun) :
    Sound wallet chain { w with nfts := ids } :=
  ⟨inv.ordered, inv.current, inv.reserved, inv.settled, inv.sent,
    .inr ⟨p, current_of_pending pending, mined, fun layer => congrFun rows layer⟩, inv.history⟩

theorem Sound.writeLpHistory (inv : Sound wallet chain w) :
    Sound wallet chain { w with lpHistory := true } :=
  ⟨inv.ordered, inv.current, inv.reserved, inv.settled, inv.sent, inv.mapped, fun _ _ _ => rfl⟩

/-- What is broadcast is a candidate of the stored operation, whose nonce is reserved. -/
theorem Sound.broadcast {raw : Signed} (inv : Sound wallet chain w)
    (pending : w.pending = some (.evm p)) (reserved : raw.nonce < w.floor)
    (signed : ∃ c ∈ p.candidates, c.raw = raw) :
    Sound wallet chain { w with sent := ⟨raw, w.pending⟩ :: w.sent } := by
  refine ⟨inv.ordered, inv.current, inv.reserved, inv.settled, fun b mem => ?_, inv.mapped,
    inv.history⟩
  rcases List.mem_cons.mp mem with rfl | mem
  · obtain ⟨r, rest, begun, continues⟩ := inv.current p (current_of_pending pending)
    exact ⟨reserved, p, pending, signed, r, begun ▸ List.mem_cons_self, continues⟩
  · exact inv.sent b mem

end Writes

/-- The outcome of the stored operation is final. -/
structure Mined (chain : Chain Hash) (p : Pending Hash) (r : Receipt Hash) (w : TxWorld Hash) :
    Prop where
  pending : w.pending = some (.evm p)
  mined : ∃ tx, chain.mined p.nonce = some (tx, r)
  reserved : p.nonce < w.floor

/-- Whatever followed from the stored operation is recorded. -/
structure Recorded (wallet : Wallet) (chain : Chain Hash) (p : Pending Hash) (w : TxWorld Hash) :
    Prop where
  pending : w.pending = some (.evm p)
  mined : (chain.mined p.nonce).isSome
  reserved : p.nonce < w.floor
  mapped : Mapped wallet chain w w.begun
  history : opens chain p → w.lpHistory = true

theorem Mined.frame {r : Receipt Hash} (mined : Mined chain p r w) (frame : Frame .main w w') :
    Mined chain p r w' :=
  ⟨frame.pending.trans mined.pending, mined.mined, mined.reserved.trans_le frame.floor⟩

theorem Mined.isSome {r : Receipt Hash} (mined : Mined chain p r w) :
    (chain.mined p.nonce).isSome := by
  obtain ⟨tx, same⟩ := mined.mined
  rw [same]
  rfl

theorem Recorded.frame (recorded : Recorded wallet chain p w) (frame : Frame .main w w') :
    Recorded wallet chain p w' where
  pending := frame.pending.trans recorded.pending
  mined := recorded.mined
  reserved := recorded.reserved.trans_le frame.floor
  mapped := by
    intro layer
    rw [frame.nfts, frame.begun]
    exact recorded.mapped layer
  history := fun opened => frame.history.trans (recorded.history opened)

theorem Recorded.settle (recorded : Recorded wallet chain p w) (inv : Sound wallet chain w) :
    Sound wallet chain { w with pending := none } :=
  inv.settle recorded.pending recorded.mined recorded.reserved recorded.mapped recorded.history

/-- A reverted transaction leaves nothing to record. -/
theorem Mined.recorded_of_failed {r : Receipt Hash} (mined : Mined chain p r w)
    (inv : Sound wallet chain w) (failed : r.status ≠ 1) : Recorded wallet chain p w := by
  obtain ⟨tx, same⟩ := mined.mined
  obtain ⟨mapped, closed⟩ := inv.mapped_of_failed mined.pending same failed
  exact ⟨mined.pending, mined.isSome, mined.reserved, mapped, fun opened => absurd opened closed⟩

theorem lookup_insert_eq (ids : Registry) (layer id : String) :
    (ids.insert layer id).lookup = Function.update ids.lookup layer (some id) := by
  funext other
  by_cases same : other = layer
  · subst same
    rw [AList.lookup_insert, Function.update_self]
  · rw [AList.lookup_insert_ne same, Function.update_of_ne same]

theorem lookup_erase_eq (ids : Registry) (layer : String) :
    (ids.erase layer).lookup = Function.update ids.lookup layer none := by
  funext other
  by_cases same : other = layer
  · subst same
    rw [AList.lookup_erase, Function.update_self]
  · rw [AList.lookup_erase_ne same, Function.update_of_ne same]

section Programs

variable [DecidableEq Hash] {digest : Signed → Hash}
  {approveCall : Address → Word → List (BitVec 8)}

/-- Who holds the lock stores a state with a higher floor. -/
theorem bind_writeNonce {β : Type} {state : NonceState Hash} {rest : Unit → TxProgram Hash β}
    {R : β → TxWorld Hash → Prop} (held : w.holds i = true) (raised : w.floor ≤ state.nextFloor)
    (later : ∀ w', Frame i w w' → Sound wallet chain w' → w'.holds i = true →
      w'.floor = state.nextFloor →
      spec wallet digest approveCall chain i true (rest ()) R w') :
    spec wallet digest approveCall chain i true (call (.writeNonce state) >>= rest) R w := by
  have raised' : ∀ w', Rely i w w' → w'.floor ≤ state.nextFloor := by
    intro w' rely
    rw [TxWorld.floor, rely.nonce held]
    exact raised
  refine bind_write (fun w' => { w' with nonce := some state }) held (fun _ _ _ => rfl)
    (fun w' rely inv => Kept.writeNonce inv (rely.holds.trans held) (raised' w' rely))
    fun w' rely inv => ?_
  have kept := Kept.writeNonce inv (rely.holds.trans held) (raised' w' rely)
  refine later _ (rely.frame.trans ⟨raised' w' rely, fun _ => ⟨rfl, rfl, rfl, rfl, rfl⟩⟩) kept.inv
    (kept.holds.trans (rely.holds.trans held)) rfl

/-- Under the lock the loaded state is the stored one. -/
theorem spec_load (held : w.holds i = true) :
    spec wallet digest approveCall chain i true (load wallet)
      (fun state w' => Rely i w w' ∧ state.nextFloor = w.floor) w := by
  refine bind_ask (fun _ _ => rfl) held fun w₁ input rely₁ _ => ?_
  refine bind_lift (rely₁.holds.trans held) fun _ _ => ?_
  refine spec_pure (rely₁.holds.trans held) fun w₂ rely₂ _ => ⟨rely₁.trans rely₂, ?_⟩
  rw [TxWorld.floor, rely₁.nonce held]
  cases w.nonce with
  | none | some _ => rfl

theorem spec_report {held : Bool} {state : NonceState Hash} (mode : w.holds i = held) :
    spec wallet digest approveCall chain i held (report state) (fun _ w' => Rely i w w') w := by
  unfold report
  cases state.inflight with
  | none => exact spec_pure mode fun w' rely _ => rely
  | some op =>
      refine bind_ask (fun _ _ => rfl) mode fun w₁ _ rely₁ _ => ?_
      exact spec_pure (rely₁.holds.trans mode) fun w₂ rely₂ _ => rely₁.trans rely₂

omit [DecidableEq Hash] in
theorem floor_of_recoverPending {pending : Option (Unresolved Hash)} {s s' : NonceState Hash}
    (recovered : recoverPending wallet pending s = .ok s') :
    s.nextFloor ≤ s'.nextFloor ∧ ∀ p, pending = some (.evm p) → p.nonce < s'.nextFloor := by
  cases pending with
  | none =>
      cases recovered
      exact ⟨le_rfl, fun p same => by cases same⟩
  | some unresolved =>
      cases unresolved with
      | venue request =>
          cases recovered
          exact ⟨le_rfl, fun p same => by cases same⟩
      | evm p =>
          simp only [recoverPending, bind_eq_ok, pure_eq_ok, following] at recovered
          obtain ⟨-, -, next, ⟨-, -, rfl⟩, rfl⟩ := recovered
          refine ⟨le_max_left _ _, fun p' same => ?_⟩
          cases same
          exact lt_max_of_lt_right (Nat.lt_succ_self _)

omit [DecidableEq Hash] in
theorem floor_of_observe {s s' : NonceState Hash} {latest pending nowMs : Nat}
    (observed : s.observe latest pending nowMs = .ok s') : s.nextFloor ≤ s'.nextFloor := by
  simp only [NonceState.observe, check_bind_eq_ok, pure_eq_ok] at observed
  obtain ⟨-, rfl⟩ := observed
  exact le_max_left _ _

/-- A refresh raises the floor over every nonce which was used. -/
theorem spec_refresh (free : w.holds i = false) :
    spec wallet digest approveCall chain i false (refresh wallet) (fun state w' => Frame i w w' ∧
      w.floor ≤ state.nextFloor ∧ state.nextFloor ≤ w'.floor ∧
      ∀ p, i = .main → w.pending = some (.evm p) → p.nonce < state.nextFloor) w := by
  refine spec_locked (fun state w₁ w₂ post frame => ?_) fun w₀ frame₀ _ held₀ => ?_
  · obtain ⟨before, raised, stored, reserved⟩ := post
    exact ⟨before.trans frame, raised, stored.trans frame.floor, reserved⟩
  refine bind_ask (fun _ _ => rfl) held₀ fun w₁ _ rely₁ _ => ?_
  have held₁ := rely₁.holds.trans held₀
  refine bind_lift held₁ fun _ _ => ?_
  refine bind_ask (fun _ _ => rfl) held₁ fun w₂ _ rely₂ _ => ?_
  have held₂ := rely₂.holds.trans held₁
  refine bind_ask (fun _ _ => rfl) held₂ fun w₃ _ rely₃ _ => ?_
  have held₃ := rely₃.holds.trans held₂
  refine spec_bind (spec_load held₃) ?_
  rintro loaded w₄ - held₄ ⟨rely₄, same⟩
  refine bind_ask (fun _ _ => rfl) held₄ fun w₅ _ rely₅ _ => ?_
  have held₅ := rely₅.holds.trans held₄
  refine bind_lift held₅ fun observed observes => ?_
  refine bind_ask (fun _ _ => rfl) held₅ fun w₆ _ rely₆ _ => ?_
  have held₆ := rely₆.holds.trans held₅
  refine bind_lift held₆ fun state recovers => ?_
  obtain ⟨raised, reserved⟩ := floor_of_recoverPending recovers
  have frame₃ := ((frame₀.trans rely₁.frame).trans rely₂.frame).trans rely₃.frame
  have frame₆ := ((frame₃.trans rely₄.frame).trans rely₅.frame).trans rely₆.frame
  have nonce₆ : w₆.floor = w₃.floor := by
    rw [TxWorld.floor, TxWorld.floor, rely₆.nonce held₅, rely₅.nonce held₄, rely₄.nonce held₃]
  have lowest : w₆.floor ≤ state.nextFloor := by
    rw [nonce₆, ← same]
    exact (floor_of_observe observes).trans raised
  refine spec_bind (spec_report held₆) ?_
  rintro - w₇ - held₇ rely₇
  have lowest₇ : w₇.floor ≤ state.nextFloor := by
    rw [TxWorld.floor, rely₇.nonce held₆]
    exact lowest
  refine bind_writeNonce held₇ lowest₇ fun w₈ frame₈ _ held₈ stored => ?_
  refine spec_pure held₈ fun w₉ rely₉ _ => ?_
  refine ⟨((frame₆.trans rely₇.frame).trans frame₈).trans rely₉.frame,
    frame₆.floor.trans lowest, stored ▸ rely₉.frame.floor, fun p main pending => ?_⟩
  subst main
  exact reserved p (frame₆.pending.trans pending)

/-- A refresh leaves what the main task works on. -/
theorem spec_refreshed (free : w.holds i = false) :
    spec wallet digest approveCall chain i false (refreshed wallet)
      (fun _ w' => Frame i w w') w := by
  refine spec_bind (spec_refresh free) ?_
  rintro state w' - free ⟨frame, -⟩
  exact spec_pure free fun w'' rely _ => frame.trans rely.frame

theorem spec_refreshWhenDue (free : w.holds i = false) :
    spec wallet digest approveCall chain i false (refreshWhenDue wallet)
      (fun _ w' => Frame i w w') w := by
  refine bind_ask (fun _ _ => rfl) free fun w' input rely _ => ?_
  have free' := rely.holds.trans free
  split_ifs with due
  · exact spec_mono (spec_refreshed free') fun _ _ _ _ frame => rely.frame.trans frame
  · exact spec_pure free' fun w'' later _ => rely.frame.trans later.frame

/-- The next nonce is at least the floor, and nothing is pending. -/
theorem spec_next (free : w.holds .main = false) :
    spec wallet digest approveCall chain .main false (next wallet)
      (fun nonce w' => Frame .main w w' ∧ w.pending = none ∧ w.floor ≤ nonce) w := by
  refine bind_ask (fun _ _ => rfl) free fun w₁ _ rely₁ _ => ?_
  refine bind_lift (rely₁.holds.trans free) fun _ empty => ?_
  refine spec_bind (spec_refresh (rely₁.holds.trans free)) ?_
  rintro state w₂ - free₂ ⟨frame₂, raised, -⟩
  refine spec_last (bind_lift free₂ fun nonce available => ?_)
  refine spec_pure free₂ fun w₃ rely₃ _ =>
    ⟨(rely₁.frame.trans frame₂).trans rely₃.frame, ?_, ?_⟩
  · rw [← rely₁.frame.pending]
    exact Option.isNone_iff_eq_none.mp (ensure_eq_ok.mp empty)
  · simp only [NonceState.available, bind_eq_ok, ensure_eq_ok, pure_eq_ok] at available
    obtain ⟨-, -, -, -, -, above, rfl⟩ := available
    exact (rely₁.frame.floor.trans raised).trans above

/-- A nonce is reserved before it is used. -/
theorem spec_prepared {nonce : Nat} {hash : Hash} :
    spec wallet digest approveCall chain .main false (prepared wallet nonce hash)
      (fun _ w' => Frame .main w w' ∧ nonce < w'.floor) w := by
  refine spec_locked (fun _ w₁ w₂ post frame => ?_) fun w₀ frame₀ _ held₀ => ?_
  · exact ⟨post.1.trans frame, post.2.trans_le frame.floor⟩
  refine spec_bind (spec_load held₀) ?_
  rintro loaded w₁ - held₁ ⟨rely₁, same⟩
  refine bind_lift held₁ fun _ _ => bind_lift held₁ fun floor follows => ?_
  refine bind_ask (fun _ _ => rfl) held₁ fun w₂ _ rely₂ _ => ?_
  have held₂ := rely₂.holds.trans held₁
  have above : nonce < max loaded.nextFloor floor := by
    simp only [following, bind_eq_ok, pure_eq_ok] at follows
    obtain ⟨-, -, rfl⟩ := follows
    exact lt_max_of_lt_right (Nat.lt_succ_self _)
  have raised : w₂.floor ≤ max loaded.nextFloor floor := by
    rw [TxWorld.floor, rely₂.nonce held₁, rely₁.nonce held₀]
    exact same.symm.le.trans (le_max_left _ _)
  refine bind_writeNonce held₂ raised fun w₃ frame₃ _ held₃ stored => ?_
  refine spec_last (bind_record held₃ fun w₄ rely₄ _ => ?_)
  refine spec_pure (rely₄.holds.trans held₃) fun w₅ rely₅ _ => ?_
  have frame₂ := (frame₀.trans rely₁.frame).trans rely₂.frame
  refine ⟨((frame₂.trans frame₃).trans rely₄.frame).trans rely₅.frame, ?_⟩
  exact above.trans_le (stored.symm.le.trans (rely₄.frame.floor.trans rely₅.frame.floor))

theorem spec_checkReserved {held : Bool} {state : NonceState Hash} {hash : Hash}
    (mode : w.holds i = held) :
    spec wallet digest approveCall chain i held (checkReserved state hash)
      (fun _ w' => Rely i w w') w := by
  unfold checkReserved
  cases state.inflight with
  | none => exact spec_pure mode fun w' rely _ => rely
  | some op =>
      refine bind_ask (fun _ _ => rfl) mode fun w₁ _ rely₁ _ => ?_
      refine spec_last (bind_lift (rely₁.holds.trans mode) fun _ _ => ?_)
      exact spec_pure (rely₁.holds.trans mode) fun w₂ rely₂ _ => rely₁.trans rely₂

/-- A reservation ends together with the stored operation. -/
theorem spec_confirmed {hash : Hash} (recorded : Recorded wallet chain p w) :
    spec wallet digest approveCall chain .main false (confirmed wallet hash)
      (fun _ _ => True) w := by
  refine spec_locked (fun _ _ _ _ _ => trivial) fun w₀ frame₀ _ held₀ => ?_
  refine spec_bind (spec_load held₀) ?_
  rintro loaded w₁ - held₁ ⟨rely₁, same⟩
  refine spec_bind (spec_checkReserved held₁) ?_
  rintro - w₂ - held₂ rely₂
  have kept : w₂.floor ≤ loaded.nextFloor := by
    rw [TxWorld.floor, rely₂.nonce held₁, rely₁.nonce held₀]
    exact same.symm.le
  refine bind_writeNonce held₂ kept fun w₃ frame₃ _ held₃ _ => ?_
  refine bind_record held₃ fun w₄ rely₄ _ => ?_
  have held₄ := rely₄.holds.trans held₃
  refine bind_record held₄ fun w₅ rely₅ _ => ?_
  have held₅ := rely₅.holds.trans held₄
  have frame₃ := ((frame₀.trans rely₁.frame).trans rely₂.frame).trans frame₃
  have recorded₅ := recorded.frame ((frame₃.trans rely₄.frame).trans rely₅.frame)
  refine spec_last (bind_write (fun w' => { w' with pending := none }) held₅
    (fun _ _ _ => rfl) (fun w' rely inv => ?_) fun w₆ rely₆ _ => ?_)
  · exact Kept.of_files ((recorded₅.frame rely.frame).settle inv) rfl rfl
  · exact spec_pure (rely₆.holds.trans held₅) fun _ _ _ => trivial

theorem spec_recordLpHistory {r : Receipt Hash} (mined : Mined chain p r w)
    (free : w.holds .main = false) :
    spec wallet digest approveCall chain .main false recordLpHistory (fun _ w' =>
      Mined chain p r w' ∧ w'.nfts = w.nfts ∧ w'.begun = w.begun ∧ w'.lpHistory = true) w := by
  refine bind_ask (fun _ _ => rfl) free fun w₁ _ rely₁ _ => ?_
  have free₁ := rely₁.holds.trans free
  have mined₁ := mined.frame rely₁.frame
  by_cases opened : w₁.lpHistory = true
  · rw [if_pos opened]
    refine spec_pure free₁ fun w₂ rely₂ _ => ⟨mined₁.frame rely₂.frame,
      rely₂.frame.nfts.trans rely₁.frame.nfts, rely₂.frame.begun.trans rely₁.frame.begun,
      rely₂.frame.history.trans opened⟩
  · rw [if_neg opened]
    refine spec_last (bind_write (fun w' => { w' with lpHistory := true }) free₁
      (fun _ _ _ => rfl) (fun w' _ inv => Kept.of_files inv.writeLpHistory rfl rfl)
      fun w₂ rely₂ _ => ?_)
    refine spec_pure (rely₂.holds.trans free₁) fun w₃ rely₃ _ => ?_
    have mined₂ := mined₁.frame rely₂.frame
    have written : Mined chain p r { w₂ with lpHistory := true } :=
      ⟨mined₂.pending, mined₂.mined, mined₂.reserved⟩
    exact ⟨written.frame rely₃.frame,
      (rely₃.frame.nfts.trans rely₂.frame.nfts).trans rely₁.frame.nfts,
      (rely₃.frame.begun.trans rely₂.frame.begun).trans rely₁.frame.begun, rely₃.frame.history⟩

theorem spec_writeNfts {r : Receipt Hash} {ids : Registry} (mined : Mined chain p r w)
    (free : w.holds .main = false) (rows : ids.lookup = registry wallet chain w.begun)
    (history : opens chain p → w.lpHistory = true) :
    spec wallet digest approveCall chain .main false (call (.writeNfts ids))
      (fun _ w' => Recorded wallet chain p w') w := by
  refine spec_last (bind_write (fun w' => { w' with nfts := ids }) free
    (fun _ _ _ => rfl) (fun w' rely inv => Kept.of_files ?_ rfl rfl) fun w₁ rely₁ _ => ?_)
  · exact inv.writeNfts (mined.frame rely.frame).pending mined.isSome (rely.frame.begun ▸ rows)
  · have mined₁ := mined.frame rely₁.frame
    refine spec_pure (rely₁.holds.trans free) fun w₂ rely₂ _ => Recorded.frame ?_ rely₂.frame
    exact ⟨mined₁.pending, mined.isSome, mined₁.reserved,
      fun layer => (congrFun rows layer).trans (by rw [rely₁.frame.begun]),
      fun opened => rely₁.frame.history.trans (history opened)⟩

/-- The receipt of a successful operation moves the registry to what it leaves. -/
theorem spec_recordReceipt {r : Receipt Hash} (mined : Mined chain p r w)
    (free : w.holds .main = false) (good : r.status = 1) :
    spec wallet digest approveCall chain .main false (recordReceipt wallet r p.operation)
      (fun _ w' => Recorded wallet chain p w') w := by
  obtain ⟨tx, same⟩ := mined.mined
  refine bind_ask (fun _ _ => rfl) free fun w₁ _ rely₁ inv₁ => ?_
  have free₁ := rely₁.holds.trans free
  have mined₁ := mined.frame rely₁.frame
  have rows := inv₁.applied_nfts mined₁.pending same good
  have closed (other : ∀ layer, p.operation.kind ≠ .mint layer) (opened : opens chain p) :
      w₁.lpHistory = true := by
    obtain ⟨⟨layer, same⟩, -⟩ := opened
    exact absurd same (other layer)
  cases kind : p.operation.kind with
  | mint layer =>
      rw [kind] at rows
      refine bind_lift free₁ fun id created => ?_
      simp only [applied, created] at rows
      refine spec_bind (spec_recordLpHistory mined₁ free₁) ?_
      rintro - w₂ - free₂ ⟨mined₂, nfts, begun, history⟩
      refine spec_writeNfts mined₂ free₂ ?_ fun _ => history
      rw [begun, rows, lookup_insert_eq]
  | burn layer =>
      rw [kind] at rows
      refine spec_writeNfts mined₁ free₁ ?_ (closed fun _ same => by cases kind.symm.trans same)
      rw [rows, lookup_erase_eq]
      rfl
  | approve _ _ _ | approveZero _ _ _ | increase | collect | swap =>
      rw [kind] at rows
      exact spec_writeNfts mined₁ free₁ rows.symm
        (closed fun _ same => by cases kind.symm.trans same)

/-- A receipt of a candidate, and what it means when its block is in the chain. -/
structure Seen (chain : Chain Hash) (p : Pending Hash) (r : Receipt Hash) (w : TxWorld Hash) :
    Prop where
  pending : w.pending = some (.evm p)
  final : r.blockHash = chain.blockHash r.blockNumber → ∃ tx, chain.mined p.nonce = some (tx, r)
  reserved : p.nonce < w.floor

/-- A candidate of the stored operation has this hash. -/
def Own (digest : Signed → Hash) (p : Pending Hash) (hash : Hash) : Prop :=
  ∃ c ∈ p.candidates, digest c.raw = hash

omit [DecidableEq Hash] in
theorem Seen.frame {r : Receipt Hash} (seen : Seen chain p r w) (frame : Frame .main w w') :
    Seen chain p r w' :=
  ⟨frame.pending.trans seen.pending, seen.final, seen.reserved.trans_le frame.floor⟩

/-- Only what was broadcast has a receipt, and only the candidate has its hash. -/
theorem seen_of_receiptOf {hash : Hash} {shown : Option (Receipt Hash)} {r : Receipt Hash}
    (injective : Function.Injective digest) (inv : Sound wallet chain w)
    (pending : w.pending = some (.evm p)) (own : Own digest p hash)
    (replied : TxWorld.receiptOf digest chain w hash shown = some r) : Seen chain p r w := by
  obtain ⟨-, found⟩ := Option.filter_eq_some_iff.mp replied
  obtain ⟨b, sent, holds⟩ := List.any_eq_true.mp found
  obtain ⟨same, final⟩ := of_decide_eq_true holds
  obtain ⟨c, mem, candidate⟩ := own
  obtain ⟨root, rest, begun, continues⟩ := inv.current p (current_of_pending pending)
  have raw : b.raw = c.raw := injective (same.trans candidate.symm)
  have nonce : b.raw.nonce = p.nonce := by rw [raw, continues.candidates c mem]
  refine ⟨pending, fun canonical => ⟨b.raw, ?_⟩, ?_⟩
  · rw [← nonce]
    exact final canonical
  · rw [← nonce]
    exact (inv.sent b sent).1

theorem spec_settle {hash : Hash} {r : Receipt Hash} (seen : Seen chain p r w)
    (free : w.holds .main = false) :
    spec wallet digest approveCall chain .main false (settle wallet hash r p.operation)
      (fun _ _ => True) w := by
  refine bind_ask (fun _ _ => rfl) free fun w₁ _ rely₁ inv₁ => ?_
  have free₁ := rely₁.holds.trans free
  refine bind_lift free₁ fun _ canonical => ?_
  have seen₁ := seen.frame rely₁.frame
  have mined : Mined chain p r w₁ :=
    ⟨seen₁.pending, seen₁.final (ensure_eq_ok.mp canonical).symm, seen₁.reserved⟩
  by_cases good : r.status = 1
  · rw [if_pos good]
    refine spec_bind (spec_recordReceipt mined free₁ good) fun _ w₂ _ free₂ recorded => ?_
    refine spec_bind (spec_confirmed recorded) fun _ w₃ _ free₃ _ => ?_
    exact spec_pure free₃ fun _ _ _ => trivial
  · rw [if_neg good]
    have recorded := mined.recorded_of_failed inv₁ good
    exact spec_bind (spec_confirmed recorded) fun _ _ _ free₂ _ => spec_throw free₂

/-- Where no receipt is ready the operation stays as it is. -/
theorem spec_poll (injective : Function.Injective digest) (hashes : List Hash)
    (pending : w.pending = some (.evm p)) (own : ∀ hash ∈ hashes, Own digest p hash)
    (free : w.holds .main = false) :
    spec wallet digest approveCall chain .main false (poll wallet p.operation hashes)
      (fun outcome w' => outcome = none → w'.pending = some (.evm p)) w := by
  induction hashes generalizing w with
  | nil => exact spec_pure free fun w' rely _ _ => rely.frame.pending.trans pending
  | cons hash rest inductionHypothesis =>
      obtain ⟨here, others⟩ := List.forall_mem_cons.mp own
      refine bind_ask (fun _ _ => rfl) free fun w₁ input rely₁ inv₁ => ?_
      have free₁ := rely₁.holds.trans free
      have pending₁ := rely₁.frame.pending.trans pending
      cases replied : TxWorld.receiptOf digest chain w₁ hash input.receipt with
      | none => exact inductionHypothesis pending₁ others free₁
      | some r =>
          have seen := seen_of_receiptOf injective inv₁ pending₁ here replied
          refine bind_lift free₁ fun _ _ => ?_
          refine bind_ask (fun _ _ => rfl) free₁ fun w₂ height rely₂ _ => ?_
          have free₂ := rely₂.holds.trans free₁
          by_cases deep : height.number ≥ r.blockNumber + wallet.confirmations
          · rw [if_pos deep]
            refine spec_bind (spec_settle (seen.frame rely₂.frame) free₂) fun _ w₃ _ free₃ _ => ?_
            exact spec_pure free₃ fun _ _ _ same => by cases same
          · rw [if_neg deep]
            exact inductionHypothesis (rely₂.frame.pending.trans pending₁) others free₂

theorem spec_pollAttempts (injective : Function.Injective digest) {hashes : List Hash}
    (attempts : Nat) (pending : w.pending = some (.evm p))
    (own : ∀ hash ∈ hashes, Own digest p hash) (free : w.holds .main = false) :
    spec wallet digest approveCall chain .main false
      (pollAttempts wallet p.operation hashes attempts) (fun _ _ => True) w := by
  induction attempts generalizing w with
  | zero => exact spec_throw free
  | succ attempts inductionHypothesis =>
      refine spec_bind (spec_refreshWhenDue free) fun _ w₁ _ free₁ frame₁ => ?_
      have pending₁ := frame₁.pending.trans pending
      refine spec_bind (spec_poll injective hashes pending₁ own free₁) ?_
      intro outcome w₂ _ free₂ still
      cases outcome with
      | some r => exact spec_pure free₂ fun _ _ _ => trivial
      | none => exact inductionHypothesis (still rfl) free₂

theorem decode_eq_ok {c : Candidate Hash} {tx : Signed} :
    decode digest c = .ok tx ↔ c.hash = digest c.raw ∧ c.raw = tx := by
  simp only [decode, check_bind_eq_ok, ensure_eq_ok, pure_eq_ok]

/-- What was validated is what is asked for. -/
theorem own_of_validated {all : List Hash}
    (validated : validatedPendingHashes wallet digest p = .ok all) :
    ∀ hash ∈ all, Own digest p hash := by
  simp only [validatedPendingHashes, validateReplacement, hashes, bind_eq_ok, decode_eq_ok,
    forM_eq_ok, pure_eq_ok] at validated
  obtain ⟨-, -, root, ⟨same, -⟩, -, -, each, ⟨-, -, rfl⟩, -, replacements, rfl⟩ := validated
  intro hash mem
  obtain ⟨c, candidate, rfl⟩ := List.mem_map.mp mem
  refine ⟨c, candidate, ?_⟩
  rcases List.mem_cons.mp candidate with rfl | replacement
  · exact same.symm
  · obtain ⟨tx, ⟨same, -⟩, -⟩ := replacements c replacement
    exact same.symm

theorem spec_waitReceipt (injective : Function.Injective digest) {hash : Hash}
    (pending : w.pending = some (.evm p)) (free : w.holds .main = false) :
    spec wallet digest approveCall chain .main false (waitReceipt wallet digest hash p.operation)
      (fun _ _ => True) w := by
  refine bind_ask (fun _ _ => rfl) free fun w₁ _ rely₁ _ => ?_
  have free₁ := rely₁.holds.trans free
  have pending₁ := rely₁.frame.pending.trans pending
  refine bind_lift free₁ fun all asked => ?_
  rw [pending₁] at asked
  simp only [awaited, bind_eq_ok, pure_eq_ok] at asked
  obtain ⟨_, validated, -, -, rfl⟩ := asked
  exact spec_pollAttempts injective 90 pending₁ (own_of_validated validated) free₁

/-- A transaction is handed to the network once it is stored and its nonce is reserved. -/
theorem spec_broadcast {hash : Hash} {raw : Signed} (pending : w.pending = some (.evm p))
    (reserved : raw.nonce < w.floor) (signed : ∃ c ∈ p.candidates, c.raw = raw)
    (free : w.holds .main = false) :
    spec wallet digest approveCall chain .main false (broadcast hash raw)
      (fun _ w' => w'.pending = some (.evm p)) w := by
  intro w₁ rely₁ inv₁ _ input
  have free₁ := rely₁.holds.trans free
  have pending₁ := rely₁.frame.pending.trans pending
  have sent := inv₁.broadcast pending₁ (reserved.trans_le rely₁.frame.floor) signed
  have kept : Kept wallet chain .main w₁ { w₁ with sent := ⟨raw, w₁.pending⟩ :: w₁.sent } :=
    Kept.of_files sent rfl rfl
  have stepped : (system wallet digest approveCall chain).step .main (.sendRawTransaction raw)
      input w₁ = TxWorld.ask input input.sent _ := rfl
  unfold TxWorld.ask at stepped
  cases failed : input.failure with
  | none =>
      rw [failed] at stepped
      rw [stepped]
      refine ⟨kept.inv, kept.guarantee, ?_⟩
      refine bind_lift free₁ fun _ _ => spec_last (bind_record free₁ fun w₂ rely₂ _ => ?_)
      exact spec_pure (rely₂.holds.trans free₁) fun w₃ rely₃ _ =>
        rely₃.frame.pending.trans (rely₂.frame.pending.trans pending₁)
  | some message =>
      rw [failed] at stepped
      rw [stepped]
      refine ⟨kept.inv, kept.guarantee, ?_⟩
      refine bind_ask (fun _ _ => rfl) free₁ fun w₂ _ rely₂ _ => ?_
      have free₂ := rely₂.holds.trans free₁
      have pending₂ := rely₂.frame.pending.trans pending₁
      rw [pending₂]
      refine bind_lift free₂ fun stored same => ?_
      cases same
      refine bind_write (fun w' => { w' with pending := some (.evm _) }) free₂
        (fun _ _ _ => rfl) (fun w' rely inv => Kept.of_files ?_ rfl rfl) fun w₃ rely₃ inv₃ => ?_
      · have pending' := rely.frame.pending.trans pending₂
        obtain ⟨root, rest, _, continues⟩ := inv.current p (current_of_pending pending')
        exact inv.update pending' rfl rfl rfl continues.candidates continues.calls
      · have free₃ := rely₃.holds.trans free₂
        exact bind_record free₃ fun w₄ rely₄ _ => spec_throw (rely₄.holds.trans free₃)

theorem spec_freshQuote {operation : Operation} (free : w.holds i = false) :
    spec wallet digest approveCall chain i false (freshQuote wallet operation)
      (fun _ w' => Frame i w w') w := by
  unfold freshQuote
  cases operation.quoteTimeMs with
  | none => exact spec_pure free fun w' rely _ => rely.frame
  | some quoteTime =>
      refine bind_ask (fun _ _ => rfl) free fun w₁ _ rely₁ _ => ?_
      refine spec_last (bind_lift (rely₁.holds.trans free) fun _ _ => ?_)
      exact spec_pure (rely₁.holds.trans free) fun w₂ rely₂ _ => rely₁.frame.trans rely₂.frame

theorem spec_estimateFees (free : w.holds i = false) :
    spec wallet digest approveCall chain i false (estimateFees wallet)
      (fun _ w' => Frame i w w') w := by
  refine bind_ask (fun _ _ => rfl) free fun w₁ _ rely₁ _ => ?_
  refine spec_last (bind_lift (rely₁.holds.trans free) fun _ _ => ?_)
  exact spec_pure (rely₁.holds.trans free) fun w₂ rely₂ _ => rely₁.frame.trans rely₂.frame

/-- An operation is begun only where nothing is pending. -/
theorem bind_begin {β : Type} {value : Unresolved Hash} {rest : Unit → TxProgram Hash β}
    {R : β → TxWorld Hash → Prop} (free : w.holds .main = false)
    (fits : ∀ w', Rely .main w w' → Sound wallet chain w' → w'.pending = none →
      Sound wallet chain (w'.store value))
    (later : ∀ w', Rely .main w w' → Sound wallet chain w' → w'.pending = none →
      spec wallet digest approveCall chain .main false (rest ()) R (w'.store value)) :
    spec wallet digest approveCall chain .main false (call (.begin value) >>= rest) R w := by
  refine bind_call fun w' rely inv _ input => ?_
  have free' := rely.holds.trans free
  cases pending : w'.pending with
  | some stored =>
      simp only [TxWorld.step, pending]
      exact ⟨inv, fun j _ => Rely.refl j w', fun _ _ => free', fun _ same => by cases same⟩
  | none =>
      have kept : Kept wallet chain .main w' (w'.store value) :=
        Kept.of_files (fits w' rely inv pending) rfl rfl
      simp only [TxWorld.step, pending, TxWorld.write]
      cases input.failure with
      | none =>
          exact ⟨kept.inv, kept.guarantee, fun _ _ => free', fun _ _ => later w' rely inv pending⟩
      | some message =>
          dsimp only
          split_ifs with applied
          · exact ⟨kept.inv, kept.guarantee, fun _ _ => free', fun _ same => by cases same⟩
          · exact ⟨inv, fun j _ => Rely.refl j w', fun _ _ => free', fun _ same => by cases same⟩

theorem spec_send {target : Address} {data : List (BitVec 8)} {operation : Operation}
    (injective : Function.Injective digest) (free : w.holds .main = false) :
    spec wallet digest approveCall chain .main false (send wallet digest target data operation)
      (fun _ _ => True) w := by
  refine spec_bind (spec_freshQuote free) fun _ w₁ _ free₁ _ => bind_lift free₁ fun _ _ => ?_
  refine bind_ask (fun _ _ => rfl) free₁ fun w₂ _ rely₂ inv₂ => ?_
  have free₂ := rely₂.holds.trans free₁
  refine bind_lift free₂ fun _ _ => spec_bind (spec_next free₂) ?_
  rintro nonce w₃ - free₃ ⟨frame₃, empty, above⟩
  have fresh : ∀ r ∈ w₃.begun, r.nonce < nonce := by
    rw [frame₃.begun, ← earlier_of_none (current_of_none empty)]
    exact fun r mem => (inv₂.reserved r mem).trans_le above
  refine bind_ask (fun _ _ => rfl) free₃ fun w₄ _ rely₄ _ => ?_
  have free₄ := rely₄.holds.trans free₃
  refine bind_ask (fun _ _ => rfl) free₄ fun w₅ _ rely₅ _ => ?_
  have free₅ := rely₅.holds.trans free₄
  refine bind_lift free₅ fun gas _ => ?_
  refine spec_bind (spec_estimateFees free₅) fun fees w₆ _ free₆ frame₆ => ?_
  refine bind_ask (fun _ _ => rfl) free₆ fun w₇ _ rely₇ _ => ?_
  refine spec_bind (spec_freshQuote (rely₇.holds.trans free₆)) fun _ w₈ _ free₈ frame₈ => ?_
  refine bind_ask (fun _ _ => rfl) free₈ fun w₉ now rely₉ _ => ?_
  have free₉ := rely₉.holds.trans free₈
  have frame₅ := rely₄.frame.trans rely₅.frame
  have frame₉ := (((frame₅.trans frame₆).trans rely₇.frame).trans frame₈).trans rely₉.frame
  refine bind_begin free₉ (fun w' rely inv pending => ?_) fun w₁₀ rely₁₀ _ _ => ?_
  · exact inv.begin pending ((frame₉.trans rely.frame).begun ▸ fresh) rfl rfl
  refine bind_record (rely₁₀.holds.trans free₉) fun w₁₁ rely₁₁ _ => ?_
  have pending₁₁ : w₁₁.pending = some (.evm _) := rely₁₁.frame.pending
  refine spec_bind spec_prepared ?_
  rintro - w₁₂ - free₁₂ ⟨frame₁₂, reserved⟩
  have pending₁₂ := frame₁₂.pending.trans pending₁₁
  refine spec_bind (spec_broadcast pending₁₂ reserved ⟨_, List.mem_cons_self, rfl⟩ free₁₂) ?_
  intro _ w₁₃ _ free₁₃ pending₁₃
  exact spec_waitReceipt injective pending₁₃ free₁₃

theorem spec_lookUp (all : List Hash) (known : Bool) (free : w.holds i = false) :
    spec wallet digest approveCall chain i false (lookUp all known)
      (fun _ w' => Frame i w w') w := by
  induction all generalizing known w with
  | nil => exact spec_pure free fun w' rely _ => rely.frame
  | cons hash rest inductionHypothesis =>
      refine bind_ask (fun _ _ => rfl) free fun w₁ input rely₁ _ => ?_
      have free₁ := rely₁.holds.trans free
      split_ifs with mined
      · exact spec_pure free₁ fun w₂ rely₂ _ => rely₁.frame.trans rely₂.frame
      refine bind_ask (fun _ _ => rfl) free₁ fun w₂ input rely₂ _ => ?_
      have free₂ := rely₂.holds.trans free₁
      have frame₂ := rely₁.frame.trans rely₂.frame
      cases input.hash with
      | none => exact spec_mono (inductionHypothesis known free₂) fun _ _ _ _ => frame₂.trans
      | some other =>
          refine bind_lift free₂ fun _ _ => ?_
          exact spec_mono (inductionHypothesis true free₂) fun _ _ _ _ => frame₂.trans

theorem root_of_latestApproval {token : Address} {data : List (BitVec 8)} {latest : Signed}
    (valid : latestApproval wallet digest p token data = .ok latest) :
    p.root.raw = ⟨wallet.chainId, wallet.owner, p.nonce, p.root.raw.gas, token, data,
      p.root.raw.fees⟩ := by
  simp only [latestApproval, validateApproval, bind_eq_ok, decode_eq_ok, ensure_eq_ok] at valid
  obtain ⟨original, ⟨-, rfl⟩, -, ⟨-, ⟨chainId, nonce⟩, -, signer, -, ⟨target, call⟩, -⟩, -⟩ := valid
  rw [← chainId, ← nonce, ← signer, ← target, ← call]

/-- A replacement is the same call with other fees. -/
theorem spec_signReplacement {token : Address} {data : List (BitVec 8)} {latest : Signed}
    {all : List Hash} (root : p.root.raw = ⟨wallet.chainId, wallet.owner, p.nonce,
      p.root.raw.gas, token, data, p.root.raw.fees⟩) (free : w.holds i = false) :
    spec wallet digest approveCall chain i false
      (signReplacement wallet digest p token data latest all)
      (fun raw w' => Frame i w w' ∧ raw.nonce = p.nonce ∧ raw.sameCall p.root.raw) w := by
  refine bind_ask (fun _ _ => rfl) free fun w₁ _ rely₁ _ => ?_
  have free₁ := rely₁.holds.trans free
  refine bind_ask (fun _ _ => rfl) free₁ fun w₂ _ rely₂ _ => ?_
  have free₂ := rely₂.holds.trans free₁
  refine bind_lift free₂ fun _ _ => ?_
  refine spec_bind (spec_estimateFees free₂) fun fees w₃ _ free₃ frame₃ => ?_
  refine bind_lift free₃ fun raised _ => ?_
  refine bind_ask (fun _ _ => rfl) free₃ fun w₄ _ rely₄ _ => ?_
  have free₄ := rely₄.holds.trans free₃
  have frame₄ := ((rely₁.frame.trans rely₂.frame).trans frame₃).trans rely₄.frame
  refine bind_lift free₄ fun _ _ => ?_
  exact spec_pure free₄ fun w₅ rely₅ _ => ⟨frame₄.trans rely₅.frame, rfl, root.symm⟩

theorem spec_retryApproval {expected : Hash} (injective : Function.Injective digest)
    (free : w.holds .main = false) :
    spec wallet digest approveCall chain .main false
      (retryApproval wallet digest approveCall expected) (fun _ _ => True) w := by
  refine bind_ask (fun _ _ => rfl) free fun w₁ _ rely₁ _ => ?_
  have free₁ := rely₁.holds.trans free
  refine bind_lift free₁ fun p stored => ?_
  have pending₁ : w₁.pending = some (.evm p) := by
    cases pending : w₁.pending with
    | none =>
        rw [pending] at stored
        cases stored
    | some unresolved =>
        rw [pending] at stored
        cases unresolved with
        | evm q =>
            cases stored
            rfl
        | venue _ => cases stored
  refine bind_lift free₁ fun _ _ => bind_lift free₁ fun _ _ => bind_lift free₁ fun approved _ => ?_
  obtain ⟨token, data⟩ := approved
  refine bind_lift free₁ fun latest valid => bind_lift free₁ fun all _ => ?_
  refine bind_ask (fun _ _ => rfl) free₁ fun w₂ _ rely₂ _ => ?_
  have free₂ := rely₂.holds.trans free₁
  refine bind_lift free₂ fun _ _ => spec_bind (spec_lookUp all false free₂) ?_
  rintro ⟨mined, known⟩ w₃ - free₃ frame₃
  have pending₃ := (rely₂.frame.trans frame₃).pending.trans pending₁
  dsimp only
  split_ifs with found
  · exact spec_waitReceipt injective pending₃ free₃
  refine spec_bind (spec_refresh free₃) ?_
  rintro state w₄ - free₄ ⟨frame₄, -, stored₄, reserved⟩
  have reserved₄ := (reserved p rfl pending₃).trans_le stored₄
  refine bind_lift free₄ fun _ _ =>
    spec_bind (spec_signReplacement (root_of_latestApproval valid) free₄) ?_
  rintro raw w₅ - free₅ ⟨frame₅, nonce, call⟩
  have pending₅ := (frame₄.trans frame₅).pending.trans pending₃
  refine bind_write (fun w' => { w' with pending := some (.evm _) }) free₅
    (fun _ _ _ => rfl) (fun w' rely inv => Kept.of_files ?_ rfl rfl) fun w₆ rely₆ _ => ?_
  · have pending' := rely.frame.pending.trans pending₅
    obtain ⟨root, rest, -, continues⟩ := inv.current p (current_of_pending pending')
    have each : ∀ c ∈ p.candidates ++ [⟨digest raw, raw⟩],
        c ∈ p.candidates ∨ c = ⟨digest raw, raw⟩ := by
      intro c mem
      exact (List.mem_append.mp mem).imp_right List.mem_singleton.mp
    refine inv.update pending' rfl rfl rfl (fun c mem => ?_) fun c mem => ?_
    · rcases each c mem with before | rfl
      · exact continues.candidates c before
      · exact nonce
    · rcases each c mem with before | rfl
      · exact continues.calls c before
      · exact call
  refine bind_record (rely₆.holds.trans free₅) fun w₇ rely₇ _ => ?_
  have free₇ := rely₇.holds.trans (rely₆.holds.trans free₅)
  have pending₇ : w₇.pending = some (.evm _) := rely₇.frame.pending
  have reserved₇ : raw.nonce < w₇.floor := nonce ▸ reserved₄.trans_le
    ((frame₅.trans rely₆.frame).floor.trans rely₇.frame.floor)
  have signed : (⟨digest raw, raw⟩ : Candidate Hash) ∈
      p.root :: (p.replacements ++ [⟨digest raw, raw⟩]) :=
    List.mem_cons_of_mem _ (List.mem_append_right _ List.mem_cons_self)
  refine spec_bind (spec_broadcast pending₇ reserved₇ ⟨_, signed, rfl⟩ free₇) ?_
  intro _ w₈ _ free₈ pending₈
  exact spec_waitReceipt (p := { p with replacements := p.replacements ++ [⟨digest raw, raw⟩] })
    injective pending₈ free₈

theorem spec_reconcile (injective : Function.Injective digest) (free : w.holds .main = false) :
    spec wallet digest approveCall chain .main false (reconcile wallet digest)
      (fun _ _ => True) w := by
  refine bind_ask (fun _ _ => rfl) free fun w₁ _ rely₁ _ => ?_
  have free₁ := rely₁.holds.trans free
  cases pending₁ : w₁.pending with
  | none => exact spec_pure free₁ fun _ _ _ => trivial
  | some unresolved =>
      cases unresolved with
      | evm p =>
          refine bind_lift free₁ fun _ _ => ?_
          refine spec_bind (spec_waitReceipt injective pending₁ free₁) fun _ w₂ _ free₂ _ => ?_
          exact spec_pure free₂ fun _ _ _ => trivial
      | venue request =>
          refine bind_record free₁ fun w₂ rely₂ _ => ?_
          have free₂ := rely₂.holds.trans free₁
          refine spec_last (bind_write (fun w' => { w' with pending := none }) free₂
            (fun _ _ _ => rfl) (fun w' rely inv => Kept.of_files (inv.vacant ?_ rfl) rfl rfl)
            fun w₃ rely₃ _ => spec_pure (rely₃.holds.trans free₂) fun _ _ _ => trivial)
          rw [TxWorld.current, (rely₂.frame.trans rely.frame).pending, pending₁]

theorem spec_exchange {request : Json} (free : w.holds .main = false) :
    spec wallet digest approveCall chain .main false (exchange request)
      (fun _ _ => True) w := by
  refine bind_begin free (fun w' _ inv pending => ?_) fun w₁ rely₁ _ _ => ?_
  · exact inv.vacant (current_of_none pending) rfl
  refine bind_record (rely₁.holds.trans free) fun w₂ rely₂ _ => ?_
  have free₂ := rely₂.holds.trans (rely₁.holds.trans free)
  refine bind_record free₂ fun w₃ rely₃ _ => ?_
  have free₃ := rely₃.holds.trans free₂
  refine spec_last (bind_write (fun w' => { w' with pending := none }) free₃
    (fun _ _ _ => rfl) (fun w' rely inv => Kept.of_files (inv.vacant ?_ rfl) rfl rfl)
    fun w₄ rely₄ _ => spec_pure (rely₄.holds.trans free₃) fun _ _ _ => trivial)
  rw [TxWorld.current, ((rely₂.frame.trans rely₃.frame).trans rely.frame).pending]
  rfl

/-- Whatever the process starts keeps the invariant. -/
theorem spec_program (injective : Function.Injective digest) (command : Command Hash)
    (free : w.holds i = false) :
    spec wallet digest approveCall chain i false (program wallet digest approveCall i command)
      (fun _ _ => True) w := by
  have refreshes : spec wallet digest approveCall chain i false (refreshed wallet)
      (fun _ _ => True) w := spec_mono (spec_refreshed free) fun _ _ _ _ _ => trivial
  cases i with
  | worker =>
      cases command with
      | send _ _ _ | retryApproval _ | reconcile | refresh | exchange _ => exact refreshes
  | main =>
      cases command with
      | send target data operation =>
          refine spec_bind (spec_send injective free) fun _ w' _ free' _ => ?_
          exact spec_pure free' fun _ _ _ => trivial
      | retryApproval expected =>
          refine spec_bind (spec_retryApproval injective free) fun _ w' _ free' _ => ?_
          exact spec_pure free' fun _ _ _ => trivial
      | reconcile => exact spec_reconcile injective free
      | refresh => exact refreshes
      | exchange request => exact spec_exchange free

omit [DecidableEq Hash] in
theorem sound_fresh : Sound wallet chain .fresh :=
  ⟨.nil, fun _ same => (by cases same), fun _ mem => absurd mem List.not_mem_nil,
    fun _ mem => absurd mem List.not_mem_nil, fun _ mem => absurd mem List.not_mem_nil,
    .inl fun _ => rfl, fun _ mem => absurd mem List.not_mem_nil⟩

/-- Every run of both tasks, with any interleaving and any restarts, keeps the invariant. -/
theorem sound_run (injective : Function.Injective digest)
    (moves : List (Concurrent.Move Thread (TxInput Hash) (Command Hash))) :
    Sound wallet chain
      ((system wallet digest approveCall chain).run moves (.idle .fresh)).world := by
  have idle (w : TxWorld Hash) (inv : Sound wallet chain w) (free : w.lock = none) :
      Concurrent.Sound (system wallet digest approveCall chain) (protocol wallet chain)
        (fun i w => w.holds i = false) (.idle w) := by
    refine ⟨inv, fun i w' rely _ => rely.holds.trans ?_⟩
    change decide (w.lock = some i) = false
    rw [free]
    rfl
  refine (Concurrent.Sound.run (idle .fresh sound_fresh rfl) (fun i command w _ free => ?_)
    (fun w inv => idle _ inv.relock rfl) moves).inv
  exact Concurrent.safe_mono (spec_program injective command free) fun _ _ _ post => post.1

end Programs

section Results

variable [DecidableEq Hash] (wallet : Wallet) (digest : Signed → Hash)
  (approveCall : Address → Word → List (BitVec 8)) (chain : Chain Hash)

/-- Where the moves lead a wallet which was never used. -/
def reached (moves : List (Concurrent.Move Thread (TxInput Hash) (Command Hash))) :
    TxWorld Hash :=
  ((system wallet digest approveCall chain).run moves (.idle .fresh)).world

end Results

/-! A mint which is broadcast before a restart and settled after it, with a refresh in between. -/

section Sample

def sample : Wallet where
  chainId := 8453
  owner := 0
  manager := 1
  router := 2
  base := 3
  quote := 4
  maxQuoteAgeSeconds := 60
  gasLimitBufferBps := 1
  gasFeeBufferBps := 1
  confirmations := 1
  transferTopic := 5

def minted : Signed := ⟨8453, 0, 0, 2, 1, [], .legacy 2⟩

def mintReceipt : Receipt Signed := ⟨minted, 1, "hash", 1, [⟨1, [5, 0, 0, 7]⟩]⟩

def mintChain : Chain Signed where
  mined := fun nonce => if nonce = 0 then some (minted, mintReceipt) else none
  blockHash := fun _ => "hash"

def gasPrices : Replies := fun method =>
  if method = "eth_gasPrice" then .ok (.str "0x1") else .ok (.obj [])

def shown (number : Nat) : TxInput Signed :=
  ⟨none, false, number, false, some mintReceipt, none, minted, gasPrices⟩

def noCalldata : Address → Word → List (BitVec 8) := fun _ _ => []

def mintMoves : List (Concurrent.Move Thread (TxInput Signed) (Command Signed)) :=
  [.start .main (.send 1 [] ⟨.mint "near", none⟩), .start .worker .refresh] ++
  ([8453, 0, 0, 8453, 0, 0, 0, 0, 0, 0, 0].map fun n => .advance .main (shown n)) ++
  ([0, 8453, 0, 0, 0, 0, 0, 0, 0].map fun n => .advance .worker (shown n)) ++
  List.replicate 14 (.advance .main (shown 1)) ++
  [.restart, .start .main .reconcile] ++
  List.replicate 30 (.advance .main (shown 5))

end Sample

section Results

variable [DecidableEq Hash] (wallet : Wallet) (digest : Signed → Hash)
  (approveCall : Address → Word → List (BitVec 8)) (chain : Chain Hash)
  (moves : List (Concurrent.Move Thread (TxInput Hash) (Command Hash)))

/-- However the tasks interleave and wherever the process restarts: nonces rise from operation to
operation, an operation without an outcome is the stored one, whatever was broadcast was stored
and belongs to an operation which was begun, and what shares a nonce differs in its fees alone. -/
theorem nonces_used_once (injective : Function.Injective digest) :
    let w := reached wallet digest approveCall chain moves
    (w.begun.Pairwise fun later earlier => earlier.nonce < later.nonce) ∧
      (∀ r ∈ w.begun, (chain.mined r.nonce).isSome ∨
        ∃ p, w.pending = some (.evm p) ∧ p.root = r.root) ∧
      (∀ b ∈ w.sent, ∃ p, b.onDisk = some (.evm p) ∧ (∃ c ∈ p.candidates, c.raw = b.raw) ∧
        ∃ r ∈ w.begun, p.root = r.root ∧ b.raw.nonce = r.nonce) ∧
      ∀ b ∈ w.sent, ∀ b' ∈ w.sent, b.raw.nonce = b'.raw.nonce → b.raw.sameCall b'.raw := by
  intro w
  have inv : Sound wallet chain w := sound_run injective moves
  have nonce {b : Broadcast Hash} {p r : Pending Hash}
      (signed : ∃ c ∈ p.candidates, c.raw = b.raw) (continues : Continues p r) :
      b.raw.nonce = r.nonce := by
    obtain ⟨c, mem, same⟩ := signed
    rw [← same, continues.candidates c mem, continues.nonce]
  refine ⟨inv.ordered, fun r mem => ?_, fun b mem => ?_, fun b mem b' mem' same => ?_⟩
  · cases busy : w.current with
    | none => exact .inl (inv.settled r (earlier_of_none busy ▸ mem))
    | some p =>
        obtain ⟨root, rest, begun, continues⟩ := inv.current p busy
        rw [begun] at mem
        rcases List.mem_cons.mp mem with rfl | earlier
        · exact .inr ⟨p, pending_of_current busy, continues.root⟩
        · refine .inl (inv.settled r ?_)
          rwa [earlier_of_some busy, begun]
  · obtain ⟨-, p, stored, signed, r, begun, continues⟩ := inv.sent b mem
    exact ⟨p, stored, signed, r, begun, continues.root, nonce signed continues⟩
  · obtain ⟨-, p, -, ⟨c, candidate, raw⟩, r, begun, continues⟩ := inv.sent b mem
    obtain ⟨-, p', -, ⟨c', candidate', raw'⟩, r', begun', continues'⟩ := inv.sent b' mem'
    have one : r = r' := by
      refine eq_of_nonce inv.ordered begun begun' ?_
      rw [← nonce ⟨c, candidate, raw⟩ continues, ← nonce ⟨c', candidate', raw'⟩ continues', same]
    have root : p.root = p'.root := continues.root.trans (one ▸ continues'.root.symm)
    rw [← raw, ← raw']
    exact Signed.sameCall_trans (continues.calls c candidate)
      (root ▸ continues'.calls c' candidate')

theorem nonces_used_once_restarted :
    (reached sample id noCalldata mintChain mintMoves).sent.length = 1 ∧
      let w := reached sample id noCalldata mintChain mintMoves
      (w.begun.Pairwise fun later earlier => earlier.nonce < later.nonce) ∧
        (∀ r ∈ w.begun, (mintChain.mined r.nonce).isSome ∨
          ∃ p, w.pending = some (.evm p) ∧ p.root = r.root) ∧
        (∀ b ∈ w.sent, ∃ p, b.onDisk = some (.evm p) ∧ (∃ c ∈ p.candidates, c.raw = b.raw) ∧
          ∃ r ∈ w.begun, p.root = r.root ∧ b.raw.nonce = r.nonce) ∧
        ∀ b ∈ w.sent, ∀ b' ∈ w.sent, b.raw.nonce = b'.raw.nonce → b.raw.sameCall b'.raw :=
  ⟨by decide +kernel, nonces_used_once sample id noCalldata mintChain mintMoves
    Function.injective_id⟩

/-- The registry of positions is what the mined operations leave, up to the outcome of the stored
one, and every position that was opened left its marker. -/
theorem registry_follows_chain (injective : Function.Injective digest) :
    let w := reached wallet digest approveCall chain moves
    ((∀ layer, w.nfts.lookup layer = registry wallet chain w.earlier layer) ∨
      ∃ p, w.pending = some (.evm p) ∧ (chain.mined p.nonce).isSome ∧
        ∀ layer, w.nfts.lookup layer = registry wallet chain w.begun layer) ∧
      ∀ r ∈ w.earlier, (chain.mined r.nonce).isSome ∧ (opens chain r → w.lpHistory = true) := by
  intro w
  have inv : Sound wallet chain w := sound_run injective moves
  refine ⟨inv.mapped.imp_right ?_, fun r mem => ⟨inv.settled r mem, inv.history r mem⟩⟩
  rintro ⟨p, busy, mined, mapped⟩
  exact ⟨p, pending_of_current busy, mined, mapped⟩

theorem registry_follows_chain_restarted :
    (reached sample id noCalldata mintChain mintMoves).nfts.lookup "near" = some "7" ∧
      let w := reached sample id noCalldata mintChain mintMoves
      ((∀ layer, w.nfts.lookup layer = registry sample mintChain w.earlier layer) ∨
        ∃ p, w.pending = some (.evm p) ∧ (mintChain.mined p.nonce).isSome ∧
          ∀ layer, w.nfts.lookup layer = registry sample mintChain w.begun layer) ∧
        ∀ r ∈ w.earlier, (mintChain.mined r.nonce).isSome ∧
          (opens mintChain r → w.lpHistory = true) :=
  ⟨by decide +kernel, registry_follows_chain sample id noCalldata mintChain mintMoves
    Function.injective_id⟩

end Results

end Tx

end LpMaker.Evm
