import LpMaker.Hyperliquid.DispatchRules

/-!
# Safety of the requests

However the exchange answers and wherever the process stops: a request is handed to the network
once, under a nonce of its own, while it is stored as `submitting`. No client order id is sent
twice. A sent order stays on record with what was sent, its request stays stored until the
exchange answered for it, and what is given up as not submitted was never sent.
-/

namespace LpMaker.Hyperliquid

open Semantics Journal Dispatch Ledger OrderRecovery Dispatcher

section Sync

variable {sign : Json → Nat → Except Failure Json} {vault : Json} {user coin id : String}
  {w : Dispatcher} {keep : Nat}

/-- Every operation but a cancel stays one of the desk. -/
def NotCancel : DeskOp → Prop
  | .cancel _ => False
  | _ => True

theorem NotCancel.of_quiet {op : DeskOp} (quiet : Quiet op) : NotCancel op := by
  cases op with
  | cancel _ => exact quiet
  | _ => trivial

theorem uses_quiet_resolve {terminalOnly : Bool} :
    (resolve user id terminalOnly).uses NotCancel :=
  Program.uses_mono uses_resolve fun _ => NotCancel.of_quiet

theorem uses_importLegacy : (importLegacy user).uses NotCancel := by
  apply Program.uses_bind (Program.uses_call.mpr trivial)
  intro hedge
  split_ifs
  · exact Program.uses_pure _
  · exact Program.uses_bind (Program.uses_ofExcept _) fun _ => Program.uses_call.mpr trivial

theorem uses_refreshOrders (recorded : List Order) :
    (refreshOrders user recorded).uses NotCancel := by
  induction recorded with
  | nil => exact Program.uses_pure _
  | cons order recorded inductionHypothesis =>
      apply Program.uses_bind (Program.uses_ofExcept _)
      intro _
      split_ifs
      · exact inductionHypothesis
      · exact Program.uses_bind uses_quiet_resolve fun _ => inductionHypothesis

theorem uses_refresh : (refresh user).uses NotCancel :=
  Program.uses_bind uses_importLegacy fun _ =>
    Program.uses_bind (Program.uses_call.mpr trivial) fun _ => uses_refreshOrders _

theorem uses_archiveAll (removed : List (Nat × String)) (ledger : Ledger) :
    (archiveAll removed ledger).uses NotCancel := by
  induction removed generalizing ledger with
  | nil => exact Program.uses_pure _
  | cons first rest inductionHypothesis =>
      apply Program.uses_bind (Program.uses_ofExcept _)
      intro order
      exact Program.uses_bind (Program.uses_call.mpr trivial) fun _ => inductionHypothesis _

theorem uses_compact : (compact keep).uses NotCancel := by
  apply Program.uses_bind (Program.uses_call.mpr trivial)
  intro pointer
  apply Program.uses_bind (Program.uses_call.mpr trivial)
  intro pending
  split_ifs
  · apply Program.uses_bind (Program.uses_call.mpr trivial)
    intro ledger
    exact Program.uses_bind (uses_archiveAll _ _) fun _ => Program.uses_call.mpr trivial
  · exact Program.uses_pure _

theorem uses_observeOpenOrders : Controller.observeOpenOrders.uses NotCancel :=
  Program.uses_bind (Program.uses_call.mpr trivial) fun _ =>
    Program.uses_bind (Program.uses_call.mpr trivial) fun _ => Program.uses_pure _

theorem uses_confirmCancelled : (Controller.confirmCancelled user id).uses NotCancel :=
  Program.uses_bind uses_quiet_resolve fun _ => Program.uses_ofExcept _

theorem implement_onDesk {α : Type} {program : DeskProgram α} (uses : program.uses NotCancel) :
    program.implement (DeskOp.program sign vault user) = onDesk program := by
  refine Program.implement_eq_embed (fun op allowed => ?_) uses
  have called : ∀ op : DeskOp, (call (.desk op) : DispatchProgram op.Reply).attempt =
      Program.perform (DispatchOp.desk op) fun result =>
        Pure.pure (result.map fun reply => reply) := by
    intro op
    refine congrArg (Program.perform (DispatchOp.desk op)) (funext fun reply => ?_)
    cases reply with
    | ok _ | error _ => rfl
  cases op with
  | cancel _ => exact allowed.elim
  | _ => exact called _

/-- A program without a cancel is one of the desk. -/
theorem spec_implement {α : Type} {program : DeskProgram α} (uses : program.uses NotCancel)
    (sound : w.Sound)
    (holds : Desk.machine.spec (Moves w.desk) program (fun _ _ => True) w.desk) :
    machine.spec Sound (program.implement (DeskOp.program sign vault user)) (fun _ _ => True)
      w := by
  rw [implement_onDesk uses]
  exact Machine.spec_mono (spec_onDesk sound holds) fun _ _ _ _ => trivial

theorem spec_implement_bind {α β : Type} {first : DeskProgram α} {rest : α → DeskProgram β}
    {P : α → Dispatcher → Prop} {Q : β → Dispatcher → Prop}
    (holds : machine.spec Sound (first.implement (DeskOp.program sign vault user)) P w)
    (later : ∀ value w', Sound w' → P value w' →
      machine.spec Sound ((rest value).implement (DeskOp.program sign vault user)) Q w') :
    machine.spec Sound ((first >>= rest).implement (DeskOp.program sign vault user)) Q w := by
  rw [Program.implement_bind]
  exact Machine.spec_bind (Machine.spec_mono holds later)

theorem spec_implement_lift {α : Type} {result : Except Failure α} (sound : w.Sound) :
    machine.spec Sound ((Desk.lift result).implement (DeskOp.program sign vault user))
      (fun _ _ => True) w := by
  rw [Program.implement_ofExcept]
  exact spec_lift sound fun _ _ => trivial

theorem spec_implement_throw {α : Type} {failure : Failure} {P : α → Dispatcher → Prop}
    (sound : w.Sound) :
    machine.spec Sound ((Program.throw failure : DeskProgram α).implement
      (DeskOp.program sign vault user)) P w :=
  Machine.spec_throw sound

theorem spec_confirm (sound : w.Sound) :
    machine.spec Sound ((Controller.confirmCancelled user id).implement
      (DeskOp.program sign vault user)) (fun _ _ => True) w :=
  spec_implement uses_confirmCancelled sound (spec_confirmCancelled_moves id w.desk)

theorem spec_cancelIfOpen_sound (sound : w.Sound) :
    machine.spec Sound (cancelIfOpen sign vault user id) (fun _ _ => True) w := by
  unfold cancelIfOpen Controller.cancelIfOpen
  have looked : machine.spec Sound
      ((resolve user id false).implement (DeskOp.program sign vault user)) (fun _ _ => True) w := by
    apply spec_implement uses_quiet_resolve sound
    exact Machine.spec_mono (spec_resolve_moves user id false w.desk) fun _ _ _ _ => trivial
  refine spec_implement_bind looked fun status w₁ sound₁ _ => ?_
  by_cases isOpen : describesOrder status ∧ responseStatus status = some "open"
  · rw [if_pos isOpen]
    have cancelled : machine.spec Sound ((Desk.tryCancel id).implement
        (DeskOp.program sign vault user)) (fun _ _ => True) w₁ := by
      have asked : machine.spec Sound (DeskOp.program sign vault user (.cancel id))
          (fun _ _ => True) w₁ := by
        apply Machine.spec_bind
        apply Machine.spec_bind
        apply spec_asset sound₁
        intro asset
        apply Machine.spec_mono (spec_exchange sign vault user none sound₁)
        intro _ _ sound₂ _
        exact Machine.spec_pure sound₂ trivial
      exact Machine.spec_bind (Machine.spec_mono (Machine.spec_attempt asked)
        fun _ _ sound₂ _ => Machine.spec_pure sound₂ trivial)
    refine spec_implement_bind cancelled fun result w₂ sound₂ _ => ?_
    cases result with
    | ok _ => exact spec_confirm sound₂
    | error failure =>
        have read : machine.spec Sound (Desk.readPending.implement
            (DeskOp.program sign vault user)) (fun _ _ => True) w₂ :=
          spec_implement (Program.uses_call.mpr trivial) sound₂
            (Desk.spec_readPending (.refl _) trivial)
        refine spec_implement_bind read fun pending w₃ sound₃ _ => ?_
        split_ifs
        · exact spec_implement_throw sound₃
        · exact spec_confirm sound₃
  · rw [if_neg isOpen]
    exact Machine.spec_pure sound₁ trivial

theorem spec_cancelStale_sound {ids : List String} (sound : w.Sound) :
    machine.spec Sound ((Controller.cancelStale user ids).implement
      (DeskOp.program sign vault user)) (fun _ _ => True) w := by
  induction ids generalizing w with
  | nil => exact Machine.spec_pure sound trivial
  | cons id ids inductionHypothesis =>
      have noted : machine.spec Sound ((Desk.call .record).implement
          (DeskOp.program sign vault user)) (fun _ _ => True) w :=
        spec_implement (Program.uses_call.mpr trivial) sound
          (Desk.spec_record (.refl _) trivial)
      refine spec_implement_bind noted fun _ w₁ sound₁ _ => ?_
      refine spec_implement_bind (spec_cancelIfOpen_sound sound₁) fun _ w₂ sound₂ _ => ?_
      exact inductionHypothesis sound₂

theorem spec_syncOrders_sound {recoverManaged : Bool} (sound : w.Sound) :
    machine.spec Sound (syncOrders sign vault user coin keep recoverManaged)
      (fun _ _ => True) w := by
  have observed {w' : Dispatcher} (sound' : w'.Sound) : machine.spec Sound
      (Controller.observeOpenOrders.implement (DeskOp.program sign vault user))
      (fun _ _ => True) w' :=
    spec_implement uses_observeOpenOrders sound' (spec_observeOpenOrders_moves w'.desk)
  have read {w' : Dispatcher} (sound' : w'.Sound) : machine.spec Sound
      (Desk.readOrders.implement (DeskOp.program sign vault user)) (fun _ _ => True) w' :=
    spec_implement (Program.uses_call.mpr trivial) sound' (Desk.spec_readOrders (.refl _) trivial)
  unfold syncOrders Controller.syncOrders
  refine spec_implement_bind (observed sound) fun _ w₁ sound₁ _ => ?_
  refine spec_implement_bind (spec_implement uses_refresh sound₁ (spec_refresh_moves w₁.desk))
    fun _ w₂ sound₂ _ => ?_
  refine spec_implement_bind (observed sound₂) fun open_ w₃ sound₃ _ => ?_
  refine spec_implement_bind (read sound₃) fun ledger w₄ sound₄ _ => ?_
  refine spec_implement_bind (spec_implement_lift sound₄) fun ids w₅ sound₅ _ => ?_
  refine spec_implement_bind (spec_implement_lift sound₅) fun _ w₆ sound₆ _ => ?_
  refine spec_implement_bind (spec_cancelStale_sound sound₆) fun _ w₇ sound₇ _ => ?_
  refine spec_implement_bind (observed sound₇) fun after w₈ sound₈ _ => ?_
  refine spec_implement_bind (spec_implement_lift sound₈) fun rows w₉ sound₉ _ => ?_
  split_ifs
  · have cleared : machine.spec Sound ((Desk.call (.writeHedgeOrder .null)).implement
        (DeskOp.program sign vault user)) (fun _ _ => True) w₉ :=
      spec_implement (Program.uses_call.mpr trivial) sound₉ (Desk.spec_writeHedgeOrder (.refl _)
        ((Moves.refl _).of_holds (fun _ => Iff.rfl) rfl) trivial)
    refine spec_implement_bind cleared fun _ w₁₀ sound₁₀ _ => ?_
    exact spec_implement uses_compact sound₁₀ (spec_compact_moves keep w₁₀.desk)
  · refine spec_implement_bind (read sound₉) fun ledger w₁₀ sound₁₀ _ => ?_
    exact spec_implement_bind (spec_implement_lift sound₁₀) fun _ w₁₁ sound₁₁ _ =>
      spec_implement_throw sound₁₁

theorem spec_wallet {value : Json} (sound : w.Sound) :
    machine.spec Sound (wallet value) (fun _ _ => True) w := by
  unfold wallet
  apply Machine.spec_bind
  apply spec_readPending sound
  apply Machine.spec_bind
  apply spec_lift sound
  intro _ foreign
  obtain ⟨before, after⟩ := ensure_eq_ok.mp foreign
  refine spec_writePending sound (sound.consistent.store ?_ ?_) trivial
  · apply answers_of_stored sound
    intro r _ same
    rw [same] at before
    exact absurd pending_venue before
  · rw [preparedIds_foreign after]
    exact fun _ mem => absurd mem List.not_mem_nil

theorem spec_command (command : Trader × Command) (w : Dispatcher) (sound : w.Sound) :
    machine.spec Sound (Command.program command) (fun _ _ => True) w := by
  obtain ⟨a, command⟩ := command
  cases command with
  | exchange action hedge =>
      apply Machine.spec_bind
      apply Machine.spec_mono (spec_exchange a.sign a.vault a.user hedge sound)
      intro _ _ sound' _
      exact Machine.spec_pure sound' trivial
  | reconcile =>
      apply Machine.spec_bind
      apply Machine.spec_mono (spec_reconcile sound)
      intro _ _ sound' _
      exact Machine.spec_pure sound' trivial
  | syncOrders keep recoverManaged => exact spec_syncOrders_sound sound
  | cancelIfOpen cloid => exact spec_cancelIfOpen_sound sound
  | clearPointer =>
      exact Machine.spec_mono (@spec_writeHedge w (some .null) sound) fun _ _ _ _ => trivial
  | wallet value => exact spec_wallet sound

end Sync

section Refinement

variable {sign : Json → Nat → Except Failure Json} {vault : Json} {user coin id : String}
  {d written : Desk} {w v : Dispatcher} {posted : List (Request × Desk)}
  {cancelled : List (String × Option Order)}

/-- The operations of a request to cancel. -/
def Cancels (id : String) : DispatchOp → Prop
  | .asset | .check | .clock | .readNonce | .writeNonce _ | .writePending _ => True
  | .desk .readPending | .desk .record => True
  | .post r => ∃ asset, r.action = Client.cancelAction asset id
  | _ => False

theorem uses_nextNonce : Store.nextNonce.uses (Cancels id) :=
  Program.uses_bind (Program.uses_call.mpr trivial) fun _ =>
    Program.uses_bind (Program.uses_call.mpr trivial) fun _ =>
      Program.uses_bind (Program.uses_call.mpr trivial) fun _ => Program.uses_pure _

theorem uses_onDesk {op : DeskOp} (allowed : Cancels id (.desk op)) :
    (onDesk (Desk.call op)).uses (Cancels id) := by
  refine ⟨allowed, fun reply => ?_⟩
  cases reply <;> trivial

theorem uses_begin (value : Json) : (Store.begin value).uses (Cancels id) :=
  Program.uses_bind (Program.uses_call.mpr trivial) fun _ =>
    Program.uses_bind (uses_onDesk trivial) fun _ =>
      Program.uses_bind (Program.uses_ofExcept _) fun _ =>
        Program.uses_bind (Program.uses_call.mpr trivial) fun _ => uses_onDesk trivial

theorem uses_finish : Store.finish.uses (Cancels id) :=
  Program.uses_bind (uses_onDesk trivial) fun _ => Program.uses_call.mpr trivial

theorem not_order_cancel (asset : Nat) : ¬isOrder (Client.cancelAction asset id) := by
  change ¬(some "cancelByCloid" = some "order")
  decide

theorem uses_send {r : Request} {asset : Nat} (cancels : r.action = Client.cancelAction asset id) :
    (Client.send r).uses (Cancels id) := by
  apply Program.uses_bind (Program.uses_call.mpr trivial)
  intro _
  apply Program.uses_bind (Program.uses_call.mpr ⟨asset, cancels⟩)
  intro response
  apply Program.uses_bind (Program.uses_ofExcept _)
  intro _
  have skipped : acknowledge r.action response = pure () := by
    rw [cancels]
    exact if_neg (not_order_cancel asset)
  rw [skipped]
  apply Program.uses_bind (Program.uses_pure _)
  intro _
  exact Program.uses_bind uses_finish fun _ =>
    Program.uses_bind (Program.uses_ofExcept _) fun _ => Program.uses_pure _

theorem uses_cancel : (Client.cancel sign vault user id).uses (Cancels id) := by
  apply Program.uses_bind (Program.uses_call.mpr trivial)
  intro asset
  unfold Client.exchange
  rw [validateNewIds, if_neg (not_order_cancel asset)]
  apply Program.uses_bind (Program.uses_call.mpr trivial)
  intro _
  apply Program.uses_bind uses_nextNonce
  intro nonce
  apply Program.uses_bind (Program.uses_ofExcept _)
  intro signature
  apply Program.uses_bind (uses_begin _)
  intro _
  rw [prepare, if_neg (not_order_cancel asset)]
  exact uses_send rfl

/-- Since the request to cancel began. -/
def Cancelling (id : String) (w v : Dispatcher) : Prop :=
  v.desk = { w.desk with pending := v.desk.pending } ∧
    ∃ recent, v.posted = recent ++ w.posted ∧
      ∀ e ∈ recent, (∃ asset, e.1.action = Client.cancelAction asset id) ∧
        e.2.ledger = w.desk.ledger

theorem Cancelling.step {op : DispatchOp} (allowed : Cancels id op) (input : DeskInput)
    (cancelling : Cancelling id w v) : Cancelling id w (machine.step op input v).2 := by
  obtain ⟨desk, recent, posted, each⟩ := cancelling
  have written {v' : Dispatcher} (same : v'.desk = { v.desk with pending := v'.desk.pending })
      (posted' : v'.posted = v.posted) : Cancelling id w (write input v' v).2 := by
    unfold write
    have done : Cancelling id w v' := by
      refine ⟨?_, recent, posted'.trans posted, each⟩
      rw [same, desk]
    cases input.reply with
    | ok _ => exact done
    | error _ =>
        dsimp only
        split_ifs
        · exact done
        · exact ⟨desk, recent, posted, each⟩
  cases op with
  | asset | check | clock | readNonce => exact ⟨desk, recent, posted, each⟩
  | writeNonce _ | writePending _ => exact written rfl rfl
  | post r =>
      refine ⟨desk, (r, v.desk) :: recent, congrArg ((r, v.desk) :: ·) posted, fun e mem => ?_⟩
      rcases List.mem_cons.mp mem with rfl | mem
      · exact ⟨allowed, by rw [desk]⟩
      · exact each e mem
  | desk op =>
      have same : (Desk.step op input v.desk).2 = v.desk := by
        cases op with
        | readPending =>
            simp only [Desk.step, Desk.read]
            cases input.reply <;> rfl
        | record =>
            simp only [Desk.step, Desk.write]
            cases input.reply <;> simp
        | _ => exact allowed.elim
      change Cancelling id w { v with desk := (Desk.step op input v.desk).2 }
      rw [same]
      exact ⟨desk, recent, posted, each⟩
  | archived _ | activeAsset => exact allowed.elim

/-- The desk, and what was posted for its cancels. -/
def Related (posted : List (Request × Desk)) (d : Desk) (w : Dispatcher) : Prop :=
  w.desk = { d with cancelled := w.desk.cancelled } ∧
    ∃ recent, w.posted = recent ++ posted ∧
      ∀ e ∈ recent, ∃ asset entry, entry ∈ d.cancelled ∧
        e.1.action = Client.cancelAction asset entry.1 ∧ e.2.ledger.get entry.1 = entry.2

/-- A request to cancel ends as a cancel of the desk may. -/
theorem Related.cancel (related : Related posted d w) (cancelling : Cancelling id w v)
    (result : Except Failure Unit) :
    ∃ input, (Desk.machine.step (.cancel id) input d).1 = result ∧
      Related posted (Desk.machine.step (.cancel id) input d).2 v := by
  obtain ⟨desk, recent, before, each⟩ := related
  obtain ⟨desk', recent', after, each'⟩ := cancelling
  refine ⟨⟨0, result.map fun _ => .null, false, v.desk.pending⟩, ?_, ?_, recent' ++ recent, ?_, ?_⟩
  · cases result with
    | ok _ | error _ => rfl
  · change v.desk = { d with pending := v.desk.pending, cancelled := v.desk.cancelled }
    rw [desk', desk]
  · rw [after, before, List.append_assoc]
  · intro e mem
    change ∃ asset entry, entry ∈ (id, d.ledger.get id) :: d.cancelled ∧ _
    rcases List.mem_append.mp mem with mem | mem
    · obtain ⟨⟨asset, action⟩, ledger⟩ := each' e mem
      refine ⟨asset, _, List.mem_cons_self, action, ?_⟩
      rw [ledger, desk]
    · obtain ⟨asset, entry, held, rest⟩ := each e mem
      exact ⟨asset, entry, List.mem_cons_of_mem _ held, rest⟩

theorem write_cancelled {input : DeskInput} :
    Desk.write input { written with cancelled := cancelled } { d with cancelled := cancelled } =
      ((Desk.write input written d).1,
        { (Desk.write input written d).2 with cancelled := cancelled }) := by
  unfold Desk.write
  cases input.reply with
  | ok _ => rfl
  | error _ => cases input.applied <;> rfl

theorem write_keeps {input : DeskInput} (same : written.cancelled = d.cancelled) :
    (Desk.write input written d).2.cancelled = d.cancelled := by
  unfold Desk.write
  cases input.reply with
  | ok _ => exact same
  | error _ =>
      cases input.applied
      · rfl
      · exact same

/-- No other operation reads or changes what was cancelled. -/
theorem step_cancelled {op : DeskOp} (allowed : NotCancel op) (input : DeskInput) :
    Desk.step op input { d with cancelled := cancelled } =
        ((Desk.step op input d).1, { (Desk.step op input d).2 with cancelled := cancelled }) ∧
      (Desk.step op input d).2.cancelled = d.cancelled := by
  cases op with
  | readOrders | readHedgeOrder | readPending =>
      simp only [Desk.step, Desk.read]
      cases input.reply <;> exact ⟨rfl, rfl⟩
  | ask question =>
      simp only [Desk.step, Desk.ask]
      cases input.reply <;> exact ⟨rfl, rfl⟩
  | updateOrders change =>
      simp only [Desk.step]
      cases change input.nowMs d.ledger with
      | ok ledger =>
          exact ⟨@write_cancelled d { d with ledger := ledger } cancelled input, write_keeps rfl⟩
      | error _ => exact ⟨rfl, rfl⟩
  | archiveOrder order =>
      exact ⟨@write_cancelled d { d with archive := order :: d.archive } cancelled input,
        write_keeps rfl⟩
  | writeHedgeOrder value =>
      exact ⟨@write_cancelled d { d with hedgeOrder := value } cancelled input, write_keeps rfl⟩
  | record => exact ⟨@write_cancelled d d cancelled input, write_keeps rfl⟩
  | cancel _ => exact allowed.elim

theorem Related.step {op : DeskOp} (allowed : NotCancel op) (related : Related posted d w)
    (input : DeskInput) :
    (Desk.machine.step op input d).1 = (machine.step (.desk op) input w).1 ∧
      Related posted (Desk.machine.step op input d).2 (machine.step (.desk op) input w).2 := by
  obtain ⟨desk, recent, before, each⟩ := related
  obtain ⟨same, keeps⟩ := @step_cancelled d w.desk.cancelled op allowed input
  rw [← desk] at same
  change (Desk.step op input d).1 = (Desk.step op input w.desk).1 ∧
    Related posted (Desk.step op input d).2 { w with desk := (Desk.step op input w.desk).2 }
  rw [same]
  refine ⟨rfl, rfl, recent, before, fun e mem => ?_⟩
  rw [keeps]
  exact each e mem

/-- Every operation of the desk stands for what the process does. -/
theorem implements_desk :
    Machine.Implements Desk.machine machine (DeskOp.program sign vault user) (Related posted) := by
  intro op d w related
  have called (op : DeskOp) (allowed : NotCancel op) :
      machine.wp (fun v => Related posted d v ∨
          ∃ input, Related posted (Desk.machine.step op input d).2 v)
        (call (.desk op)) (fun result v => ∃ input, (Desk.machine.step op input d).1 = result ∧
          Related posted (Desk.machine.step op input d).2 v) w := by
    refine Machine.wp_call.mpr ⟨.inl related, fun input => ?_⟩
    obtain ⟨reply, after⟩ := related.step allowed input
    exact ⟨.inr ⟨input, after⟩, input, reply, after⟩
  cases op with
  | cancel id =>
      have uses : (DeskOp.program sign vault user (.cancel id)).uses (Cancels id) :=
        Program.uses_bind uses_cancel fun _ => Program.uses_pure _
      have start : Cancelling id w w := ⟨rfl, [], rfl, fun _ mem => absurd mem List.not_mem_nil⟩
      have kept := Machine.wp_of_uses machine
        (fun op input v allowed cancelling => Cancelling.step (w := w) allowed input cancelling)
        uses start
      refine Machine.wp_mono (Machine.wp_mono_inv kept fun v cancelling => ?_)
        fun result v _ cancelling => related.cancel cancelling result
      obtain ⟨input, -, after⟩ := related.cancel cancelling (.ok ())
      exact .inr ⟨input, after⟩
  | _ => exact called _ trivial

/-- What holds of the desk holds of the process: where the synchronisation succeeds, the last read
of the open orders was empty and every record is final, and all it sends are requests to cancel
orders which the ledger holds for the hedge at that moment. -/
theorem sync_orders_dispatched (sign : Json → Nat → Except Failure Json) (vault : Json)
    (user coin : String) (keep : Nat) (recoverManaged : Bool) (inputs : List DeskInput)
    (w : Dispatcher) :
    let ended := machine.run (syncOrders sign vault user coin keep recoverManaged) inputs w
    (ended.1 = .finished (.ok ()) →
      (∃ last earlier, ended.2.desk.answers = (.openOrders, last) :: earlier ∧
        last.asArray = some []) ∧ ∀ o ∈ ended.2.desk.ledger.orders, o.terminal = true) ∧
      ∃ recent, ended.2.posted = recent ++ w.posted ∧
        ∀ e ∈ recent, ∃ asset, ∃ o ∈ e.2.ledger.orders,
          e.1.action = Client.cancelAction asset o.cloid ∧ o.managedHedge = true := by
  intro ended
  have start : Related w.posted { w.desk with cancelled := [] } w :=
    ⟨rfl, [], rfl, fun _ mem => absurd mem List.not_mem_nil⟩
  obtain ⟨⟨d, ⟨desk, recent, posted, each⟩, owned⟩, finished⟩ :=
    Machine.wp_sound (Machine.wp_implement implements_desk start
      (Controller.spec_syncOrders user coin keep recoverManaged _)) inputs
  refine ⟨fun succeeded => ?_, recent, posted, fun e mem => ?_⟩
  · obtain ⟨d', ⟨desk', -⟩, post⟩ := finished _ succeeded
    obtain ⟨settled, last, earlier, answers, empty⟩ := post () rfl
    change ended.2.desk = _ at desk'
    refine ⟨⟨last, earlier, ?_, empty⟩, fun o mem => ?_⟩
    · rw [desk']
      exact answers
    · rw [desk'] at mem
      rcases settled.settled o.cloid o (get_of_mem mem) with terminal | impossible
      · exact terminal
      · cases impossible
  · obtain ⟨asset, entry, cancelled, action, found⟩ := each e mem
    obtain ⟨all, same, managed⟩ := owned
    rw [List.append_nil] at same
    obtain ⟨o, recorded, hedge⟩ := managed entry (same ▸ cancelled)
    rw [recorded] at found
    refine ⟨asset, o, mem_of_get found, ?_, hedge⟩
    rw [cloid_of_get found]
    exact action

end Refinement

section Results

/-- Nothing was sent yet, whatever is stored. -/
def Dispatcher.unused (desk : Desk) (nonce : Option Nat) : Dispatcher := ⟨desk, nonce, []⟩

theorem sound_unused (desk : Desk) (nonce : Option Nat) : (Dispatcher.unused desk nonce).Sound where
  rising := List.Pairwise.nil
  reserved := fun _ mem => absurd mem List.not_mem_nil
  once := List.nodup_nil
  stored := fun _ mem => absurd mem List.not_mem_nil
  consistent :=
    ⟨fun _ mem => absurd mem List.not_mem_nil, fun _ _ _ _ mem => absurd mem List.not_mem_nil,
      fun _ _ _ mem => absurd mem List.not_mem_nil⟩

variable (desk : Desk) (nonce : Option Nat) (runs : List ((Trader × Command) × List DeskInput))

theorem sound_sessions :
    (machine.sessions Command.program runs (Dispatcher.unused desk nonce)).Sound :=
  Machine.sessions_inv_of_spec (P := fun _ _ _ => True) (sound_unused desk nonce)
    (fun command w sound => spec_command command w sound) runs

/-- Every request is handed to the network once: under a nonce above all earlier ones, with client
ids that no request had before in any spelling, and while it is stored as being submitted. -/
theorem requests_posted_once :
    let w := machine.sessions Command.program runs (Dispatcher.unused desk nonce)
    (w.posted.Pairwise fun later earlier => earlier.1.nonce < later.1.nonce) ∧
      ((w.posted.flatMap fun e => clientIds e.1.action).map asciiLower).Nodup ∧
      ∀ e ∈ w.posted, e.2.pending = e.1.pending "submitting" := by
  intro w
  have sound : w.Sound := sound_sessions desk nonce runs
  exact ⟨sound.rising, sound.once, sound.stored⟩

/-- Every sent order is on record with what was sent, and its request stays stored until the
exchange answered for it. What is on record as not submitted was never sent, and neither was a
request which is stored as prepared. -/
theorem posted_orders_on_record :
    let w := machine.sessions Command.program runs (Dispatcher.unused desk nonce)
    (∀ e ∈ w.posted, ∀ intent ∈ orders e.1.action, ∃ o, w.desk.Holds o ∧ e.1.Records intent o ∧
        (o.Answered ∨ o.terminal = false ∧ w.desk.pending = e.1.pending "submitting")) ∧
      (∀ o, w.desk.Holds o → o.Unsent → ∀ e ∈ w.posted, ∀ id ∈ clientIds e.1.action,
        asciiLower id ≠ asciiLower o.cloid) ∧
      ∀ id ∈ preparedIds w.desk.pending, ∀ e ∈ w.posted, ∀ id' ∈ clientIds e.1.action,
        asciiLower id' ≠ asciiLower id := by
  intro w
  have consistent := (sound_sessions desk nonce runs : w.Sound).consistent
  exact ⟨fun e mem => consistent.kept e.1 (List.mem_map_of_mem mem),
    fun o held unsent e mem => consistent.unsent o held unsent e.1 (List.mem_map_of_mem mem),
    fun id prepared e mem => consistent.prepared id prepared e.1 (List.mem_map_of_mem mem)⟩

end Results

section Interrupted

/-- The exchange filled the order. -/
def filledAnswer : Json :=
  .obj [("status", .str "order"), ("order", .obj [("status", .str "filled"),
    ("order", .obj [("oid", .nat 7), ("cloid", .str "0x00000000000000000000000000000001")])])]

def sampleTrader : Trader := ⟨fun _ _ => .ok (.str "signature"), .null, "0xuser", "ETH"⟩

/-- The process stops before it reads the reply, and the next one finds the order. -/
def interruptedOrder : List ((Trader × Command) × List DeskInput) :=
  [((sampleTrader, .exchange Shipped.orderAction none),
      List.replicate 16 ⟨1000, .ok .null, false, .null⟩),
    ((sampleTrader, .reconcile), List.replicate 20 ⟨2000, .ok filledAnswer, false, .null⟩)]

example :
    let w := machine.sessions Command.program interruptedOrder
      (Dispatcher.unused ⟨.empty, [], .null, .null, [], []⟩ none)
    w.posted.length = 1 ∧ w.desk.pending = .null ∧
      w.desk.ledger.orders.map Order.status = ["filled"] := by decide +kernel

end Interrupted

end LpMaker.Hyperliquid
